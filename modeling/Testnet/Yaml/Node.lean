import Testnet.Yaml.Token

/-!
# YAML nodes

A document is a tree of scalars, sequences and mappings, in which a node may carry an anchor and a
tag and an alias may stand for a node. A node that is left out is an empty plain scalar. The tree
is read from tokens; what an alias leads to is kept as it is written.
-/

namespace Testnet.Yaml

/-- A tag in full. -/
abbrev Tag := List Char

structure Properties where
  anchor : Option String
  tag : Option Tag
deriving DecidableEq, Repr

namespace Properties

def none : Properties := ⟨.none, .none⟩

def isNone (p : Properties) : Bool := p.anchor.isNone && p.tag.isNone

end Properties

/-- A node whose aliases are labelled by `α`. -/
inductive Node (α : Type) where
  | alias (target : α)
  | scalar (p : Properties) (style : Style) (text : String)
  | sequence (p : Properties) (items : List (Node α))
  | mapping (p : Properties) (fields : List (Node α × Node α))
deriving Repr

namespace Node

variable {α : Type}

def empty (p : Properties) : Node α := scalar p .plain ""

/-- What tag handles stand for. -/
abbrev Handles := List (List Char × List Char)

def standardHandles : Handles :=
  [(['!'], ['!']), (['!', '!'], "tag:yaml.org,2002:".toList)]

def Handles.resolve? (hs : Handles) (t : RawTag) : Option Tag :=
  if t.handle.isEmpty then some t.suffix else (hs.lookup t.handle).map (· ++ t.suffix)

/-- An anchor and a tag in either order, and the tokens after them. -/
def properties? (hs : Handles) : List Token → Option (Properties × List Token)
  | .anchor a :: .tag t :: ts => do return (⟨some a, some (← hs.resolve? t)⟩, ts)
  | .anchor a :: ts => some (⟨some a, none⟩, ts)
  | .tag t :: .anchor a :: ts => do return (⟨some a, some (← hs.resolve? t)⟩, ts)
  | .tag t :: ts => do return (⟨none, some (← hs.resolve? t)⟩, ts)
  | ts => some (.none, ts)

/-- A lone exclamation mark says no more of a scalar than that it is one. -/
def scalarTag (t : Option Tag) : Option Tag := if t = some ['!'] then none else t

/-- Where a node stands. -/
inductive Place where
  /-- In a flow collection. -/
  | flow
  | block
  /-- In a block mapping, where the entries of a sequence need no indentation. -/
  | blockField
deriving DecidableEq, Repr

/-- Whether a node is left out in a block before the given token. -/
def endsBlockNode : Option Token → Bool
  | some .key => true
  | some .value => true
  | some .blockEnd => true
  | _ => false

def endsEntry : Option Token → Bool
  | some .blockEntry => true
  | some .blockEnd => true
  | _ => false

def endsFlowField : Option Token → Bool
  | some .value => true
  | some .flowEntry => true
  | some .flowMappingEnd => true
  | _ => false

def endsFlowValue (close : Token) : Option Token → Bool
  | some .flowEntry => true
  | some t => t == close
  | none => false

/-- Passes a comma before every item but the first. -/
def separator? (first : Bool) (close : Token) : List Token → Option (List Token)
  | .flowEntry :: ts => if first then some (.flowEntry :: ts) else some ts
  | t :: ts => if first || t == close then some (t :: ts) else none
  | [] => none

mutual

/-- A node and the tokens after it. Every call passes a token or is followed by one that does, so
that twice as many calls as tokens are enough. -/
def read? (hs : Handles) : Nat → Place → List Token → Option (Node String × List Token)
  | 0, _, _ => none
  | _ + 1, _, .alias a :: ts => some (.alias a, ts)
  | fuel + 1, place, ts => do
    let (p, ts) ← properties? hs ts
    match ts with
    | .scalar style text :: ts => some (.scalar { p with tag := scalarTag p.tag } style text, ts)
    | .flowSequenceStart :: ts => do
      let (items, ts) ← readFlowItems? hs fuel true ts
      some (.sequence p items, ts)
    | .flowMappingStart :: ts => do
      let (fields, ts) ← readFlowFields? hs fuel true ts
      some (.mapping p fields, ts)
    | t :: ts =>
      if t = .blockEntry ∧ place = .blockField then do
        let (items, ts) ← readLooseEntries? hs fuel (t :: ts)
        some (.sequence p items, ts)
      else if t = .blockSequenceStart ∧ place ≠ .flow then do
        let (items, ts) ← readEntries? hs fuel ts
        some (.sequence p items, ts)
      else if t = .blockMappingStart ∧ place ≠ .flow then do
        let (fields, ts) ← readFields? hs fuel ts
        some (.mapping p fields, ts)
      else if p.isNone then none
      else some (empty p, t :: ts)
    | [] => none

/-- The entries of a block sequence up to its end. -/
def readEntries? (hs : Handles) :
    Nat → List Token → Option (List (Node String) × List Token)
  | 0, _ => none
  | fuel + 1, .blockEntry :: ts => do
    let (item, ts) ←
      if endsEntry ts.head? then some (empty .none, ts) else read? hs fuel .block ts
    let (items, ts) ← readEntries? hs fuel ts
    some (item :: items, ts)
  | _ + 1, .blockEnd :: ts => some ([], ts)
  | _ + 1, _ => none

/-- The entries of a sequence that is not indented, up to anything else. -/
def readLooseEntries? (hs : Handles) :
    Nat → List Token → Option (List (Node String) × List Token)
  | 0, _ => none
  | fuel + 1, .blockEntry :: ts => do
    let (item, ts) ←
      if ts.head? = some .blockEntry ∨ endsBlockNode ts.head? then some (empty .none, ts)
      else read? hs fuel .block ts
    let (items, ts) ← readLooseEntries? hs fuel ts
    some (item :: items, ts)
  | _ + 1, ts => some ([], ts)

/-- The fields of a block mapping up to its end. -/
def readFields? (hs : Handles) :
    Nat → List Token → Option (List (Node String × Node String) × List Token)
  | 0, _ => none
  | fuel + 1, .key :: ts => do
    let (key, ts) ←
      if endsBlockNode ts.head? then some (empty .none, ts) else read? hs fuel .blockField ts
    let (value, ts) ←
      match ts with
      | .value :: ts =>
        if endsBlockNode ts.head? then some (empty .none, ts) else read? hs fuel .blockField ts
      | ts => some (empty .none, ts)
    let (fields, ts) ← readFields? hs fuel ts
    some ((key, value) :: fields, ts)
  | _ + 1, .blockEnd :: ts => some ([], ts)
  | _ + 1, _ => none

/-- The items of a flow sequence up to its end. A field that stands among them is a mapping of its
own; where its key is left out, the next token goes with it. -/
def readFlowItems? (hs : Handles) :
    Nat → Bool → List Token → Option (List (Node String) × List Token)
  | 0, _, _ => none
  | fuel + 1, first, ts => do
    match ← separator? first .flowSequenceEnd ts with
    | .flowSequenceEnd :: ts => some ([], ts)
    | .key :: ts => do
      let (key, ts) ←
        if ts.head? = some .value ∨ endsFlowValue .flowSequenceEnd ts.head? then
          some (empty .none, ts.drop 1)
        else read? hs fuel .flow ts
      let (value, ts) ←
        match ts with
        | .value :: ts =>
          if endsFlowValue .flowSequenceEnd ts.head? then some (empty .none, ts)
          else read? hs fuel .flow ts
        | ts => some (empty .none, ts)
      let (items, ts) ← readFlowItems? hs fuel false ts
      some (.mapping .none [(key, value)] :: items, ts)
    | ts => do
      let (item, ts) ← read? hs fuel .flow ts
      let (items, ts) ← readFlowItems? hs fuel false ts
      some (item :: items, ts)

/-- The fields of a flow mapping up to its end. A node without a colon is a key without a value. -/
def readFlowFields? (hs : Handles) :
    Nat → Bool → List Token → Option (List (Node String × Node String) × List Token)
  | 0, _, _ => none
  | fuel + 1, first, ts => do
    match ← separator? first .flowMappingEnd ts with
    | .flowMappingEnd :: ts => some ([], ts)
    | .key :: ts => do
      let (key, ts) ←
        if endsFlowField ts.head? then some (empty .none, ts) else read? hs fuel .flow ts
      let (value, ts) ←
        match ts with
        | .value :: ts =>
          if endsFlowValue .flowMappingEnd ts.head? then some (empty .none, ts)
          else read? hs fuel .flow ts
        | ts => some (empty .none, ts)
      let (fields, ts) ← readFlowFields? hs fuel false ts
      some ((key, value) :: fields, ts)
    | ts => do
      let (key, ts) ← read? hs fuel .flow ts
      let (fields, ts) ← readFlowFields? hs fuel false ts
      some ((key, empty .none) :: fields, ts)

end

end Node

end Testnet.Yaml
