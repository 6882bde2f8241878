import Testnet.Yaml.Layout
import Testnet.Yaml.Node

/-!
# YAML documents

A text holds one document, which may be empty. Anchors are numbered by how many names have been
anchored before, so that an anchor defined again shares its number with the next new name; of the
nodes of one number the last one is meant, wherever the alias stands.
-/

namespace Testnet.Yaml

/-- The root of a document, and the nodes that aliases may lead to, in the order in which they
begin. -/
structure Document where
  root : Node Nat
  targets : List (Nat × Node Nat)
deriving Repr

namespace Document

/-- Numbers by anchor. -/
abbrev Numbers := List (String × Nat)

/-- Something with its aliases numbered, the numbers after it, and the nodes anchored in it. -/
structure Linked (β : Type) where
  value : β
  numbers : Numbers
  targets : List (Nat × Node Nat)

def define (numbers : Numbers) (anchor : Option String) : Numbers :=
  match anchor with
  | some a => (a, numbers.length) :: numbers.filter (·.1 != a)
  | none => numbers

/-- A node as a target if it is anchored, in front of the targets within it. -/
def addTarget (numbers : Numbers) (p : Properties) (l : Linked (Node Nat)) : Linked (Node Nat) :=
  if p.anchor.isSome then { l with targets := (numbers.length, l.value) :: l.targets } else l

mutual

/-- Numbers the aliases of a node, none of which may lead nowhere. -/
def link? (numbers : Numbers) : Node String → Option (Linked (Node Nat))
  | .alias a => (numbers.lookup a).map fun n => ⟨.alias n, numbers, []⟩
  | .scalar p style text =>
    some (addTarget numbers p ⟨.scalar p style text, define numbers p.anchor, []⟩)
  | .sequence p items => do
    let l ← linkItems? (define numbers p.anchor) items
    some (addTarget numbers p ⟨.sequence p l.value, l.numbers, l.targets⟩)
  | .mapping p fields => do
    let l ← linkFields? (define numbers p.anchor) fields
    some (addTarget numbers p ⟨.mapping p l.value, l.numbers, l.targets⟩)

def linkItems? (numbers : Numbers) : List (Node String) → Option (Linked (List (Node Nat)))
  | [] => some ⟨[], numbers, []⟩
  | n :: ns => do
    let l ← link? numbers n
    let m ← linkItems? l.numbers ns
    some ⟨l.value :: m.value, m.numbers, l.targets ++ m.targets⟩

def linkFields? (numbers : Numbers) :
    List (Node String × Node String) → Option (Linked (List (Node Nat × Node Nat)))
  | [] => some ⟨[], numbers, []⟩
  | (key, value) :: rest => do
    let k ← link? numbers key
    let v ← link? k.numbers value
    let m ← linkFields? v.numbers rest
    some ⟨(k.value, v.value) :: m.value, m.numbers, k.targets ++ v.targets ++ m.targets⟩

end

/-- What the directives before a document say. -/
structure Preamble where
  versions : List (Nat × Nat)
  handles : Node.Handles
deriving Repr

namespace Preamble

def isSupported (version : Nat × Nat) : Bool := version == (1, 1) || version == (1, 2)

/-- At most one version, which must be supported, and no handle twice. -/
def isSound (p : Preamble) : Bool :=
  p.versions.length ≤ 1 && p.versions.all isSupported && (p.handles.map (·.1)).Nodup

/-- Reads directives and the tokens after them. -/
def read (p : Preamble) : List Token → Preamble × List Token
  | .version major minor :: ts => read { p with versions := p.versions ++ [(major, minor)] } ts
  | .tagHandle handle start :: ts => read { p with handles := p.handles ++ [(handle, start)] } ts
  | ts => (p, ts)

end Preamble

/-- Whether an explicit document has no content. -/
def endsContent : Option Token → Bool
  | some (.version ..) => true
  | some (.tagHandle ..) => true
  | some .documentStart => true
  | some .documentEnd => true
  | some .streamEnd => true
  | _ => false

def readNode? (handles : Node.Handles) (ts : List Token) : Option (Node String × List Token) :=
  Node.read? (handles ++ Node.standardHandles) (2 * ts.length + 2) .block ts

/-- The first document of a stream and the tokens after it. -/
def read? (ts : List Token) : Option (Node String × List Token) :=
  let (preamble, rest) := Preamble.read ⟨[], []⟩ ts
  match rest with
  | .documentStart :: rest =>
    if !preamble.isSound then none
    else if endsContent rest.head? then some (.empty .none, rest)
    else readNode? preamble.handles rest
  | _ =>
    if rest.length < ts.length then none
    else if ts.head? = some .streamEnd then some (.empty .none, ts)
    else readNode? [] ts

/-- The only document of a stream. -/
def ofTokens? (ts : List Token) : Option Document := do
  let (root, rest) ← read? ts
  if rest.dropWhile (· == .documentEnd) = [.streamEnd] then
    let l ← link? [] root
    some ⟨l.value, l.targets⟩
  else none

def ofText? (s : String) : Option Document := do ofTokens? (← tokens? s.toList)

/-- The node itself or the one its alias leads to, which is never an alias. -/
def resolve (d : Document) (n : Node Nat) : Node Nat :=
  match n with
  | .alias number => (d.targets.reverse.lookup number).getD n
  | n => n

end Document

end Testnet.Yaml
