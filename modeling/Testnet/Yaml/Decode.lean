import Testnet.Yaml.Document

/-!
# Reading values out of YAML

A scalar is any text unless it is asked for something else. Whole numbers may be written in four
bases, but a leading zero makes a text of them. Sections are mappings whose fields stand at most
once; a section that is left empty has no fields.
-/

namespace Testnet.Yaml

def nullTag : Tag := "tag:yaml.org,2002:null".toList

def intTag : Tag := "tag:yaml.org,2002:int".toList

/-- The spellings of no value. -/
def isNull (text : String) : Bool :=
  text = "null" || text = "Null" || text = "NULL" || text = "~"

/-- The value of a digit below a base. -/
def digitBelow? (base : Nat) (c : Char) : Option Nat := do
  let d ← hexDigit? c
  if d < base then some d else none

/-- A number of at least one digit. -/
def digits? (base : Nat) (cs : List Char) : Option Nat :=
  if cs.isEmpty then none
  else (cs.mapM (digitBelow? base)).map fun ds => ds.foldl (fun n d => base * n + d) 0

/-- Several digits of which the first is a zero. -/
def isPadded (cs : List Char) : Bool :=
  cs.head? = some '0' && 1 < cs.length && cs.all Char.isDigit

/-- A number without a sign, in base ten or in the base that its first two characters say. -/
def unsigned? (cs : List Char) : Option Nat :=
  match cs with
  | '0' :: 'x' :: ds => digits? 16 ds
  | '0' :: 'o' :: ds => digits? 8 ds
  | '0' :: 'b' :: ds => digits? 2 ds
  | ds => if isPadded ds then none else digits? 10 ds

/-- A number that may have a plus sign. -/
def natText? (text : String) : Option Nat :=
  match text.toList with
  | '+' :: cs => unsigned? cs
  | cs => unsigned? cs

/-- A number that may have a sign. -/
def intText? (text : String) : Option Int :=
  match text.toList with
  | '-' :: cs => (unsigned? cs).map fun n => -(n : Int)
  | '+' :: cs => (unsigned? cs).map Int.ofNat
  | cs => (unsigned? cs).map Int.ofNat

/-- Whether a scalar may be a whole number. -/
def mayBeInt (p : Properties) (style : Style) : Bool :=
  style = .plain || (style = .literal && p.tag = some intTag)

namespace Document

def string? (d : Document) (n : Node Nat) : Option String :=
  match d.resolve n with
  | .scalar _ _ text => some text
  | _ => none

/-- A whole number below a limit. -/
def nat? (limit : Nat) (d : Document) (n : Node Nat) : Option Nat :=
  match d.resolve n with
  | .scalar p style text => do
    let v ← natText? text
    if mayBeInt p style ∧ v < limit then some v else none
  | _ => none

def int32? (d : Document) (n : Node Nat) : Option Int32 :=
  match d.resolve n with
  | .scalar p style text => do
    let v ← intText? text
    if mayBeInt p style ∧ -0x80000000 ≤ v ∧ v < 0x80000000 then some (Int32.ofInt v)
    else none
  | _ => none

/-- Whether there is a value. Only plain scalars can spell none, and under the tag for it they
must. -/
def hasValue? (d : Document) (n : Node Nat) : Option Bool :=
  match d.resolve n with
  | .scalar p style text =>
    if style ≠ .plain then some true
    else
      match p.tag with
      | some t => if t ≠ nullTag then some true else if isNull text then some false else none
      | none => some (!text.isEmpty && !isNull text)
  | _ => some true

def optional? {α : Type} (read : Document → Node Nat → Option α) (d : Document) (n : Node Nat) :
    Option (Option α) := do
  if ← d.hasValue? n then (read d n).map some else some none

/-- The fields of a mapping. An empty plain scalar is a mapping without any. -/
def fields? (d : Document) (n : Node Nat) : Option (List (Node Nat × Node Nat)) :=
  match d.resolve n with
  | .mapping _ fields => some fields
  | .scalar _ .plain text => if text.isEmpty then some [] else none
  | _ => none

/-- The fields of a section by name; none of the known ones may stand twice. -/
def section? (d : Document) (known : List String) (n : Node Nat) :
    Option (List (String × Node Nat)) := do
  let fields ← (← d.fields? n).mapM fun f => do return (← d.string? f.1, f.2)
  if known.all fun k => (fields.map (·.1)).count k ≤ 1 then some fields else none

/-- The value of a field of a section, or the standard one if it is missing. -/
def field? {α : Type} (d : Document) (read : Document → Node Nat → Option α) (standard : α)
    (fields : List (String × Node Nat)) (name : String) : Option α :=
  match fields.lookup name with
  | some n => read d n
  | none => some standard

end Document

end Testnet.Yaml
