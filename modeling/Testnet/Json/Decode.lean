import Testnet.Json.Raw

/-!
# Reading values out of raw JSON

Each reader asks for one kind of value. A structure is read from an object, in which fields of other
names are ignored and its own stand at most once, or from an array with its fields in order. A value
that is kept as it is must be sound throughout and not too deep.
-/

namespace Testnet.Json.Raw

def string? : Raw → Option String
  | string s => s
  | _ => none

def bool? : Raw → Option Bool
  | bool b => some b
  | _ => none

/-- A whole number below a limit, written without fraction and exponent. -/
def nat? (limit : Nat) : Raw → Option Nat
  | number l => do
    let n ← l.integer?
    if 0 ≤ n ∧ n < (limit : Int) then some n.toNat else none
  | _ => none

def int32? : Raw → Option Int32
  | number l => do
    let n ← l.integer?
    if -0x80000000 ≤ n ∧ n < 0x80000000 then some (Int32.ofInt n) else none
  | _ => none

def port? (r : Raw) : Option UInt16 := (r.nat? UInt16.size).map UInt16.ofNat

/-- Null stands for no value. -/
def optional? {α : Type} (f : Raw → Option α) : Raw → Option (Option α)
  | null => some none
  | r => (f r).map some

def list? {α : Type} (f : Raw → Option α) : Raw → Option (List α)
  | array items => items.mapM f
  | _ => none

/-- Two values in an array. -/
def pair? {α β : Type} (f : Raw → Option α) (g : Raw → Option β) : Raw → Option (α × β)
  | array [a, b] => do return (← f a, ← g b)
  | _ => none

/-- The names of the fields, if all have a text. -/
def fieldNames? (fields : List (Option String × Raw)) : Option (List String) :=
  fields.mapM (·.1)

/-- The values of the fields of the given names, in their order. -/
def members? (names : List String) : Raw → Option (List (Option Raw))
  | object fields => do
    let found ← fieldNames? fields
    if names.all fun n => found.count n ≤ 1 then some (names.map fun n => fields.lookup (some n))
    else none
  | array items =>
    if items.length ≤ names.length then
      some (items.map some ++ List.replicate (names.length - items.length) none)
    else none
  | _ => none

/-- The value of a field that may be missing. -/
def orElse? {α : Type} (f : Raw → Option α) (standard : α) : Option Raw → Option α
  | none => some standard
  | some r => f r

/-- The value of a field that must be there. -/
def required? {α : Type} (f : Raw → Option α) : Option Raw → Option α
  | none => none
  | some r => f r

/-- Adds a field in the order of the names, in place of one of the same name. -/
def putField {α : Type} (key : String) (v : α) : List (String × α) → List (String × α)
  | [] => [(key, v)]
  | (k, w) :: rest =>
    if key = k then (k, v) :: rest
    else if key < k then (key, v) :: (k, w) :: rest
    else (k, w) :: putField key v rest

/-- Fields by name; of several of one name the last stands. -/
def sortFields {α : Type} (fields : List (String × α)) : List (String × α) :=
  fields.foldl (fun sorted f => putField f.1 f.2 sorted) []

mutual

/-- A value that is kept, of arrays and objects at most `depth` deep. -/
def kept? (depth : Nat) : Raw → Option Value
  | null => some .null
  | bool b => some (.bool b)
  | number l => l.number?.map .number
  | string s => s.map .string
  | array items =>
    match depth with
    | 0 => none
    | d + 1 => (keptItems? d items).map .array
  | object fields =>
    match depth with
    | 0 => none
    | d + 1 => (keptFields? d fields).map fun fs => .object (sortFields fs)

def keptItems? (depth : Nat) : List Raw → Option (List Value)
  | [] => some []
  | r :: rs => do return (← kept? depth r) :: (← keptItems? depth rs)

def keptFields? (depth : Nat) : List (Option String × Raw) → Option (List (String × Value))
  | [] => some []
  | (k, r) :: rest => do return (← k, ← kept? depth r) :: (← keptFields? depth rest)

end

end Testnet.Json.Raw
