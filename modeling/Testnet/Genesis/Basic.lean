import Testnet.Genesis.Limits
import Testnet.Topology.Store

/-!
# Genesis

What a chain starts from: a time, a key, limits, and fields that are only passed on. The known
fields come first and the others by name.
-/

namespace Testnet

structure Genesis where
  initialTimestamp : String
  initialKey : String
  limits : Limits
  /-- Fields without a meaning here, in the order of their names. -/
  extra : List (String × Json.Value)
deriving Repr

namespace Genesis

open Json

def standardTimestamp : String := "2018-06-01T12:00:00.000"

/-- What holds when nothing is said. -/
def standard : Genesis := ⟨standardTimestamp, "", .standard, []⟩

def toJson (g : Genesis) : Value :=
  .object
    ([("initial_timestamp", .string g.initialTimestamp), ("initial_key", .string g.initialKey),
      ("initial_configuration", g.limits.toJson)] ++ g.extra)

def fieldNames : List String := ["initial_timestamp", "initial_key", "initial_configuration"]

/-- Arrays and objects that a kept field may have inside each other. -/
def extraDepth : Nat := 126

/-- The fields of an object that have no meaning here. -/
def extra? (fields : List (Option String × Raw)) : Option (List (String × Value)) :=
  (Raw.keptFields? extraDepth (fields.filter fun f => !f.1.any fieldNames.contains)).map
    Raw.sortFields

/-- A genesis is always read from an object. Its own fields may be missing. -/
def ofJson? : Raw → Option Genesis
  | .object fields => do
    match ← (Raw.object fields).members? fieldNames with
    | [timestamp, key, limits] =>
      return {
        initialTimestamp := ← Raw.orElse? Raw.string? standardTimestamp timestamp
        initialKey := ← Raw.orElse? Raw.string? "" key
        limits := ← Raw.orElse? Limits.ofJson? .standard limits
        extra := ← extra? fields }
    | _ => none
  | _ => none

def ofText? (s : String) : Option Genesis := do ofJson? (← Raw.ofText? s)

def load (files : FileTree) (path : Path) : Except FileFault Genesis :=
  files.readDocument .genesis ofText? path

def store (g : Genesis) (files : FileTree) (path : Path) : Except FileFault FileTree :=
  files.writeDocument .genesis path g.toJson.indented

end Genesis

end Testnet
