import Testnet.Binary64.Basic

/-!
# JSON values

Values as they are written. The fields of an object keep their order.
-/

namespace Testnet.Json

/-- A whole number stays one; every other number is a double with a sign of its own. -/
inductive Number where
  | whole (n : Int)
  | double (negative : Bool) (magnitude : Binary64.Magnitude)
deriving DecidableEq, Repr

inductive Value where
  | null
  | bool (b : Bool)
  | number (n : Number)
  | string (s : String)
  | array (items : List Value)
  | object (fields : List (String × Value))
deriving Repr

namespace Value

def ofNat (n : Nat) : Value := number (.whole n)

def ofInt (n : Int) : Value := number (.whole n)

def ofStrings (ss : List String) : Value := array (ss.map string)

/-- A field that is left out when there is nothing to say. -/
def optional (key : String) (v : Option Value) : List (String × Value) :=
  match v with
  | some v => [(key, v)]
  | none => []

end Value

end Testnet.Json
