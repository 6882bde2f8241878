import Testnet.Json.Token

/-!
# Raw JSON

What a text says before anything is asked of it: literals are not yet numbers, strings may be
without a text, and fields of the same name all stand. Tokens are read with a stack of the arrays
and objects that are still open, so no depth is too great.
-/

namespace Testnet.Json

inductive Raw where
  | null
  | bool (b : Bool)
  | number (l : Literal)
  | string (s : Option String)
  | array (items : List Raw)
  | object (fields : List (Option String × Raw))
deriving Repr

/-- An open array or object; what was read last comes first. -/
inductive Frame where
  | array (items : List Raw)
  | object (fields : List (Option String × Raw)) (key : Option String)
deriving Repr

/-- What has been read, and so what may come next. -/
inductive Reader where
  /-- A value must come. -/
  | value (stack : List Frame)
  | openArray (stack : List Frame)
  | openObject (stack : List Frame)
  /-- The name of another field must come. -/
  | key (fields : List (Option String × Raw)) (stack : List Frame)
  | colon (fields : List (Option String × Raw)) (key : Option String) (stack : List Frame)
  /-- A value is complete. -/
  | after (v : Raw) (stack : List Frame)
deriving Repr

namespace Reader

def start : Reader := value []

/-- A token that begins a value. -/
def beginValue (stack : List Frame) : Token → Option Reader
  | .null => some (after .null stack)
  | .bool b => some (after (.bool b) stack)
  | .number l => some (after (.number l) stack)
  | .string s => some (after (.string s) stack)
  | .openBracket => some (openArray stack)
  | .openBrace => some (openObject stack)
  | _ => none

def beginField (fields : List (Option String × Raw)) (stack : List Frame) :
    Token → Option Reader
  | .string s => some (colon fields s stack)
  | _ => none

def step : Reader → Token → Option Reader
  | value stack, t => beginValue stack t
  | openArray stack, .closeBracket => some (after (.array []) stack)
  | openArray stack, t => beginValue (.array [] :: stack) t
  | openObject stack, .closeBrace => some (after (.object []) stack)
  | openObject stack, t => beginField [] stack t
  | key fields stack, t => beginField fields stack t
  | colon fields k stack, .colon => some (value (.object fields k :: stack))
  | after v (.array items :: stack), .comma => some (value (.array (v :: items) :: stack))
  | after v (.array items :: stack), .closeBracket =>
    some (after (.array (v :: items).reverse) stack)
  | after v (.object fields k :: stack), .comma => some (key ((k, v) :: fields) stack)
  | after v (.object fields k :: stack), .closeBrace =>
    some (after (.object ((k, v) :: fields).reverse) stack)
  | _, _ => none

/-- The value, if it is complete and nothing is open around it. -/
def result? : Reader → Option Raw
  | after v [] => some v
  | _ => none

end Reader

namespace Raw

def ofTokens? (ts : List Token) : Option Raw := do
  (← ts.foldlM Reader.step Reader.start).result?

def ofText? (s : String) : Option Raw := do ofTokens? (← tokens? s.toList)

end Raw

end Testnet.Json
