import Testnet.Binary64.Shortest
import Testnet.Json.Value

/-!
# Written JSON

The two ways a value is written: compact, without any blanks, and indented, with every item and
field on a line of its own. Strings are written as they are but for quotes, backslashes and control
characters.
-/

namespace Testnet.Json

/-- Control characters without a short escape are written as four digits of base sixteen. -/
def writeChar (c : Char) : List Char :=
  if c = '"' then ['\\', '"']
  else if c = '\\' then ['\\', '\\']
  else if c = '\x08' then ['\\', 'b']
  else if c = '\x0c' then ['\\', 'f']
  else if c = '\n' then ['\\', 'n']
  else if c = '\r' then ['\\', 'r']
  else if c = '\t' then ['\\', 't']
  else if c.toNat < 32 then
    ['\\', 'u', '0', '0', Nat.digitChar (c.toNat / 16), Nat.digitChar (c.toNat % 16)]
  else [c]

def writeString (s : String) : List Char := '"' :: (s.toList.flatMap writeChar ++ ['"'])

def writeNat (n : Nat) : List Char := Nat.toDigits 10 n

def writeInt (n : Int) : List Char :=
  if n < 0 then '-' :: writeNat n.natAbs else writeNat n.natAbs

/-- The last point at which a decimal is written without an exponent. -/
def lastPlainPoint : Int := 16

/-- The first such point. -/
def firstPlainPoint : Int := -4

/-- A decimal is written in full while its point lies close by, and then always with a fraction;
otherwise with one digit before the point and an exponent. -/
def writeDecimal (d : Binary64.Decimal) : List Char :=
  let size : Int := d.digits.length
  if firstPlainPoint ≤ d.point ∧ d.point ≤ 0 then
    ['0', '.'] ++ List.replicate (-d.point).toNat '0' ++ d.digits
  else if 0 < d.point ∧ d.point ≤ lastPlainPoint then
    if size ≤ d.point then d.digits ++ List.replicate (d.point - size).toNat '0' ++ ['.', '0']
    else d.digits.take d.point.toNat ++ '.' :: d.digits.drop d.point.toNat
  else
    let mantissa :=
      match d.digits with
      | first :: second :: rest => first :: '.' :: second :: rest
      | digits => digits
    let power := d.point - 1
    mantissa ++ 'e' :: (if power < 0 then '-' else '+') :: writeNat power.natAbs

def writeMagnitude (x : Binary64.Magnitude) : List Char :=
  if x.isZero then ['0', '.', '0'] else writeDecimal x.shortest

def writeNumber : Number → List Char
  | .whole n => writeInt n
  | .double negative x => if negative then '-' :: writeMagnitude x else writeMagnitude x

def writeBool (b : Bool) : List Char :=
  if b then ['t', 'r', 'u', 'e'] else ['f', 'a', 'l', 's', 'e']

mutual

def compactList : Value → List Char
  | .null => ['n', 'u', 'l', 'l']
  | .bool b => writeBool b
  | .number n => writeNumber n
  | .string s => writeString s
  | .array [] => ['[', ']']
  | .array (v :: vs) => '[' :: (compactList v ++ compactItems vs ++ [']'])
  | .object [] => ['\x7b', '\x7d']
  | .object ((k, v) :: fields) =>
    '\x7b' :: (writeString k ++ ':' :: compactList v ++ compactFields fields ++ ['\x7d'])

/-- The items after the first, each after a comma. -/
def compactItems : List Value → List Char
  | [] => []
  | v :: vs => ',' :: (compactList v ++ compactItems vs)

def compactFields : List (String × Value) → List Char
  | [] => []
  | (k, v) :: fields => ',' :: (writeString k ++ ':' :: compactList v ++ compactFields fields)

end

/-- A new line at a depth of indentation. -/
def newLine (depth : Nat) : List Char := '\n' :: List.replicate (2 * depth) ' '

mutual

/-- A value whose own line is indented by `depth` steps of two blanks. -/
def indentedList (depth : Nat) : Value → List Char
  | .null => ['n', 'u', 'l', 'l']
  | .bool b => writeBool b
  | .number n => writeNumber n
  | .string s => writeString s
  | .array [] => ['[', ']']
  | .array (v :: vs) =>
    '[' :: (newLine (depth + 1) ++ indentedList (depth + 1) v ++ indentedItems depth vs ++
      newLine depth ++ [']'])
  | .object [] => ['\x7b', '\x7d']
  | .object ((k, v) :: fields) =>
    '\x7b' :: (newLine (depth + 1) ++ writeString k ++ ':' :: ' ' :: indentedList (depth + 1) v ++
      indentedFields depth fields ++ newLine depth ++ ['\x7d'])

/-- The items after the first of an array at a depth. -/
def indentedItems (depth : Nat) : List Value → List Char
  | [] => []
  | v :: vs =>
    ',' :: (newLine (depth + 1) ++ indentedList (depth + 1) v ++ indentedItems depth vs)

def indentedFields (depth : Nat) : List (String × Value) → List Char
  | [] => []
  | (k, v) :: fields =>
    ',' :: (newLine (depth + 1) ++ writeString k ++ ':' :: ' ' :: indentedList (depth + 1) v ++
      indentedFields depth fields)

end

namespace Value

def compact (v : Value) : String := String.ofList (compactList v)

def indented (v : Value) : String := String.ofList (indentedList 0 v)

end Value

end Testnet.Json
