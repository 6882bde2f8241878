import Testnet.Text.Unprintable

/-!
# Quoted text

How a name or a path stands in a log record: between double quotes, with a backslash before a quote
or a backslash, short escapes for four control characters, and the code point in braces for every
other character that cannot be seen.
-/

namespace Testnet.Text

/-- The digits of a number in base sixteen, in lower case and without leading zeros. -/
def hexDigits (n : Nat) : List Char := Nat.toDigits 16 n

/-- How one character stands between the quotes. -/
def escape (c : Char) : List Char :=
  if c = '"' then ['\\', '"']
  else if c = '\\' then ['\\', '\\']
  else if c = '\n' then ['\\', 'n']
  else if c = '\r' then ['\\', 'r']
  else if c = '\t' then ['\\', 't']
  else if c.toNat = 0 then ['\\', '0']
  else if isHidden c then ['\\', 'u', '\x7b'] ++ hexDigits c.toNat ++ ['\x7d']
  else [c]

def quoteList (cs : List Char) : List Char := '"' :: (cs.flatMap escape ++ ['"'])

/-- The text between double quotes. -/
def quote (s : String) : String := String.ofList (quoteList s.toList)

/-- Quoted texts in brackets, separated by commas. -/
def quoteAll (ss : List String) : String :=
  "[" ++ String.intercalate ", " (ss.map quote) ++ "]"

end Testnet.Text
