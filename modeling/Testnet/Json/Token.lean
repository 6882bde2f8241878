import Testnet.Json.Literal

/-!
# JSON tokens

A text is cut into tokens character by character. Blanks, numbers and words end where another kind
of character begins; a string ends at its closing quote. A string with half of a surrogate pair is
a token without a text, since it may still stand where nothing is read from it.
-/

namespace Testnet.Json

inductive Token where
  | openBracket
  | closeBracket
  | openBrace
  | closeBrace
  | colon
  | comma
  | string (s : Option String)
  | number (l : Literal)
  | null
  | bool (b : Bool)
deriving DecidableEq, Repr

/-- The part of a string that has been read. -/
structure PartialString where
  /-- Last character first. -/
  chars : List Char
  /-- The first half of a pair of surrogates, waiting for the second. -/
  pending : Option Nat
  /-- Whether every surrogate so far has its other half. -/
  paired : Bool
deriving DecidableEq, Repr

namespace PartialString

def empty : PartialString := ⟨[], none, true⟩

def push (p : PartialString) (c : Char) : PartialString :=
  ⟨c :: p.chars, none, p.paired && p.pending.isNone⟩

def isHigh (n : Nat) : Bool := 0xD800 ≤ n && n < 0xDC00

def isLow (n : Nat) : Bool := 0xDC00 ≤ n && n < 0xE000

/-- Adds a code unit of 16 bits. -/
def pushUnit (p : PartialString) (n : Nat) : PartialString :=
  match p.pending with
  | some high =>
    if isLow n then
      ⟨Char.ofNat (0x10000 + (high - 0xD800) * 0x400 + (n - 0xDC00)) :: p.chars, none, p.paired⟩
    else { p with pending := none, paired := false }
  | none =>
    if isHigh n then { p with pending := some n }
    else if isLow n then { p with paired := false }
    else p.push (Char.ofNat n)

def text? (p : PartialString) : Option String :=
  if p.paired && p.pending.isNone then some (String.ofList p.chars.reverse) else none

end PartialString

/-- What the next character belongs to. -/
inductive Mode where
  | gap
  | string (p : PartialString)
  | escape (p : PartialString)
  /-- Digits of a code unit are still to come. -/
  | unit (p : PartialString) (digits : Nat) (value : Nat)
  /-- Last character first. -/
  | number (chars : List Char)
  | word (chars : List Char)
deriving DecidableEq, Repr

def isGap (c : Char) : Bool := c = ' ' || c = '\n' || c = '\t' || c = '\r'

def isNumberChar (c : Char) : Bool :=
  c.isDigit || c = '-' || c = '+' || c = '.' || c = 'e' || c = 'E'

def punctuation? (c : Char) : Option Token :=
  if c = '[' then some .openBracket
  else if c = ']' then some .closeBracket
  else if c = '\x7b' then some .openBrace
  else if c = '\x7d' then some .closeBrace
  else if c = ':' then some .colon
  else if c = ',' then some .comma
  else none

/-- The character of a short escape. -/
def shortEscape? (c : Char) : Option Char :=
  if c = '"' || c = '\\' || c = '/' then some c
  else if c = 'b' then some '\x08'
  else if c = 'f' then some '\x0c'
  else if c = 'n' then some '\n'
  else if c = 'r' then some '\r'
  else if c = 't' then some '\t'
  else none

def hexValue? (c : Char) : Option Nat :=
  if c.isDigit then some (c.toNat - '0'.toNat)
  else if 'a' ≤ c ∧ c ≤ 'f' then some (c.toNat - 'a'.toNat + 10)
  else if 'A' ≤ c ∧ c ≤ 'F' then some (c.toNat - 'A'.toNat + 10)
  else none

/-- The word that a run of letters is; the last letter comes first. -/
def word? (chars : List Char) : Option Token :=
  match String.ofList chars.reverse with
  | "null" => some .null
  | "true" => some (.bool true)
  | "false" => some (.bool false)
  | _ => none

/-- The tokens of a text so far, last one first. -/
structure Lexer where
  mode : Mode
  done : List Token
deriving DecidableEq, Repr

namespace Lexer

def start : Lexer := ⟨.gap, []⟩

/-- A character between tokens. -/
def begin (done : List Token) (c : Char) : Option Lexer :=
  if isGap c then some ⟨.gap, done⟩
  else if c = '"' then some ⟨.string .empty, done⟩
  else if c.isDigit || c = '-' then some ⟨.number [c], done⟩
  else if c.isAlpha then some ⟨.word [c], done⟩
  else (punctuation? c).map fun t => ⟨.gap, t :: done⟩

/-- The run that ends before the next character, if one was being read. -/
def close? : Lexer → Option (List Token)
  | ⟨.gap, done⟩ => some done
  | ⟨.number chars, done⟩ => (Literal.ofList? chars.reverse).map fun l => .number l :: done
  | ⟨.word chars, done⟩ => (word? chars).map (· :: done)
  | _ => none

def step (l : Lexer) (c : Char) : Option Lexer :=
  match l.mode with
  | .gap => begin l.done c
  | .string p =>
    if c = '"' then some ⟨.gap, .string p.text? :: l.done⟩
    else if c = '\\' then some ⟨.escape p, l.done⟩
    else if c.toNat < 32 then none
    else some ⟨.string (p.push c), l.done⟩
  | .escape p =>
    if c = 'u' then some ⟨.unit p 4 0, l.done⟩
    else (shortEscape? c).map fun d => ⟨.string (p.push d), l.done⟩
  | .unit p digits value =>
    (hexValue? c).map fun d =>
      if digits ≤ 1 then ⟨.string (p.pushUnit (16 * value + d)), l.done⟩
      else ⟨.unit p (digits - 1) (16 * value + d), l.done⟩
  | .number chars =>
    if isNumberChar c then some { l with mode := .number (c :: chars) }
    else l.close?.bind (begin · c)
  | .word chars =>
    if c.isAlpha then some { l with mode := .word (c :: chars) }
    else l.close?.bind (begin · c)

end Lexer

/-- The tokens of a text. -/
def tokens? (cs : List Char) : Option (List Token) := do
  let l ← cs.foldlM Lexer.step Lexer.start
  return (← l.close?).reverse

end Testnet.Json
