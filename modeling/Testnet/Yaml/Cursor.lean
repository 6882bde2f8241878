/-!
# Cursors over YAML text

A cursor stands in a text and knows how far it has come: characters, lines, and columns of the
current line. A line ends at a line feed, a carriage return or both, or at one of three other
characters; the first four ways are all read as a line feed.
-/

namespace Testnet.Yaml

/-- Characters that may stand in a text at all. -/
def isAllowed (c : Char) : Bool :=
  let n := c.toNat
  n == 9 || n == 10 || n == 13 || (0x20 ≤ n && n ≤ 0x7E) || n == 0x85 ||
    (0xA0 ≤ n && n ≤ 0xD7FF) || (0xE000 ≤ n && n ≤ 0xFFFD) || 0x10000 ≤ n

def isSpace (c : Char) : Bool := c = ' ' || c = '\t'

def isBreak (c : Char) : Bool :=
  let n := c.toNat
  n == 10 || n == 13 || n == 0x85 || n == 0x2028 || n == 0x2029

/-- Letters, digits, dashes and underscores of ASCII. -/
def isWordChar (c : Char) : Bool := c.isAlphanum || c = '-' || c = '_'

structure Cursor where
  rest : List Char
  index : Nat
  line : Nat
  column : Nat
deriving DecidableEq, Repr

namespace Cursor

def start (text : List Char) : Cursor := ⟨text, 0, 0, 0⟩

def head? (c : Cursor) : Option Char := c.rest.head?

/-- Whether a property holds of the next character. -/
def at? (c : Cursor) (p : Char → Bool) : Bool := c.head?.any p

def atSpace (c : Cursor) : Bool := c.at? isSpace

def atBreak (c : Cursor) : Bool := c.at? isBreak

/-- At the end of the line or of the text. -/
def atLineEnd (c : Cursor) : Bool := c.rest.isEmpty || c.atBreak

/-- Whether a text holds no character other than a blank, a break or the end at its front. -/
def endsWord (cs : List Char) : Bool :=
  match cs with
  | [] => true
  | c :: _ => isSpace c || isBreak c

/-- Passes characters that do not end the line. -/
def skip (c : Cursor) (n : Nat) : Cursor :=
  { c with rest := c.rest.drop n, index := c.index + n, column := c.column + n }

/-- Passes the characters with a property, none of which may end the line. -/
def skipWhile (c : Cursor) (p : Char → Bool) : Cursor := c.skip (c.rest.takeWhile p).length

def taken (c : Cursor) (p : Char → Bool) : List Char := c.rest.takeWhile p

def nextLine (c : Cursor) (n : Nat) (rest : List Char) : Cursor :=
  ⟨rest, c.index + n, c.line + 1, 0⟩

/-- The break at a cursor as it is read, and the cursor on the next line. -/
def break? (c : Cursor) : Option (Char × Cursor) :=
  match c.rest with
  | '\r' :: '\n' :: cs => some ('\n', c.nextLine 2 cs)
  | d :: cs =>
    if d.toNat = 0x2028 ∨ d.toNat = 0x2029 then some (d, c.nextLine 1 cs)
    else if isBreak d then some ('\n', c.nextLine 1 cs)
    else none
  | [] => none

/-- Passes the break at a cursor, if there is one. -/
def skipBreak (c : Cursor) : Cursor := (c.break?.map (·.2)).getD c

/-- Passes blanks and a comment up to the end of the line, where it must then stand. -/
def skipToLineEnd? (c : Cursor) : Option Cursor :=
  let d := c.skipWhile isSpace
  let e := if d.head? = some '#' then d.skipWhile (!isBreak ·) else d
  if e.atLineEnd then some e else none

/-- At the start of a line with three dashes or three dots that stand alone. -/
def atDocumentMark (c : Cursor) (mark : Char) : Bool :=
  c.column == 0 && c.rest.take 3 == [mark, mark, mark] && endsWord (c.rest.drop 3)

def atAnyDocumentMark (c : Cursor) : Bool := c.atDocumentMark '-' || c.atDocumentMark '.'

end Cursor

end Testnet.Yaml
