import Testnet.Yaml.Cursor

/-!
# Plain and quoted scalars

Scalars on one or several lines. Between two pieces of text there is a gap of blanks and breaks: a
gap within a line stands for itself, a single break for a blank, and of several breaks all but the
first are kept.
-/

namespace Testnet.Yaml

/-- What lies between two pieces of a scalar. -/
structure Gap where
  blanks : List Char
  /-- The first break. It is empty if it was escaped. -/
  first : Option (List Char)
  /-- The breaks after the first. -/
  more : List Char
deriving DecidableEq, Repr

namespace Gap

def none : Gap := ⟨[], .none, []⟩

/-- A break that stands for nothing. -/
def escaped : Gap := ⟨[], some [], []⟩

def hasBreak (g : Gap) : Bool := g.first.isSome

def text (g : Gap) : List Char :=
  match g.first with
  | .none => g.blanks
  | some ['\n'] => if g.more.isEmpty then [' '] else g.more
  | some b => b ++ g.more

/-- Reads on to the next character that is no blank and no break. Tabs at the start of a line must
not stand before the given column. Every step passes a character, so there are at most `fuel`. -/
def read : Nat → Nat → Gap → Cursor → Option (Gap × Cursor)
  | 0, _, g, c => some (g, c)
  | fuel + 1, column, g, c =>
    match c.break? with
    | some (b, d) =>
      if g.hasBreak then read fuel column { g with more := g.more ++ [b] } d
      else read fuel column ⟨[], some [b], g.more⟩ d
    | .none =>
      match c.head? with
      | some ch =>
        if !isSpace ch then some (g, c)
        else if g.hasBreak then
          if ch = '\t' ∧ c.column < column then .none else read fuel column g (c.skip 1)
        else read fuel column { g with blanks := g.blanks ++ [ch] } (c.skip 1)
      | .none => some (g, c)

end Gap

def isFlowMark (c : Char) : Bool := c = ',' || c = '[' || c = ']' || c = '\x7b' || c = '\x7d'

/-- The characters of a plain scalar up to a blank, a break or a mark that ends it. In a flow
collection a colon must not stand right before a mark. -/
def plainRun (inFlow : Bool) : List Char → Option (List Char)
  | [] => some []
  | c :: cs =>
    if isSpace c || isBreak c then some []
    else if c = ':' && inFlow && cs.head?.any (fun d => isFlowMark d || d = '?') then none
    else if (c = ':' && Cursor.endsWord cs) || (inFlow && isFlowMark c) then some []
    else (plainRun inFlow cs).map (c :: ·)

/-- A scalar that has been read, and whether breaks come after it. -/
structure PlainText where
  text : List Char
  breaksAfter : Bool
  cursor : Cursor
deriving Repr

/-- Reads a plain scalar on from a gap. Outside flow collections it ends at a line that is indented
by less than `column`. -/
def plainFrom (inFlow : Bool) (column : Nat) :
    Nat → List Char → Gap → Cursor → Option PlainText
  | 0, text, g, c => some ⟨text, g.hasBreak, c⟩
  | fuel + 1, text, g, c =>
    if c.atAnyDocumentMark || c.head? = some '#' then some ⟨text, g.hasBreak, c⟩
    else do
      let run ← plainRun inFlow c.rest
      let text := if run.isEmpty then text else text ++ g.text ++ run
      let g := if run.isEmpty then g else Gap.none
      let c := c.skip run.length
      if c.atSpace || c.atBreak then
        let (g, c) ← Gap.read (c.rest.length + 1) column g c
        if !inFlow && c.column < column then some ⟨text, g.hasBreak, c⟩
        else plainFrom inFlow column fuel text g c
      else some ⟨text, g.hasBreak, c⟩

def plain? (inFlow : Bool) (column : Nat) (c : Cursor) : Option PlainText :=
  plainFrom inFlow column (c.rest.length + 1) [] .none c

/-- The text of a single quoted piece, in which two quotes stand for one, and how many characters it
takes. -/
def singleRun : List Char → List Char × Nat
  | [] => ([], 0)
  | '\'' :: '\'' :: cs =>
    let (text, n) := singleRun cs
    ('\'' :: text, n + 2)
  | c :: cs =>
    if c = '\'' || isSpace c || isBreak c then ([], 0)
    else
      let (text, n) := singleRun cs
      (c :: text, n + 1)

/-- Escapes that stand for one character. -/
def namedEscape? (c : Char) : Option Char :=
  match c with
  | '0' => some '\x00'
  | 'a' => some '\x07'
  | 'b' => some '\x08'
  | 't' => some '\t'
  | '\t' => some '\t'
  | 'n' => some '\n'
  | 'v' => some '\x0b'
  | 'f' => some '\x0c'
  | 'r' => some '\r'
  | 'e' => some '\x1b'
  | ' ' => some ' '
  | '"' => some '"'
  | '/' => some '/'
  | '\\' => some '\\'
  | 'N' => some (Char.ofNat 0x85)
  | '_' => some (Char.ofNat 0xA0)
  | 'L' => some (Char.ofNat 0x2028)
  | 'P' => some (Char.ofNat 0x2029)
  | _ => none

/-- Digits of base sixteen after an escape that is a code point. -/
def codeLength? (c : Char) : Option Nat :=
  match c with
  | 'x' => some 2
  | 'u' => some 4
  | 'U' => some 8
  | _ => none

def hexDigit? (c : Char) : Option Nat :=
  if c.isDigit then some (c.toNat - '0'.toNat)
  else if 'a' ≤ c ∧ c ≤ 'f' then some (c.toNat - 'a'.toNat + 10)
  else if 'A' ≤ c ∧ c ≤ 'F' then some (c.toNat - 'A'.toNat + 10)
  else none

/-- The code point of exactly `n` digits. -/
def codePoint? (n : Nat) (cs : List Char) : Option Char := do
  let ds ← (cs.take n).mapM hexDigit?
  let code := ds.foldl (fun v d => 16 * v + d) 0
  if ds.length = n ∧ (code < 0xD800 ∨ (0xDFFF < code ∧ code ≤ 0x10FFFF)) then
    some (Char.ofNat code)
  else none

/-- The text of a double quoted piece and how many characters it takes. It also ends before an
escaped break. -/
def doubleRun : Nat → List Char → Option (List Char × Nat)
  | 0, _ => some ([], 0)
  | _, [] => some ([], 0)
  | fuel + 1, c :: cs =>
    if c = '"' || isSpace c || isBreak c then some ([], 0)
    else if c ≠ '\\' then (doubleRun fuel cs).map fun (text, n) => (c :: text, n + 1)
    else
      match cs with
      | [] => none
      | e :: ds =>
        if isBreak e then some ([], 0)
        else
          match namedEscape? e, codeLength? e with
          | some d, _ => (doubleRun fuel ds).map fun (text, n) => (d :: text, n + 2)
          | none, some length => do
            let d ← codePoint? length ds
            (doubleRun fuel (ds.drop length)).map fun (text, n) => (d :: text, n + 2 + length)
          | none, none => none

inductive Quote where
  | single
  | double
deriving DecidableEq, Repr

def Quote.mark : Quote → Char
  | .single => '\''
  | .double => '"'

/-- Reads a quoted scalar on to its closing quote. A document must not end within it. -/
def quotedFrom (q : Quote) : Nat → List Char → Cursor → Option (List Char × Cursor)
  | 0, _, _ => none
  | fuel + 1, text, c =>
    if c.atAnyDocumentMark || c.rest.isEmpty then none
    else do
      let (piece, n) ←
        match q with
        | .single => some (singleRun c.rest)
        | .double => doubleRun c.rest.length c.rest
      let text := text ++ piece
      let c := c.skip n
      if c.head? = some q.mark then some (text, c.skip 1)
      else
        let escapedBreak := q = .double && c.head? = some '\\'
        let (g, c) ←
          if escapedBreak then Gap.read (c.rest.length + 1) 0 .escaped (c.skip 1).skipBreak
          else Gap.read (c.rest.length + 1) 0 .none c
        quotedFrom q fuel (text ++ g.text) c

/-- A quoted scalar whose opening quote has been passed. -/
def quoted? (q : Quote) (c : Cursor) : Option (List Char × Cursor) :=
  quotedFrom q (c.rest.length + 1) [] c

end Testnet.Yaml
