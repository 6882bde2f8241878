import Testnet.Yaml.Block
import Testnet.Yaml.Tag

/-!
# Layout

The tokens of a YAML text. Blocks begin and end with the indentation, and a key is only known for
one when the colon after it is found: until then the place where it began is remembered as a
candidate, one for each flow collection that is open and one outside. A candidate does not last
beyond its line or 1024 characters, and where a key must stand it may not be given up.
-/

namespace Testnet.Yaml

/-- A place that turns out to be the start of a key if a colon comes soon. -/
structure Candidate where
  /-- Tokens before the key. -/
  position : Nat
  index : Nat
  line : Nat
  column : Nat
  required : Bool
deriving DecidableEq, Repr

structure Lexer where
  cursor : Cursor
  tokens : Array Token
  /-- Columns of the open blocks, innermost first. -/
  indents : List Nat
  /-- The candidates of the open flow collections, innermost first, and the one outside. -/
  candidates : List (Option Candidate)
  /-- Whether a key may begin here. -/
  keyAllowed : Bool
  finished : Bool
deriving Repr

namespace Lexer

def start (text : List Char) : Lexer := ⟨.start text, #[], [], [none], true, false⟩

def inFlow (l : Lexer) : Bool := 1 < l.candidates.length

/-- The column of the innermost block, or one below all columns. -/
def indent (l : Lexer) : Int := (l.indents.head?.map Int.ofNat).getD (-1)

def push (l : Lexer) (t : Token) : Lexer := { l with tokens := l.tokens.push t }

/-- Passes characters of a line and adds the token they are. -/
def take (l : Lexer) (n : Nat) (t : Token) : Lexer :=
  { l.push t with cursor := l.cursor.skip n }

def allowKey (l : Lexer) (allowed : Bool) : Lexer := { l with keyAllowed := allowed }

def insertToken (l : Lexer) (position : Nat) (t : Token) : Lexer :=
  { l with tokens := l.tokens.insertIdxIfInBounds position t }

/-- How long a key may be. -/
def keyLength : Nat := 1024

def isStale (c : Cursor) (k : Candidate) : Bool :=
  k.line < c.line || k.index + keyLength < c.index

/-- Gives a candidate up, if it may be. -/
def giveUp? : Option Candidate → Option (Option Candidate)
  | some k => if k.required then none else some none
  | none => some none

/-- Gives up the candidates that the cursor has left behind. -/
def dropStale? (l : Lexer) : Option Lexer := do
  let candidates ← l.candidates.mapM fun k =>
    if k.any (isStale l.cursor) then giveUp? k else some k
  some { l with candidates := candidates }

/-- Gives up the innermost candidate. -/
def dropCandidate? (l : Lexer) : Option Lexer :=
  match l.candidates with
  | k :: rest => do return { l with candidates := (← giveUp? k) :: rest }
  | [] => some l

/-- Remembers this place as a candidate if a key may begin here. At the column of a block a key must
begin. -/
def saveCandidate? (l : Lexer) : Option Lexer :=
  if !l.keyAllowed then some l
  else do
    let l ← l.dropCandidate?
    let k : Candidate :=
      { position := l.tokens.size
        index := l.cursor.index
        line := l.cursor.line
        column := l.cursor.column
        required := !l.inFlow && l.indent = l.cursor.column }
    some { l with candidates := some k :: l.candidates.drop 1 }

/-- Closes the blocks to the right of a column. -/
def closeBlocks (column : Int) : Nat → Lexer → Lexer
  | 0, l => l
  | fuel + 1, l =>
    if column < l.indent then
      closeBlocks column fuel { l.push .blockEnd with indents := l.indents.drop 1 }
    else l

/-- Outside flow collections, blocks end where the text is indented by less. -/
def unindent (l : Lexer) (column : Int) : Lexer :=
  if l.inFlow then l else closeBlocks column l.indents.length l

/-- Opens a block before the token at a position unless one is open at the column. -/
def openBlock (l : Lexer) (column position : Nat) (t : Token) : Lexer :=
  if !l.inFlow ∧ l.indent < column then
    { l.insertToken position t with indents := column :: l.indents }
  else l

/-- Passes blanks, comments and empty lines. A tab does not count as a blank where a key may begin
outside flow collections, and a byte order mark is passed at the start of a line. -/
def skipGap : Nat → Lexer → Lexer
  | 0, l => l
  | fuel + 1, l =>
    let c := l.cursor
    let c := if c.column = 0 ∧ c.at? (·.toNat == 0xFEFF) then c.skip 1 else c
    let tabs := l.inFlow || !l.keyAllowed
    let c := c.skipWhile fun ch => ch = ' ' || (tabs && ch = '\t')
    let c := if c.head? = some '#' then c.skipWhile (!isBreak ·) else c
    match c.break? with
    | some (_, d) =>
      skipGap fuel { l with cursor := d, keyAllowed := l.keyAllowed || !l.inFlow }
    | none => { l with cursor := c }

/-- Ends all blocks before something that stands outside them. -/
def leaveBlocks? (l : Lexer) : Option Lexer := do
  return (← (l.unindent (-1)).dropCandidate?).allowKey false

def finish? (l : Lexer) : Option Lexer := do
  return { (← l.leaveBlocks?).push .streamEnd with finished := true }

def takeDirective? (l : Lexer) : Option Lexer := do
  let l ← l.leaveBlocks?
  let (t, c) ← directive? (l.cursor.skip 1)
  some { l.push t with cursor := c }

def takeDocumentMark? (l : Lexer) (t : Token) : Option Lexer := do
  return (← l.leaveBlocks?).take 3 t

def openFlow? (l : Lexer) (t : Token) : Option Lexer := do
  let l ← l.saveCandidate?
  some { (l.allowKey true).take 1 t with candidates := none :: l.candidates }

def closeFlow? (l : Lexer) (t : Token) : Option Lexer := do
  let l ← l.dropCandidate?
  let candidates := if l.inFlow then l.candidates.drop 1 else l.candidates
  some { (l.allowKey false).take 1 t with candidates := candidates }

def takeFlowEntry? (l : Lexer) : Option Lexer := do
  return ((← l.dropCandidate?).allowKey true).take 1 .flowEntry

/-- Something that only stands where a key may begin, and then begins a block of its own. -/
def enterBlock? (l : Lexer) (t : Token) : Option Lexer :=
  if l.inFlow then some l
  else if l.keyAllowed then some (l.openBlock l.cursor.column l.tokens.size t)
  else none

def takeBlockEntry? (l : Lexer) : Option Lexer := do
  let l ← l.enterBlock? .blockSequenceStart
  return ((← l.dropCandidate?).allowKey true).take 1 .blockEntry

def takeKey? (l : Lexer) : Option Lexer := do
  let l ← (← l.enterBlock? .blockMappingStart).dropCandidate?
  return (l.allowKey (!l.inFlow)).take 1 .key

/-- A colon makes the candidate a key; without one it is the value of a key that stands alone. -/
def takeValue? (l : Lexer) : Option Lexer :=
  match l.candidates with
  | some k :: rest =>
    let l := (l.insertToken k.position .key).openBlock k.column k.position .blockMappingStart
    some (({ l with candidates := none :: rest }.allowKey false).take 1 .value)
  | _ => do
    let l ← l.enterBlock? .blockMappingStart
    some ((l.allowKey (!l.inFlow)).take 1 .value)

/-- Something that may be a key or begin one. -/
def takeNode? (l : Lexer) (read : Cursor → Option (Token × Cursor)) : Option Lexer := do
  let l ← l.saveCandidate?
  let (t, c) ← read l.cursor
  some { (l.allowKey false).push t with cursor := c }

def takePlain? (l : Lexer) : Option Lexer := do
  let l ← l.saveCandidate?
  let p ← plain? l.inFlow (l.indent + 1).toNat l.cursor
  some { (l.allowKey p.breaksAfter).push (.scalar .plain (String.ofList p.text)) with
    cursor := p.cursor }

def takeBlock? (l : Lexer) (isLiteral : Bool) : Option Lexer := do
  let l ← l.dropCandidate?
  let (text, c) ← block? isLiteral l.indent (l.cursor.skip 1)
  let style := if isLiteral then Style.literal else Style.folded
  some { (l.allowKey true).push (.scalar style (String.ofList text)) with cursor := c }

def readQuoted (q : Quote) (c : Cursor) : Option (Token × Cursor) := do
  let (text, d) ← quoted? q (c.skip 1)
  some (.scalar .quoted (String.ofList text), d)

def readName (make : String → Token) (c : Cursor) : Option (Token × Cursor) := do
  let (s, d) ← name? (c.skip 1)
  some (make s, d)

def readTag (inFlow : Bool) (c : Cursor) : Option (Token × Cursor) := do
  let (t, d) ← tag? inFlow c
  some (.tag t, d)

/-- Characters that a plain scalar does not begin with. -/
def isIndicator (c : Char) : Bool := "-?:,[]\x7b\x7d#&*!|>'\"%@`".toList.contains c

/-- Three of them begin one when the character after them leaves no other meaning. -/
def beginsPlain (l : Lexer) (c : Char) (cs : List Char) : Bool :=
  !(isIndicator c || isSpace c || isBreak c) ||
    (c = '-' && !cs.head?.any isSpace) ||
    (!l.inFlow && (c = '?' || c = ':') && !Cursor.endsWord cs)

/-- The token that begins with the next character. -/
def takeToken? (l : Lexer) (c : Char) (cs : List Char) : Option Lexer :=
  let alone := Cursor.endsWord cs
  if l.cursor.column = 0 ∧ c = '%' then l.takeDirective?
  else if l.cursor.atDocumentMark '-' then l.takeDocumentMark? .documentStart
  else if l.cursor.atDocumentMark '.' then l.takeDocumentMark? .documentEnd
  else if c = '[' then l.openFlow? .flowSequenceStart
  else if c = '\x7b' then l.openFlow? .flowMappingStart
  else if c = ']' then l.closeFlow? .flowSequenceEnd
  else if c = '\x7d' then l.closeFlow? .flowMappingEnd
  else if c = ',' then l.takeFlowEntry?
  else if c = '-' ∧ alone then l.takeBlockEntry?
  else if c = '?' ∧ (l.inFlow ∨ alone) then l.takeKey?
  else if c = ':' ∧ (l.inFlow ∨ alone) then l.takeValue?
  else if c = '*' then l.takeNode? (readName .alias)
  else if c = '&' then l.takeNode? (readName .anchor)
  else if c = '!' then l.takeNode? (readTag l.inFlow)
  else if c = '|' ∧ !l.inFlow then l.takeBlock? true
  else if c = '>' ∧ !l.inFlow then l.takeBlock? false
  else if c = '\'' then l.takeNode? (readQuoted .single)
  else if c = '"' then l.takeNode? (readQuoted .double)
  else if l.beginsPlain c cs then l.takePlain?
  else none

/-- The next token and the ends of blocks before it. -/
def step? (l : Lexer) : Option Lexer := do
  let l ← (skipGap (l.cursor.rest.length + 1) l).dropStale?
  let l := l.unindent l.cursor.column
  match l.cursor.rest with
  | [] => l.finish?
  | c :: cs => l.takeToken? c cs

/-- Goes on to the end of the text. Every token takes a character. -/
def run? : Nat → Lexer → Option Lexer
  | 0, l => if l.finished then some l else none
  | fuel + 1, l => if l.finished then some l else l.step?.bind (run? fuel)

end Lexer

/-- The tokens of a text, if all its characters may stand in one. -/
def tokens? (text : List Char) : Option (List Token) :=
  if text.all isAllowed then
    ((Lexer.start text).run? (text.length + 2)).map fun l => l.tokens.toList
  else none

end Testnet.Yaml
