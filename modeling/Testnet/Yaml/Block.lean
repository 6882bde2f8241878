import Testnet.Yaml.Cursor

/-!
# Block scalars

Indented text that is taken line by line. A literal scalar keeps its breaks; a folded one joins
lines with a blank unless one of them begins with a blank. What is left at the end is dropped, kept,
or kept up to one break.
-/

namespace Testnet.Yaml

/-- What happens to the breaks at the end. -/
inductive Chomping where
  | strip
  | clip
  | keep
deriving DecidableEq, Repr

/-- What stands after the mark of a block scalar. -/
structure BlockHeader where
  chomping : Chomping
  /-- Indentation beyond that of the block around the scalar. -/
  increment : Option Nat
deriving DecidableEq, Repr

def chomping? (c : Char) : Option Chomping :=
  if c = '+' then some .keep else if c = '-' then some .strip else none

def increment? (c : Char) : Option Nat :=
  if c.isDigit then some (c.toNat - '0'.toNat) else none

/-- The header in either order, and how many characters it takes; an increment of zero is none. -/
def BlockHeader.read? (cs : List Char) : Option (BlockHeader × Nat) :=
  let a := cs.head?
  let b := cs.tail.head?
  let found : BlockHeader × Nat :=
    match a.bind chomping?, a.bind increment? with
    | some ch, _ =>
      match b.bind increment? with
      | some i => (⟨ch, some i⟩, 2)
      | none => (⟨ch, none⟩, 1)
    | none, some i =>
      match b.bind chomping? with
      | some ch => (⟨ch, some i⟩, 2)
      | none => (⟨.clip, some i⟩, 1)
    | none, none => (⟨.clip, none⟩, 0)
  if found.1.increment = some 0 then none else some found

/-- Breaks before a line of text. -/
structure BlockGap where
  breaks : List Char
  /-- The widest indentation of any line up to the text. -/
  widest : Nat
  cursor : Cursor
deriving Repr

/-- Whether indentation goes on: up to the given one, or without end if it is not known yet. -/
def indents (indent : Option Nat) (c : Cursor) : Bool :=
  match indent with
  | none => true
  | some n => c.column < n

/-- Passes the indentation of a line. -/
def skipIndent (indent : Option Nat) (c : Cursor) : Cursor :=
  let blanks := (c.taken (· = ' ')).length
  match indent with
  | none => c.skip blanks
  | some n => c.skip (min blanks (n - c.column))

/-- Passes empty lines. A tab must not stand in the indentation. -/
def blockGap (indent : Option Nat) : Nat → BlockGap → Option BlockGap
  | 0, g => some g
  | fuel + 1, g =>
    let c := skipIndent indent g.cursor
    let widest := max g.widest c.column
    if indents indent c ∧ c.head? = some '\t' then none
    else
      match c.break? with
      | some (b, d) => blockGap indent fuel ⟨g.breaks ++ [b], widest, d⟩
      | none => some ⟨g.breaks, widest, c⟩

def blockGap? (indent : Option Nat) (c : Cursor) : Option BlockGap :=
  blockGap indent (c.rest.length + 1) ⟨[], 0, c⟩

/-- What has been read of a block scalar. -/
structure BlockText where
  text : List Char
  /-- The break of the last line. -/
  last : List Char
  /-- The empty lines after it. -/
  empty : List Char
  /-- Whether the last line begins with a blank. -/
  leadingBlank : Bool
  cursor : Cursor
deriving Repr

/-- The text with the breaks before the next line. -/
def BlockText.joined (b : BlockText) (isLiteral nextBlank : Bool) : List Char :=
  if !isLiteral && b.last = ['\n'] && !b.leadingBlank && !nextBlank then
    b.text ++ (if b.empty.isEmpty then [' '] else []) ++ b.empty
  else b.text ++ b.last ++ b.empty

/-- Reads line after line while they have the indentation. -/
def blockLines (isLiteral : Bool) (indent : Nat) : Nat → BlockText → Option BlockText
  | 0, b => some b
  | fuel + 1, b =>
    let c := b.cursor
    if c.column = indent ∧ !c.rest.isEmpty then do
      let line := c.taken (!isBreak ·)
      let text := b.joined isLiteral c.atSpace ++ line
      let d := c.skip line.length
      let g ← blockGap? (some indent) d.skipBreak
      blockLines isLiteral indent fuel
        ⟨text, (d.break?.map fun e => [e.1]).getD [], g.breaks, c.atSpace, g.cursor⟩
    else some b

/-- A block scalar whose mark has been passed. The block around it is indented by `around`, which is
below zero outside any block. -/
def block? (isLiteral : Bool) (around : Int) (c : Cursor) : Option (List Char × Cursor) := do
  let (header, n) ← BlockHeader.read? c.rest
  let c := (← (c.skip n).skipToLineEnd?).skipBreak
  let given := header.increment.map fun i => (max around 0).toNat + i
  let g ← blockGap? given c
  let indent := given.getD (max g.widest (max (around + 1).toNat 1))
  let b ← blockLines isLiteral indent (c.rest.length + 1) ⟨[], [], g.breaks, false, g.cursor⟩
  match header.chomping with
  | .strip => some (b.text, b.cursor)
  | .clip => some (b.text ++ b.last, b.cursor)
  | .keep => some (b.text ++ b.last ++ b.empty, b.cursor)

end Testnet.Yaml
