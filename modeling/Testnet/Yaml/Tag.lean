import Testnet.Yaml.Plain
import Testnet.Yaml.Token

/-!
# Tags, anchors and directives

The parts of a YAML text that name things. Each reader takes the cursor behind the mark that begins
the part and gives back the cursor behind the part.
-/

namespace Testnet.Yaml

/-- Characters of a tag besides those of words. -/
def isTagMark (c : Char) : Bool := ";/?:@&=+$.!~*'()".toList.contains c

/-- Marks that may stand in a tag only where nothing else can be meant. -/
def isListMark (c : Char) : Bool := c = ',' || c = '[' || c = ']'

/-- How many octets a character takes that begins with the given one. -/
def octetCount? (octet : Nat) : Option Nat :=
  if octet < 0x80 then some 1
  else if 0xC0 ≤ octet ∧ octet < 0xE0 then some 2
  else if 0xE0 ≤ octet ∧ octet < 0xF0 then some 3
  else if 0xF0 ≤ octet ∧ octet < 0xF8 then some 4
  else none

/-- An octet written as two digits after a percent sign. -/
def escapedOctet? : List Char → Option (Nat × List Char)
  | '%' :: a :: b :: cs => do return (16 * (← hexDigit? a) + (← hexDigit? b), cs)
  | _ => none

/-- The octets of a character after its first. -/
def moreOctets? : Nat → List Char → Option (List Nat × List Char)
  | 0, cs => some ([], cs)
  | n + 1, cs => do
    let (octet, cs) ← escapedOctet? cs
    if octet / 64 = 2 then
      let (octets, cs) ← moreOctets? n cs
      some (octet :: octets, cs)
    else none

/-- An escaped character, one octet after the other. Tags are only compared with tags of ASCII, so
octets can stand for characters. -/
def escapedChar? (cs : List Char) : Option (List Char × List Char) := do
  let (octet, rest) ← escapedOctet? cs
  let (octets, rest) ← moreOctets? ((← octetCount? octet) - 1) rest
  some ((octet :: octets).map Char.ofNat, rest)

/-- The characters of a tag up to one that cannot stand in it. -/
def tagChars? (withLists : Bool) : Nat → List Char → Option (List Char × List Char)
  | 0, cs => some ([], cs)
  | _, [] => some ([], [])
  | fuel + 1, c :: cs => do
    if c = '%' then
      let (octets, rest) ← escapedChar? (c :: cs)
      let (more, rest) ← tagChars? withLists fuel rest
      some (octets ++ more, rest)
    else if isWordChar c || isTagMark c || (withLists && isListMark c) then
      let (more, rest) ← tagChars? withLists fuel cs
      some (c :: more, rest)
    else some ([], c :: cs)

/-- The cursor at a later place on the same line. -/
def Cursor.atRest (c : Cursor) (rest : List Char) : Cursor :=
  c.skip (c.rest.length - rest.length)

/-- The rest of a tag after `before`; the two must not both be empty. -/
def tagRest? (withLists : Bool) (before : List Char) (c : Cursor) :
    Option (List Char × Cursor) := do
  let (text, rest) ← tagChars? withLists c.rest.length c.rest
  if before.isEmpty ∧ rest.length = c.rest.length then none
  else some (before.drop 1 ++ text, c.atRest rest)

/-- A handle from its exclamation mark on: letters, and a second mark if there is one. -/
def tagHandle? (c : Cursor) : Option (List Char × Cursor) :=
  if c.head? = some '!' then
    let word := (c.skip 1).taken isWordChar
    let d := c.skip (1 + word.length)
    if d.head? = some '!' then some ('!' :: word ++ ['!'], d.skip 1) else some ('!' :: word, d)
  else none

/-- Whether a handle is closed by a second mark. -/
def isClosedHandle (handle : List Char) : Bool :=
  1 < handle.length && handle.getLast? = some '!'

/-- A tag in angle brackets, with a handle, or local. A lone mark is a complete tag. -/
def rawTag? (c : Cursor) : Option (RawTag × Cursor) :=
  if (c.skip 1).head? = some '<' then do
    let (suffix, d) ← tagRest? true [] (c.skip 2)
    if d.head? = some '>' then some (⟨[], suffix⟩, d.skip 1) else none
  else do
    let (handle, d) ← tagHandle? c
    if isClosedHandle handle then
      let (suffix, e) ← tagRest? false [] d
      some (⟨handle, suffix⟩, e)
    else
      let (suffix, e) ← tagRest? false handle d
      some (if suffix.isEmpty then ⟨[], ['!']⟩ else ⟨['!'], suffix⟩, e)

/-- A tag ends at a blank, a break or the end, or at a comma in a flow collection. -/
def tag? (inFlow : Bool) (c : Cursor) : Option (RawTag × Cursor) := do
  let (t, d) ← rawTag? c
  if Cursor.endsWord d.rest ∨ (inFlow ∧ d.head? = some ',') then some (t, d) else none

/-- Marks that may follow a name at once. -/
def endsName (c : Char) : Bool := "?:,]\x7d%@`".toList.contains c

/-- The name of an anchor or an alias behind its mark. -/
def name? (c : Cursor) : Option (String × Cursor) :=
  let word := c.taken isWordChar
  let d := c.skip word.length
  if word.isEmpty then none
  else if Cursor.endsWord d.rest ∨ d.at? endsName then some (String.ofList word, d)
  else none

/-- A number of a version, of at most nine digits. -/
def versionNumber? (c : Cursor) : Option (Nat × Cursor) :=
  let ds := c.taken Char.isDigit
  if ds.isEmpty ∨ 9 < ds.length then none
  else some (ds.foldl (fun n d => 10 * n + (d.toNat - '0'.toNat)) 0, c.skip ds.length)

def versionDirective? (c : Cursor) : Option (Token × Cursor) := do
  let (major, d) ← versionNumber? (c.skipWhile isSpace)
  if d.head? = some '.' then
    let (minor, e) ← versionNumber? (d.skip 1)
    some (.version major minor, e)
  else none

/-- A handle of a directive is a lone mark or closed. -/
def tagDirective? (c : Cursor) : Option (Token × Cursor) := do
  let (handle, d) ← tagHandle? (c.skipWhile isSpace)
  if handle ≠ ['!'] ∧ !isClosedHandle handle then none
  else if !d.atSpace then none
  else
    let (start, e) ← tagRest? true [] (d.skipWhile isSpace)
    if Cursor.endsWord e.rest then some (.tagHandle handle start, e) else none

/-- A directive behind its mark, with the rest of its line. -/
def directive? (c : Cursor) : Option (Token × Cursor) := do
  let word := c.taken isWordChar
  let d := c.skip word.length
  if Cursor.endsWord d.rest then
    let (t, e) ←
      match String.ofList word with
      | "YAML" => versionDirective? d
      | "TAG" => tagDirective? d
      | _ => none
    some (t, (← e.skipToLineEnd?).skipBreak)
  else none

end Testnet.Yaml
