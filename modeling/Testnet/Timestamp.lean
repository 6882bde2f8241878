import Testnet.Text.Blank

/-!
# Timestamps

A date and a time of day, written `year-month-dayThour:minute:second` with an optional fraction.
Reading is lenient about blanks before a number and about leading zeros; writing is not: there is
one text for each timestamp, down to the millisecond. What a clock counts is turned into a timestamp
here as well.
-/

namespace Testnet

/-- The sixtieth second is a leap second. -/
structure Timestamp where
  year : Int
  month : Nat
  day : Nat
  hour : Nat
  minute : Nat
  second : Nat
  nanosecond : Nat
deriving DecidableEq, Repr

namespace Timestamp

inductive Fault where
  | short
  | invalid
  | outOfRange
  | long
deriving DecidableEq, Repr

def Fault.message : Fault → String
  | short => "premature end of input"
  | invalid => "input contains invalid characters"
  | outOfRange => "input is out of range"
  | long => "trailing input"

def digitsValue (ds : List Char) : Nat :=
  ds.foldl (fun n c => 10 * n + (c.toNat - '0'.toNat)) 0

/-- Numbers are gathered in a signed word of 64 bits. -/
def numberLimit : Nat := 0x8000000000000000

/-- A number of at least one digit and at most `width` digits, or of any length, and what follows
it. -/
def readDigits (width : Option Nat) (cs : List Char) : Except Fault (Nat × List Char) :=
  let ds := (match width with | some w => cs.take w | none => cs).takeWhile Char.isDigit
  if cs.isEmpty then .error .short
  else if ds.isEmpty then .error .invalid
  else if numberLimit ≤ digitsValue ds then .error .outOfRange
  else .ok (digitsValue ds, cs.drop ds.length)

/-- A field of at most two digits with bounds, after any blanks. -/
def readField (low high : Nat) (cs : List Char) : Except Fault (Nat × List Char) := do
  let (n, rest) ← readDigits (some 2) (cs.dropWhile Text.isBlank)
  if low ≤ n ∧ n ≤ high then .ok (n, rest) else .error .outOfRange

def yearLimit : Int := 0x80000000

/-- A year of up to four digits, or a signed one of any length that fits its word. -/
def readYear (cs : List Char) : Except Fault (Int × List Char) := do
  let (n, rest) ←
    match cs.dropWhile Text.isBlank with
    | '-' :: ds => (readDigits none ds).map fun (n, rest) => (-(n : Int), rest)
    | '+' :: ds => (readDigits none ds).map fun (n, rest) => ((n : Int), rest)
    | ds => (readDigits (some 4) ds).map fun (n, rest) => ((n : Int), rest)
  if -yearLimit ≤ n ∧ n < yearLimit then .ok (n, rest) else .error .outOfRange

def readMark (mark : Char) : List Char → Except Fault (List Char)
  | [] => .error .short
  | c :: cs => if c = mark then .ok cs else .error .invalid

/-- Digits of a nanosecond; further digits are dropped. -/
def fractionDigits : Nat := 9

/-- A point with at least one digit after it, or nothing. -/
def readFraction : List Char → Except Fault (Nat × List Char)
  | '.' :: cs => do
    let (n, rest) ← readDigits (some fractionDigits) cs
    let read := cs.length - rest.length
    .ok (n * Nat.pow 10 (fractionDigits - read), rest.dropWhile Char.isDigit)
  | cs => .ok (0, cs)

def isLeapYear (y : Int) : Bool := (y % 4 = 0 && y % 100 != 0) || y % 400 = 0

def daysIn (y : Int) (month : Nat) : Nat :=
  if month = 2 then (if isLeapYear y then 29 else 28)
  else if month = 4 ∨ month = 6 ∨ month = 9 ∨ month = 11 then 30
  else 31

/-- The first and the last year of the calendar. -/
def firstYear : Int := -262143

def lastYear : Int := 262142

/-- Whether the day is one of the calendar. -/
def isDate (t : Timestamp) : Bool :=
  firstYear ≤ t.year && t.year ≤ lastYear && t.day ≤ daysIn t.year t.month

/-- Reads a whole text with or without a fraction. -/
def readList (fraction : Bool) (cs : List Char) : Except Fault Timestamp := do
  let (year, cs) ← readYear cs
  let (month, cs) ← readField 1 12 (← readMark '-' cs)
  let (day, cs) ← readField 1 31 (← readMark '-' cs)
  let (hour, cs) ← readField 0 23 (← readMark 'T' cs)
  let (minute, cs) ← readField 0 59 (← readMark ':' cs)
  let (second, cs) ← readField 0 60 (← readMark ':' cs)
  let (nanosecond, cs) ← if fraction then readFraction cs else .ok (0, cs)
  if !cs.isEmpty then .error .long
  else
    let t : Timestamp := ⟨year, month, day, hour, minute, second, nanosecond⟩
    if t.isDate then .ok t else .error .outOfRange

/-- The timestamp of a text. What is wrong with a text is told as if a fraction were not allowed. -/
def ofText (s : String) : Except Fault Timestamp :=
  match readList true s.toList with
  | .ok t => .ok t
  | .error _ => readList false s.toList

/-- A number with leading zeros up to a width. -/
def padded (width n : Nat) : List Char :=
  let ds := Nat.toDigits 10 n
  List.replicate (width - ds.length) '0' ++ ds

/-- Years of four digits stand alone, all others have a sign. -/
def writeYear (y : Int) : List Char :=
  if 0 ≤ y ∧ y ≤ 9999 then padded 4 y.toNat
  else (if y < 0 then '-' else '+') :: padded 4 y.natAbs

def writeList (t : Timestamp) : List Char :=
  writeYear t.year ++ '-' :: padded 2 t.month ++ '-' :: padded 2 t.day ++ 'T' :: padded 2 t.hour ++
    ':' :: padded 2 t.minute ++ ':' :: padded 2 t.second ++
    '.' :: padded 3 (t.nanosecond / 1000000)

def text (t : Timestamp) : String := String.ofList t.writeList

theorem daysIn_bounds (y : Int) (month : Nat) : 28 ≤ daysIn y month ∧ daysIn y month ≤ 31 := by
  unfold daysIn
  split
  · split <;> decide
  · split <;> decide

/-- The year, the month and the day that come some days after the first of a month. -/
def dateAfter (y : Int) (month days : Nat) : Int × Nat × Nat :=
  if days < daysIn y month then (y, month, days + 1)
  else if month < 12 then dateAfter y (month + 1) (days - daysIn y month)
  else dateAfter (y + 1) 1 (days - daysIn y month)
termination_by days
decreasing_by
  all_goals
    have := daysIn_bounds y month
    omega

/-- The first year in which clocks count seconds. -/
def epochYear : Int := 1970

/-- The timestamp of a clock that has counted some seconds and a part of one. -/
def ofSeconds (seconds nanoseconds : Nat) : Timestamp :=
  let (year, month, day) := dateAfter epochYear 1 (seconds / 86400)
  let second := seconds % 86400
  ⟨year, month, day, second / 3600, second / 60 % 60, second % 60, nanoseconds⟩

end Timestamp

end Testnet
