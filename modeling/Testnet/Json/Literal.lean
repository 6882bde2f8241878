import Testnet.Json.Value

/-!
# Number literals

A literal is kept as it was read, since what it means depends on where it stands: it may be a whole
number of some width, a double, or nothing at all where it is ignored.
-/

namespace Testnet.Json

/-- Digits before the point, digits after it, and a signed exponent. -/
structure Literal where
  negative : Bool
  whole : List Char
  fraction : Option (List Char)
  exponent : Option (Bool × List Char)
deriving DecidableEq, Repr

def digitValue (c : Char) : Nat := c.toNat - '0'.toNat

def digitsValue (cs : List Char) : Nat := cs.foldl (fun n c => 10 * n + digitValue c) 0

namespace Literal

/-- The digits that a list begins with, which must not be none, and what follows them. -/
def digits? (cs : List Char) : Option (List Char × List Char) :=
  if (cs.takeWhile Char.isDigit).isEmpty then none
  else some (cs.takeWhile Char.isDigit, cs.dropWhile Char.isDigit)

def sign : List Char → Bool × List Char
  | '-' :: cs => (true, cs)
  | '+' :: cs => (false, cs)
  | cs => (false, cs)

/-- No other digit follows a leading zero. -/
def whole? (cs : List Char) : Option (List Char × List Char) := do
  let (ds, rest) ← digits? cs
  if ds.head? = some '0' ∧ ds.length ≠ 1 then none else some (ds, rest)

def fraction? : List Char → Option (Option (List Char) × List Char)
  | '.' :: cs => (digits? cs).map fun (ds, rest) => (some ds, rest)
  | cs => some (none, cs)

def exponent? : List Char → Option (Option (Bool × List Char) × List Char)
  | [] => some (none, [])
  | c :: cs =>
    if c = 'e' ∨ c = 'E' then
      let (down, ds) := sign cs
      (digits? ds).map fun (ds, rest) => (some (down, ds), rest)
    else some (none, c :: cs)

def unsigned? (negative : Bool) (cs : List Char) : Option Literal := do
  let (whole, cs) ← whole? cs
  let (fraction, cs) ← fraction? cs
  let (exponent, cs) ← exponent? cs
  if cs.isEmpty then some ⟨negative, whole, fraction, exponent⟩ else none

/-- The literal that a run of characters is. -/
def ofList? : List Char → Option Literal
  | '-' :: cs => unsigned? true cs
  | cs => unsigned? false cs

/-- The value of a literal that is a whole number; a negative zero is none. -/
def integer? (l : Literal) : Option Int :=
  let n := digitsValue l.whole
  if l.fraction.isSome ∨ l.exponent.isSome then none
  else if l.negative then (if n = 0 then none else some (-(n : Int)))
  else some n

end Literal

/-- Digits are gathered into a significand of 64 bits. A digit that no longer fits is dropped;
before the point it counts in the exponent. -/
structure Gathered where
  significand : Nat
  exponent : Int
  /-- Digits are no longer taken. -/
  full : Bool
deriving DecidableEq, Repr

namespace Gathered

def limit : Nat := UInt64.size

/-- After the first digit that does not fit, all others count in the exponent. -/
def takeWhole (g : Gathered) (c : Char) : Gathered :=
  if g.full ∨ limit ≤ 10 * g.significand + digitValue c then
    { g with exponent := g.exponent + 1, full := true }
  else { g with significand := 10 * g.significand + digitValue c }

/-- After the first digit that does not fit, all others are ignored. -/
def takeFraction (g : Gathered) (c : Char) : Gathered :=
  if g.full ∨ limit ≤ 10 * g.significand + digitValue c then { g with full := true }
  else ⟨10 * g.significand + digitValue c, g.exponent - 1, false⟩

/-- The fraction is given a new try after dropped digits of the whole part. -/
def ofDigits (whole fraction : List Char) : Gathered :=
  let g := whole.foldl takeWhole ⟨0, 0, false⟩
  fraction.foldl takeFraction { g with full := false }

end Gathered

/-- The exponents that fit a word of 32 bits. -/
def exponentLimit : Nat := 0x80000000

def clampExponent (e : Int) : Int := max (-(exponentLimit : Int)) (min e (exponentLimit - 1))

/-- Powers of ten are applied in steps of at most this one. -/
def largestPower : Nat := 308

def powerOfTen (n : Nat) : Option Binary64.Magnitude := Binary64.Magnitude.ofNat (Nat.pow 10 n)

/-- Divides by powers of ten until the exponent is used up or nothing is left. -/
def divideDown (x : Binary64.Magnitude) (n : Nat) : Option Binary64.Magnitude :=
  if x.isZero then some x
  else if _h : n ≤ largestPower then do x.div (← powerOfTen n)
  else do divideDown (← x.div (← powerOfTen largestPower)) (n - largestPower)
termination_by n
decreasing_by have : 0 < largestPower := by decide
              omega

/-- The significand rounded once and scaled once, or oftener when the exponent is far below zero;
none when it is too large. -/
def scale (significand : Nat) (exponent : Int) : Option Binary64.Magnitude := do
  let x ← Binary64.Magnitude.ofNat significand
  if 0 ≤ exponent then
    if exponent ≤ largestPower then x.mul (← powerOfTen exponent.toNat)
    else if x.isZero then some x
    else none
  else divideDown x exponent.natAbs

namespace Literal

/-- The magnitude of a literal as a double. An exponent that is no word of 32 bits makes it zero,
unless it is positive and the digits are not all zero. -/
def magnitude? (l : Literal) : Option Binary64.Magnitude :=
  let g := Gathered.ofDigits l.whole (l.fraction.getD [])
  match l.exponent with
  | none => scale g.significand g.exponent
  | some (down, ds) =>
    let n := digitsValue ds
    if exponentLimit ≤ n then
      if g.significand ≠ 0 ∧ !down then none else some .zero
    else scale g.significand (clampExponent (if down then g.exponent - n else g.exponent + n))

/-- The number a literal stands for where any number may stand: a whole number if it is one and
fits 64 bits, with or without a sign, and else a double. -/
def number? (l : Literal) : Option Number :=
  match l.integer? with
  | some n =>
    if -0x8000000000000000 ≤ n ∧ n < (Gathered.limit : Int) then some (.whole n)
    else (magnitude? l).map (.double l.negative)
  | none => (magnitude? l).map (.double l.negative)

end Literal

end Testnet.Json
