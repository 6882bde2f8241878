import Testnet.Binary64.Basic

/-!
# Shortest decimals

The decimal with the fewest digits among those that read back as a given magnitude; of several, the
one nearest to it. Grids of one digit, two digits and so on are tried in turn. If a point of a grid
reads back, so does one of the two neighbours of the magnitude on it, so only these are looked at.
-/

namespace Testnet.Binary64

/-- The number `0.d₁d₂…dₙ * 10 ^ point`, the first and the last digit not zero. -/
structure Decimal where
  digits : List Char
  point : Int
deriving DecidableEq, Repr

/-- The numbers that round to a magnitude, all in units of a quarter of its last place; the ends
belong to it when the significand is even. Just above a power of two the grid is finer below. -/
structure Interval where
  low : Nat
  high : Nat
  closed : Bool

/-- Whether a quotient lies in the interval. -/
def Interval.contains (i : Interval) (num den : Nat) : Bool :=
  if i.closed then i.low * den ≤ num && num ≤ i.high * den
  else i.low * den < num && num < i.high * den

namespace Magnitude

def interval (x : Magnitude) : Interval where
  low := 4 * x.significand -
    (if x.significand = 1 <<< (precision - 1) ∧ minExponent < x.exponent then 1 else 2)
  high := 4 * x.significand + 2
  closed := x.significand % 2 = 0

def decimalDigits (n : Nat) : List Char := Nat.toDigits 10 n

/-- The power of ten of the first digit of a quotient. -/
def leadingPower (num den : Nat) : Int :=
  if den ≤ num then (decimalDigits (num / den)).length - 1
  else -((decimalDigits ((den + num - 1) / num - 1)).length : Int)

/-- A neighbour on the grid of a power of ten that reads back, the nearer one if both do and the
even one if they are equally near. -/
def onGrid (x : Magnitude) (power : Int) : Option Nat :=
  let i := x.interval
  let unitNum := Nat.pow 10 (-power).toNat <<< (x.exponent - 2).toNat
  let unitDen := Nat.pow 10 power.toNat <<< (2 - x.exponent).toNat
  let below := 4 * x.significand * unitNum / unitDen
  let rest := 4 * x.significand * unitNum % unitDen
  let fits (n : Nat) : Bool := i.contains (n * unitDen) unitNum
  let upNearer := unitDen < 2 * rest ∨ (unitDen = 2 * rest ∧ below % 2 = 1)
  if fits below && 0 < below then
    if fits (below + 1) && upNearer then some (below + 1) else some below
  else if fits (below + 1) then some (below + 1)
  else none

/-- The digits of a grid point without the zeros at the end. -/
def toDecimal (n : Nat) (power : Int) : Decimal :=
  let ds := decimalDigits n
  ⟨(ds.reverse.dropWhile (· = '0')).reverse, ds.length + power⟩

/-- Tries `tries` grids, each ten times finer than the one before. -/
def firstGrid (x : Magnitude) : Nat → Int → Decimal
  | 0, _ => ⟨[], 0⟩
  | tries + 1, power =>
    match x.onGrid power with
    | some n => toDecimal n power
    | none => firstGrid x tries (power - 1)

/-- The shortest decimal of a magnitude that is not zero; 17 digits are always enough. -/
def shortest (x : Magnitude) : Decimal :=
  x.firstGrid 17 (leadingPower x.ratio.1 x.ratio.2)

end Magnitude

end Testnet.Binary64
