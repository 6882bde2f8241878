/-!
# Magnitudes of binary64

A magnitude is a significand of at most 53 bits times a power of two. Every operation computes the
exact result as a quotient of naturals and rounds it once, to the nearest magnitude, a tie going to
the even significand.
-/

namespace Testnet.Binary64

/-- The quotient rounded to the nearest natural, a tie to the even one. -/
def roundQuotient (num den : Nat) : Nat :=
  let q := num / den
  let r := num % den
  if 2 * r < den then q
  else if den < 2 * r then q + 1
  else q + q % 2

theorem roundQuotient_mul_left {den : Nat} (h : 0 < den) (n : Nat) :
    roundQuotient (n * den) den = n := by
  simp [roundQuotient, Nat.mul_div_cancel _ h, Nat.mul_mod_left, h]

/-- Bits of a significand. -/
def precision : Nat := 53

/-- The exponent of the finest grid. -/
def minExponent : Int := -1074

/-- The exponent of the coarsest grid. -/
def maxExponent : Int := 971

/-- The number `significand * 2 ^ exponent`. -/
structure Magnitude where
  significand : Nat
  exponent : Int
deriving DecidableEq, Repr

namespace Magnitude

def zero : Magnitude := ⟨0, minExponent⟩

def isZero (x : Magnitude) : Bool := x.significand == 0

/-- Numerator and denominator of the value. -/
def ratio (x : Magnitude) : Nat × Nat :=
  (x.significand <<< x.exponent.toNat, 1 <<< (-x.exponent).toNat)

/-- The exponent of the grid on which a quotient has 53 bits, or the finest one. -/
def gridExponent (num den : Nat) : Int :=
  let low : Int := (num.log2 : Int) - den.log2 - precision
  let wide := den <<< (precision + low.toNat) ≤ num <<< (-low).toNat
  max minExponent (if wide then low + 1 else low)

/-- The magnitude nearest to a quotient; none when it lies beyond the coarsest grid. -/
def ofRatio (num den : Nat) : Option Magnitude :=
  let e := gridExponent num den
  let q := roundQuotient (num <<< (-e).toNat) (den <<< e.toNat)
  let x : Magnitude := if q = 1 <<< precision then ⟨1 <<< (precision - 1), e + 1⟩ else ⟨q, e⟩
  if x.exponent ≤ maxExponent then some x else none

def ofNat (n : Nat) : Option Magnitude := if n = 0 then some zero else ofRatio n 1

def mul (x y : Magnitude) : Option Magnitude :=
  if x.isZero || y.isZero then some zero
  else ofRatio (x.ratio.1 * y.ratio.1) (x.ratio.2 * y.ratio.2)

/-- The quotient by a magnitude that is not zero. -/
def div (x y : Magnitude) : Option Magnitude :=
  if x.isZero then some zero
  else ofRatio (x.ratio.1 * y.ratio.2) (x.ratio.2 * y.ratio.1)

end Magnitude

end Testnet.Binary64
