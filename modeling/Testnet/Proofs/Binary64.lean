import Mathlib.Algebra.Group.Nat.Defs
import Testnet.Binary64.Root

/-!
# Roots of small numbers

A number of at most 53 bits is a magnitude itself, and the root of a number of at most 52 bits is
too far from the next whole number to be rounded up to it. So for such numbers the root that is
taken in double precision is the whole part of the root.
-/

namespace Testnet.Binary64

theorem roundQuotient_one (n : Nat) : roundQuotient n 1 = n := by
  have h := roundQuotient_mul_left Nat.one_pos n
  rwa [Nat.mul_one] at h

/-- A number of at most 53 bits lies on a grid that is no coarser than the whole numbers. -/
theorem gridExponent_one {n : Nat} (hpos : n ≠ 0) (h : n < 2 ^ precision) :
    Magnitude.gridExponent n 1 = (n.log2 : Int) - 52 := by
  have hp : precision = 53 := rfl
  have hlog : n.log2 < precision := (Nat.log2_lt hpos).mpr h
  have hlow : ((n.log2 : Int) - (Nat.log2 1 : Nat) - precision) = (n.log2 : Int) - 53 := by
    have hone : Nat.log2 1 = 0 := by decide
    rw [hone, hp]
    omega
  have hdown : (-((n.log2 : Int) - 53)).toNat = 53 - n.log2 := by omega
  have hup : ((n.log2 : Int) - 53).toNat = 0 := by omega
  have hwide : 1 <<< (precision + 0) ≤ n <<< (53 - n.log2) := by
    rw [Nat.shiftLeft_eq, Nat.shiftLeft_eq, Nat.one_mul]
    calc 2 ^ (precision + 0) = 2 ^ n.log2 * 2 ^ (53 - n.log2) := by
          rw [← Nat.pow_add]
          congr 1
          omega
      _ ≤ n * 2 ^ (53 - n.log2) := Nat.mul_le_mul_right _ (Nat.log2_self_le hpos)
  unfold Magnitude.gridExponent
  simp only [hlow, hdown, hup, hwide, if_true, minExponent]
  omega

/-- Such a number is a magnitude itself. -/
theorem exists_ofNat {n : Nat} (hpos : n ≠ 0) (h : n < 2 ^ precision) :
    ∃ x, Magnitude.ofNat n = some x ∧ x.ratio.1 / x.ratio.2 = n := by
  have hp : precision = 53 := rfl
  have hlog : n.log2 < precision := (Nat.log2_lt hpos).mpr h
  have hdown : (-((n.log2 : Int) - 52)).toNat = 52 - n.log2 := by omega
  have hup : ((n.log2 : Int) - 52).toNat = 0 := by omega
  have hshift : n <<< (52 - n.log2) = n * 2 ^ (52 - n.log2) := Nat.shiftLeft_eq ..
  have hsmall : n * 2 ^ (52 - n.log2) ≠ 1 <<< precision := by
    have hlt : n * 2 ^ (52 - n.log2) < 2 ^ (n.log2 + 1) * 2 ^ (52 - n.log2) :=
      Nat.mul_lt_mul_of_pos_right Nat.lt_log2_self (Nat.two_pow_pos _)
    rw [← Nat.pow_add, show n.log2 + 1 + (52 - n.log2) = precision by omega] at hlt
    rw [Nat.shiftLeft_eq, Nat.one_mul]
    omega
  refine ⟨⟨n * 2 ^ (52 - n.log2), (n.log2 : Int) - 52⟩, ?_, ?_⟩
  · unfold Magnitude.ofNat Magnitude.ofRatio
    rw [if_neg hpos, gridExponent_one hpos h]
    simp only [hdown, hup, Nat.shiftLeft_zero, roundQuotient_one, hshift, hsmall, if_false,
      maxExponent]
    rw [if_pos (by omega)]
  · unfold Magnitude.ratio
    simp only [hdown, hup, Nat.shiftLeft_zero]
    rw [Nat.shiftLeft_eq, Nat.one_mul]
    exact Nat.mul_div_cancel _ (Nat.two_pow_pos _)

theorem wholeRoot_le (n : Nat) : wholeRoot n ≤ n := by
  obtain ⟨hlow, _⟩ := wholeRoot_bounds n
  exact Nat.le_trans (Nat.le_mul_self _) hlow

/-- A magnitude just below the next whole number is too close to it to be the root of a number of
at most 52 bits. -/
theorem lt_square_of_root {m r s : Nat} (hroot : m < (r + 1) * (r + 1)) (hs : 2 * (r + 1) ≤ 2 ^ s) :
    m <<< (2 * s) < (((r + 1) <<< s) - 1) * (((r + 1) <<< s) - 1) := by
  rw [Nat.shiftLeft_eq, Nat.shiftLeft_eq, Nat.two_mul, Nat.pow_add]
  generalize 2 ^ s = w at hs
  obtain ⟨b, hb⟩ : ∃ b, (r + 1) * w = b + 1 :=
    ⟨(r + 1) * w - 1, by
      have hpos : 0 < (r + 1) * w := Nat.mul_pos (Nat.succ_pos r) (by omega)
      omega⟩
  have hsquare : (b + 1) * (b + 1) = (r + 1) * (r + 1) * (w * w) := by
    rw [← hb]
    exact Nat.mul_mul_mul_comm ..
  have hm : (m + 1) * (w * w) ≤ (r + 1) * (r + 1) * (w * w) := Nat.mul_le_mul_right _ hroot
  have hw : 2 * ((r + 1) * w) ≤ w * w := by
    rw [← Nat.mul_assoc]
    exact Nat.mul_le_mul_right w hs
  rw [hb, Nat.add_sub_cancel]
  rw [Nat.add_mul, Nat.one_mul] at hm
  rw [Nat.add_mul, Nat.mul_add, Nat.mul_one, Nat.one_mul] at hsquare
  omega

/-- The rounded root of such a number is its root. -/
theorem roundedRoot_eq {n : Nat} (h : n < 2 ^ 52) : roundedRoot n = wholeRoot n := by
  have hp : precision = 53 := rfl
  unfold roundedRoot
  by_cases hpos : n = 0
  · subst hpos
    decide +kernel
  · obtain ⟨x, hx, hratio⟩ := exists_ofNat hpos (Nat.lt_trans h (by decide))
    obtain ⟨hlow, hhigh⟩ := wholeRoot_bounds n
    have hroot : wholeRoot n < 2 ^ 26 := Nat.lt_of_not_le fun hlarge => by
      have hsquare := Nat.mul_le_mul hlarge hlarge
      omega
    have hfew : (wholeRoot n).log2 ≤ 25 := by
      by_cases hzero : wholeRoot n = 0
      · rw [hzero]
        decide
      · exact Nat.le_of_lt_succ ((Nat.log2_lt hzero).mpr hroot)
    have hwide : 2 * (wholeRoot n + 1) ≤ 2 ^ (precision - (wholeRoot n).log2) := by
      have hmono : 2 ^ 28 ≤ 2 ^ (precision - (wholeRoot n).log2) :=
        Nat.pow_le_pow_right Nat.two_pos (by omega)
      omega
    rw [hx]
    simp only [hratio]
    exact if_neg (Nat.not_le.mpr (lt_square_of_root hhigh hwide))

end Testnet.Binary64
