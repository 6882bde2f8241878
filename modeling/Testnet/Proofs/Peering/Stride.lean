import Mathlib.Data.Int.GCD
import Mathlib.Data.Nat.ModEq

/-!
# Strides on a ring

Where a fixed stride leads on a ring of numbers. Strides lead back after a period, which is the size
of the ring divided by what the stride and the size have in common, and reach the numbers that leave
the same remainder. So what joins every number with the one a stride ahead joins these classes, and
whether the ring is one depends on what joins class with class.
-/

namespace Testnet.Peering

/-- Strides that a ring of `n` numbers takes until they come back to where they started. -/
def period (n gap : Nat) : Nat := n / Nat.gcd gap n

/-- The number that lies `l` strides after `i` on a ring of `n` numbers. -/
def strideFrom (n gap i l : Nat) : Nat := (i + l * gap) % n

section Stride

variable {n gap : Nat}

theorem strideFrom_lt (hn : 0 < n) (i l : Nat) : strideFrom n gap i l < n := Nat.mod_lt _ hn

theorem strideFrom_strideFrom (i k l : Nat) :
    strideFrom n gap (strideFrom n gap i k) l = strideFrom n gap i (k + l) := by
  unfold strideFrom
  rw [Nat.mod_add_mod, Nat.add_assoc, Nat.add_mul]

/-- Only whole periods lead back. -/
theorem dvd_mul_iff_period_dvd (hn : 0 < n) (k : Nat) : n ∣ k * gap ↔ period n gap ∣ k := by
  have hgcd : 0 < Nat.gcd gap n := Nat.gcd_pos_of_pos_right gap hn
  have hring : period n gap * Nat.gcd gap n = n := Nat.div_mul_cancel (Nat.gcd_dvd_right gap n)
  have hgap : gap / Nat.gcd gap n * Nat.gcd gap n = gap :=
    Nat.div_mul_cancel (Nat.gcd_dvd_left gap n)
  have hcoprime : Nat.Coprime (period n gap) (gap / Nat.gcd gap n) :=
    (Nat.coprime_div_gcd_div_gcd hgcd).symm
  calc n ∣ k * gap
      ↔ period n gap * Nat.gcd gap n ∣ k * (gap / Nat.gcd gap n) * Nat.gcd gap n := by
        rw [hring, Nat.mul_assoc, hgap]
    _ ↔ period n gap ∣ k * (gap / Nat.gcd gap n) := Nat.mul_dvd_mul_iff_right hgcd
    _ ↔ period n gap ∣ k := Nat.Coprime.dvd_mul_right hcoprime

theorem strideFrom_eq_self_iff {i l : Nat} (hi : i < n) :
    strideFrom n gap i l = i ↔ period n gap ∣ l := by
  have hmod : strideFrom n gap i l = i ↔ i + l * gap ≡ i + 0 [MOD n] := by
    unfold Nat.ModEq strideFrom
    rw [Nat.add_zero, Nat.mod_eq_of_lt hi]
  rw [hmod, Nat.ModEq.add_iff_left (Nat.ModEq.refl i), Nat.modEq_zero_iff_dvd]
  exact dvd_mul_iff_period_dvd (by omega) l

/-- Two stretches from the same number that are shorter than a period end apart. -/
theorem eq_of_strideFrom_eq {i k l : Nat} (hi : i < n) (hk : k < period n gap)
    (hl : l < period n gap) (h : strideFrom n gap i k = strideFrom n gap i l) : k = l := by
  have hshort : ∀ {k l : Nat}, k ≤ l → l < period n gap →
      strideFrom n gap i k = strideFrom n gap i l → k = l := by
    intro k l hkl hl h
    have hmod : i + k * gap ≡ i + (k * gap + (l - k) * gap) [MOD n] := by
      rw [← Nat.add_mul, Nat.add_sub_cancel' hkl]
      exact h
    have hzero : (l - k) * gap ≡ 0 [MOD n] := by
      have hcancel := Nat.ModEq.add_left_cancel' i hmod
      have hcancel' : k * gap + 0 ≡ k * gap + (l - k) * gap [MOD n] := hcancel
      exact (Nat.ModEq.add_left_cancel' _ hcancel').symm
    have hdvd := (dvd_mul_iff_period_dvd (by omega) _).mp ((Nat.modEq_zero_iff_dvd).mp hzero)
    have hnone := Nat.eq_zero_of_dvd_of_lt hdvd (by omega)
    omega
  rcases Nat.le_total k l with hkl | hlk
  · exact hshort hkl hl h
  · exact (hshort hlk hk h.symm).symm

/-- Strides stay in a class of numbers that leave the same remainder. -/
theorem strideFrom_modEq (i l : Nat) : strideFrom n gap i l ≡ i [MOD Nat.gcd gap n] := by
  have hring : strideFrom n gap i l ≡ i + l * gap [MOD Nat.gcd gap n] :=
    (Nat.mod_modEq _ n).of_dvd (Nat.gcd_dvd_right gap n)
  have hgap : l * gap ≡ 0 [MOD Nat.gcd gap n] :=
    (Nat.modEq_zero_iff_dvd).mpr ((Nat.gcd_dvd_left gap n).mul_left l)
  exact hring.trans (hgap.add_left i)

variable {R : Nat → Nat → Prop}

theorem related_strideFrom (hR : Equivalence R) (hn : 0 < n)
    (hstride : ∀ i < n, R i (strideFrom n gap i 1)) {i : Nat} (hi : i < n) (l : Nat) :
    R i (strideFrom n gap i l) := by
  induction l with
  | zero =>
    have hself : strideFrom n gap i 0 = i := (strideFrom_eq_self_iff hi).mpr (Nat.dvd_zero _)
    rw [hself]
    exact hR.refl i
  | succ l ih =>
    rw [← strideFrom_strideFrom]
    exact hR.trans ih (hstride _ (strideFrom_lt hn i l))

/-- What relates each number of the ring with the one a stride ahead relates all of a class. -/
theorem related_of_modEq (hR : Equivalence R) (hstride : ∀ i < n, R i (strideFrom n gap i 1))
    {a b : Nat} (ha : a < n) (hb : b < n) (hab : a ≡ b [MOD Nat.gcd gap n]) : R a b := by
  have hn : 0 < n := by omega
  have hgcd : 0 < Nat.gcd gap n := Nat.gcd_pos_of_pos_right gap hn
  have hup : ∀ k c, c + k * Nat.gcd gap n < n → R c (c + k * Nat.gcd gap n) := by
    intro k c hlt
    induction k with
    | zero =>
      rw [Nat.zero_mul, Nat.add_zero]
      exact hR.refl c
    | succ k ih =>
      rw [Nat.succ_mul, ← Nat.add_assoc] at hlt ⊢
      refine hR.trans (ih (by omega)) ?_
      -- Some number of strides comes down to one step of the greatest common divisor.
      obtain ⟨l, _, hl⟩ := Nat.exists_mul_mod_eq_gcd (n := gap) (k := n) (by omega)
      have hstep := related_strideFrom hR hn hstride (i := c + k * Nat.gcd gap n) (by omega) l
      have hend : strideFrom n gap (c + k * Nat.gcd gap n) l =
          c + k * Nat.gcd gap n + Nat.gcd gap n := by
        unfold strideFrom
        rw [Nat.mul_comm l, Nat.add_mod, hl, Nat.mod_eq_of_lt (a := c + _) (by omega),
          Nat.mod_eq_of_lt hlt]
      rwa [hend] at hstep
  have hshort : ∀ {a b : Nat}, a ≤ b → b < n → a ≡ b [MOD Nat.gcd gap n] → R a b := by
    intro a b hle hb hab
    obtain ⟨k, hk⟩ := (Nat.modEq_iff_dvd' hle).mp hab
    have hb' : b = a + k * Nat.gcd gap n := by
      rw [Nat.mul_comm, ← hk]
      omega
    rw [hb'] at hb ⊢
    exact hup k a hb
  rcases Nat.le_total a b with hle | hle
  · exact hshort hle hb hab
  · exact hR.symm (hshort hle ha hab.symm)

/-- Classes that are related one to the next make up the whole ring. -/
theorem related_of_next (hR : Equivalence R) (hstride : ∀ i < n, R i (strideFrom n gap i 1))
    (hnext : ∀ r < n, ∃ a b, a < n ∧ b < n ∧ a ≡ r [MOD Nat.gcd gap n] ∧
      b ≡ r + 1 [MOD Nat.gcd gap n] ∧ R a b) {i j : Nat} (hi : i < n) (hj : j < n) : R i j := by
  have hzero : ∀ k < n, R 0 k := by
    intro k hk
    induction k with
    | zero => exact hR.refl 0
    | succ k ih =>
      obtain ⟨a, b, ha, hb, hak, hbk, hab⟩ := hnext k (by omega)
      have hdown : R k a := related_of_modEq hR hstride (by omega) ha hak.symm
      have hup : R b (k + 1) := related_of_modEq hR hstride hb hk hbk
      exact hR.trans (ih (by omega)) (hR.trans hdown (hR.trans hab hup))
  exact hR.trans (hR.symm (hzero i hi)) (hzero j hj)

end Stride

end Testnet.Peering
