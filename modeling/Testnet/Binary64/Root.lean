import Testnet.Binary64.Basic

/-!
# Square roots

The whole part of a square root, exactly and as it comes out when number and root are rounded to 53
bits. The two differ only just below a square of a large number.
-/

namespace Testnet.Binary64

/-- The largest number whose square is at most `n`: the root of a quarter gives all bits but the
last. -/
def wholeRoot (n : Nat) : Nat :=
  if h : n = 0 then 0
  else
    let r := 2 * wholeRoot (n / 4)
    if (r + 1) * (r + 1) ≤ n then r + 1 else r
termination_by n
decreasing_by omega

theorem wholeRoot_bounds (n : Nat) :
    wholeRoot n * wholeRoot n ≤ n ∧ n < (wholeRoot n + 1) * (wholeRoot n + 1) := by
  induction n using Nat.strongRecOn with
  | ind n ih =>
    rw [wholeRoot]
    split
    · subst n; simp
    · next h =>
      obtain ⟨lo, hi⟩ := ih (n / 4) (by omega)
      generalize wholeRoot (n / 4) = q at lo hi
      simp only
      split
      · next hr =>
        refine ⟨hr, ?_⟩
        have : n / 4 + 1 ≤ (q + 1) * (q + 1) := hi
        have e : (2 * q + 1 + 1) * (2 * q + 1 + 1) = 4 * ((q + 1) * (q + 1)) := by grind
        omega
      · next hr =>
        refine ⟨?_, by omega⟩
        have e : 2 * q * (2 * q) = 4 * (q * q) := by grind
        omega

/-- The whole part of the root, taken in double precision. The rounded root is the next number when
the exact one is at least halfway from the magnitude before it. -/
def roundedRoot (n : Nat) : Nat :=
  match Magnitude.ofNat n with
  | none => 0
  | some x =>
    let m := x.ratio.1 / x.ratio.2
    let r := wholeRoot m
    let s := precision - r.log2
    let bound := ((r + 1) <<< s) - 1
    if bound * bound ≤ m <<< (2 * s) then r + 1 else r

end Testnet.Binary64
