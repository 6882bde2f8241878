/-!
# Arithmetic that leaves its word

Counts and ports are words of fixed width. A sum or product that does not fit is a fault of the
computation, kept apart from every rejection of an input.
-/

namespace Testnet

/-- The operation whose result did not fit. -/
inductive Overflow where
  | add
  | multiply
deriving DecidableEq, Repr

namespace Overflow

def message : Overflow → String
  | add => "attempt to add with overflow"
  | multiply => "attempt to multiply with overflow"

end Overflow

/-- Why a computation that can refuse its input ended: it did refuse, or a result did not fit. -/
inductive Stop (ε : Type) where
  | refused (why : ε)
  | overflow (what : Overflow)
deriving DecidableEq, Repr

/-- Number of values of a count. -/
def countLimit : Nat := UInt64.size

/-- The sum of two counts, if it is a count. -/
def addCounts (a b : Nat) : Except Overflow Nat :=
  if a + b < countLimit then .ok (a + b) else .error .add

/-- The product of two counts, if it is a count. -/
def multiplyCounts (a b : Nat) : Except Overflow Nat :=
  if a * b < countLimit then .ok (a * b) else .error .multiply

theorem addCounts_eq_ok_iff {a b c : Nat} :
    addCounts a b = .ok c ↔ a + b < countLimit ∧ c = a + b := by
  unfold addCounts
  split <;> simp only [Except.ok.injEq, reduceCtorEq, false_iff] <;> omega

theorem addCounts_eq_error_iff {a b : Nat} {what : Overflow} :
    addCounts a b = .error what ↔ countLimit ≤ a + b ∧ what = .add := by
  unfold addCounts
  split
  case isTrue hfits =>
    exact ⟨nofun, fun h => absurd h.1 (Nat.not_le.mpr hfits)⟩
  case isFalse hfits =>
    rw [Except.error.injEq, and_iff_right (Nat.not_lt.mp hfits), eq_comm]

end Testnet
