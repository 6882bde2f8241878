import Testnet.Json.Literal
import Testnet.Json.Written

/-!
# Literals of whole numbers

A whole number that is written is a literal with digits alone, and what is read back from it is the
number: no other digit follows a leading zero, and zero is written without a sign.
-/

namespace Testnet.Json

/-- Only zero is written with a leading zero. -/
theorem head?_toDigits {n : Nat} (hn : 0 < n) : (Nat.toDigits 10 n).head? ≠ some '0' := by
  induction n using Nat.strongRecOn with
  | ind n ih =>
    by_cases hlt : n < 10
    · rw [Nat.toDigits_of_lt_base hlt]
      have hdigit : ∀ m < 10, 0 < m → Nat.digitChar m ≠ '0' := by decide
      intro h
      exact hdigit n hlt hn (Option.some.inj h)
    · rw [Nat.toDigits_of_base_le (by decide) (Nat.not_lt.mp hlt), List.head?_append]
      have hhead := ih (n / 10) (by omega) (by omega)
      cases hfirst : (Nat.toDigits 10 (n / 10)).head? with
      | none => exact absurd (List.head?_eq_none_iff.mp hfirst) Nat.toDigits_ne_nil
      | some c =>
        rw [hfirst] at hhead
        exact hhead

theorem isDigit_of_mem_toDigits {n : Nat} {c : Char} (h : c ∈ Nat.toDigits 10 n) :
    c.isDigit = true := Nat.isDigit_of_mem_toDigits (by decide) (by decide) h

theorem digitsValue_toDigits (n : Nat) : digitsValue (Nat.toDigits 10 n) = n :=
  Nat.ofDigitChars_ten_toDigits

namespace Literal

/-- The literal that a whole number is written as. -/
def ofInt (n : Int) : Literal := ⟨decide (n < 0), Nat.toDigits 10 n.natAbs, none, none⟩

theorem whole?_toDigits (n : Nat) :
    whole? (Nat.toDigits 10 n) = some (Nat.toDigits 10 n, []) := by
  have htake : (Nat.toDigits 10 n).takeWhile Char.isDigit = Nat.toDigits 10 n := by
    rw [← List.append_nil (Nat.toDigits 10 n),
      List.takeWhile_append_of_pos fun c hc => isDigit_of_mem_toDigits hc]
    rfl
  have hdrop : (Nat.toDigits 10 n).dropWhile Char.isDigit = [] := by
    rw [← List.append_nil (Nat.toDigits 10 n),
      List.dropWhile_append_of_pos fun c hc => isDigit_of_mem_toDigits hc]
    rfl
  have hsome : (Nat.toDigits 10 n).isEmpty = false := by
    rw [List.isEmpty_eq_false_iff]
    exact Nat.toDigits_ne_nil
  have hzero : ¬ ((Nat.toDigits 10 n).head? = some '0' ∧ (Nat.toDigits 10 n).length ≠ 1) := by
    intro hgiven
    obtain ⟨hhead, hlength⟩ := hgiven
    by_cases hn : 0 < n
    · exact head?_toDigits hn hhead
    · have hn0 : n = 0 := by omega
      subst hn0
      exact hlength rfl
  simp only [whole?, digits?, htake, hdrop, hsome, Bool.false_eq_true, if_false,
    Option.bind_eq_bind, Option.bind_some, hzero]

theorem unsigned?_toDigits (negative : Bool) (n : Nat) :
    unsigned? negative (Nat.toDigits 10 n) = some ⟨negative, Nat.toDigits 10 n, none, none⟩ := by
  simp only [unsigned?, whole?_toDigits, Option.bind_eq_bind, Option.bind_some, fraction?,
    exponent?, List.isEmpty_nil, if_true]

/-- A whole number is read as the literal that it is written as. -/
theorem ofList?_writeInt (n : Int) : ofList? (writeInt n) = some (ofInt n) := by
  unfold writeInt writeNat
  split
  case isTrue hn =>
    rw [ofList?, unsigned?_toDigits, ofInt]
    simp only [hn, decide_true]
  case isFalse hn =>
    have hsign :
        ofList? (Nat.toDigits 10 n.natAbs) = unsigned? false (Nat.toDigits 10 n.natAbs) := by
      unfold ofList?
      split
      case h_1 cs heq =>
        have hminus : '-' ∈ Nat.toDigits 10 n.natAbs := by simp [heq]
        exact absurd (isDigit_of_mem_toDigits hminus) (by decide)
      case h_2 => rfl
    rw [hsign, unsigned?_toDigits, ofInt]
    simp only [hn, decide_false]

theorem integer?_ofInt (n : Int) : (ofInt n).integer? = some n := by
  unfold integer? ofInt
  simp only [digitsValue_toDigits, Option.isSome_none, Bool.false_eq_true, or_self, if_false,
    decide_eq_true_eq]
  split
  · rw [if_neg (by omega)]
    exact congrArg some (by omega)
  · exact congrArg some (by omega)

theorem number?_ofInt {n : Int} (hlow : -0x8000000000000000 ≤ n)
    (hhigh : n < (Gathered.limit : Int)) :
    (ofInt n).number? = some (.whole n) := by
  unfold number?
  rw [integer?_ofInt]
  exact if_pos ⟨hlow, hhigh⟩

end Literal

end Testnet.Json
