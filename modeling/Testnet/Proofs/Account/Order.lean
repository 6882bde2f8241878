import Testnet.Proofs.Account

/-!
# Names of accounts in order

Names are compared letter by letter. Within one pool those that end in one letter come in the order
of their ordinals, and so do those that end in a code. Between the two kinds the order turns around:
a code begins with a letter before the one that all short endings begin with, so every name with a
code comes before every name without one.
-/

namespace Testnet.Account

theorem singleton_letter_lt {a b : Nat} : [letter a] < [letter b] ↔ a % 26 < b % 26 := by
  have hnat : letter a < letter b ↔ (letter a).toNat < (letter b).toNat := Iff.rfl
  rw [List.cons_lt_cons_iff, hnat, toNat_letter, toNat_letter, Nat.add_lt_add_iff_left]
  exact or_iff_left fun h => List.not_lt_nil _ h.2

/-- Fronts of one length decide which of two lists is less, and where they are the same the rests
do. -/
theorem append_lt_append_iff {l l' r r' : List Char} (h : l.length = l'.length) :
    l ++ r < l' ++ r' ↔ l < l' ∨ l = l' ∧ r < r' := by
  induction l generalizing l' with
  | nil =>
    obtain rfl := List.length_eq_zero_iff.mp h.symm
    simp
  | cons c l ih =>
    obtain ⟨c', l', rfl⟩ := List.exists_cons_of_length_eq_add_one h.symm
    have hrest := @ih l' (Nat.succ.inj h)
    rw [List.cons_append, List.cons_append, List.cons_lt_cons_iff, List.cons_lt_cons_iff, hrest,
      List.cons.injEq, and_or_left, or_assoc, and_assoc]

/-- Codes of one width come in the order of the numbers that they are codes of. -/
theorem code_lt_code_iff {width a b : Nat} (ha : a < Nat.pow 26 width)
    (hb : b < Nat.pow 26 width) : code width a < code width b ↔ a < b := by
  rw [Nat.pow_eq] at ha hb
  induction width generalizing a b with
  | zero =>
    rw [Nat.pow_zero] at ha hb
    exact iff_of_false (List.not_lt_nil _) (by omega)
  | succ w ih =>
    have hcode : ∀ n, code (w + 1) n = code w (n / 26) ++ [letter n] := fun _ => rfl
    have hlength : (code w (a / 26)).length = (code w (b / 26)).length := by
      rw [length_code, length_code]
    rw [Nat.pow_succ'] at ha hb
    have hqa := Nat.div_lt_of_lt_mul ha
    have hqb := Nat.div_lt_of_lt_mul hb
    have hsame : code w (a / 26) = code w (b / 26) ↔ a / 26 = b / 26 :=
      ⟨code_injective hqa hqb, congrArg (code w)⟩
    rw [hcode, hcode, append_lt_append_iff hlength, ih hqa hqb, hsame, singleton_letter_lt]
    omega

/-- Endings of one kind come in the order of the ordinals, and codes before single letters. -/
theorem ending_lt_ending_iff {a b : Nat} (ha : a < ordinalLimit) (hb : b < ordinalLimit) :
    ending a < ending b ↔
      (a < letters ↔ b < letters) ∧ a < b ∨ letters ≤ a ∧ b < letters := by
  have hlimit : ordinalLimit = 4294967296 := rfl
  have hletters : letters = 26 := rfl
  have hpow : Nat.pow 26 7 = 8031810176 := rfl
  -- The first letter tells a code from a single letter.
  have hbefore : ∀ {o}, o < ordinalLimit → ∀ n,
      code 7 (o - 25) < ['o', 'd', 'u', 'c', 'e', 'r', letter n] := by
    intro o ho n
    obtain ⟨c, rest, hcode, hlt⟩ := exists_code_eq_cons ho
    rw [hcode]
    exact List.cons_lt_cons_iff.mpr (.inl hlt)
  unfold ending
  by_cases hshort : a < letters <;> by_cases hshort' : b < letters
  case pos =>
    have hfront : ∀ n, ['o', 'd', 'u', 'c', 'e', 'r', letter n] =
        ['o', 'd', 'u', 'c', 'e', 'r'] ++ [letter n] := fun _ => rfl
    rw [if_pos hshort, if_pos hshort', hfront, hfront, append_lt_append_iff rfl,
      singleton_letter_lt, or_iff_right (List.lt_irrefl _), and_iff_right rfl]
    omega
  case neg =>
    rw [if_pos hshort, if_neg hshort']
    exact iff_of_false (List.lt_asymm (hbefore hb a)) (by omega)
  case pos =>
    rw [if_neg hshort, if_pos hshort']
    exact iff_of_true (hbefore ha b) (by omega)
  case neg =>
    rw [if_neg hshort, if_neg hshort', code_lt_code_iff (by omega) (by omega)]
    omega

/-- Which of two names of a pool comes first. -/
theorem name_lt_name_iff (pool : Pool) {a b : Nat} (ha : a < ordinalLimit)
    (hb : b < ordinalLimit) : name pool a < name pool b ↔
      (a < letters ↔ b < letters) ∧ a < b ∨ letters ≤ a ∧ b < letters := by
  rw [String.lt_iff, toList_name, toList_name, append_lt_append_iff rfl,
    or_iff_right (List.lt_irrefl _), and_iff_right rfl, ending_lt_ending_iff ha hb]

/-- A name tells its pool and its ordinal, is a usable one of twelve letters that is not that of the
system account, and shows by its beginning whether it is shared. From the first code on the names
come in the order of the ordinals. -/
theorem name_tells_ordinal (pool pool' : Pool) (a b : UInt32) :
    (name pool a.toNat = name pool' b.toNat ↔ a = b ∧ pool = pool') ∧
    (name pool a.toNat).length = 12 ∧ isValid (name pool a.toNat) = true ∧
    name pool a.toNat ≠ system ∧ (isShared (name pool a.toNat) = true ↔ pool = .shared) ∧
    (26 ≤ a → a < b → name pool a.toNat < name pool b.toNat) := by
  have ha : a.toNat < ordinalLimit := a.toNat_lt_size
  have hb : b.toNat < ordinalLimit := b.toNat_lt_size
  refine ⟨⟨fun h => ?_, ?_⟩, length_name pool _, isValid_name pool _, name_ne_system pool _, ?_,
    fun hcode hlt => ?_⟩
  · obtain ⟨hpool, hordinal⟩ := name_injective ha hb h
    exact ⟨UInt32.toNat_inj.mp hordinal, hpool⟩
  · rintro ⟨rfl, rfl⟩
    rfl
  · rw [isShared_name, decide_eq_true_iff]
  · have hletters : letters ≤ a.toNat := UInt32.le_iff_toNat_le.mp hcode
    have hless : a.toNat < b.toNat := UInt32.lt_iff_toNat_lt.mp hlt
    exact (name_lt_name_iff pool ha hb).mpr (.inl ⟨by omega, hless⟩)

/-- The first two names with a code. -/
theorem name_tells_ordinal_of_codes :
    name .exclusive 26 = "defpraaaaaab" ∧ name .exclusive 27 = "defpraaaaaac" ∧
      "defpraaaaaab" < "defpraaaaaac" := by
  obtain ⟨_, _, _, _, _, hless⟩ := name_tells_ordinal .exclusive .exclusive 26 27
  exact ⟨by decide, by decide, hless (by decide) (by decide)⟩

end Testnet.Account
