import Testnet.Account

/-!
# Names of accounts

Different ordinals have different names, in one pool and across pools, as far as ordinals fit their
word: the code of the last ordinal still begins with a letter before the one that all short endings
begin with. Every name is a usable one.
-/

namespace Testnet.Account

theorem toNat_letter (n : Nat) : (letter n).toNat = 97 + n % 26 := by
  have hcases : ∀ m < 26, (Char.ofNat (97 + m)).toNat = 97 + m := by decide
  exact hcases (n % 26) (Nat.mod_lt n (by decide))

theorem letter_inj {a b : Nat} : letter a = letter b ↔ a % 26 = b % 26 := by
  constructor
  · intro h
    have hnat := congrArg Char.toNat h
    rw [toNat_letter, toNat_letter] at hnat
    omega
  · intro h
    unfold letter letters
    rw [h]

theorem isNameChar_letter (n : Nat) : isNameChar (letter n) = true := by
  have hcases : ∀ m < 26, isNameChar (Char.ofNat (97 + m)) = true := by decide
  exact hcases (n % 26) (Nat.mod_lt n (by decide))

theorem letter_ne_dot (n : Nat) : letter n ≠ '.' := by
  intro h
  have hnat := congrArg Char.toNat h
  rw [toNat_letter] at hnat
  have hdot : '.'.toNat = 46 := rfl
  omega

/-- A code determines the number that it is a code of. -/
theorem code_injective {width a b : Nat} (ha : a < Nat.pow 26 width) (hb : b < Nat.pow 26 width)
    (h : code width a = code width b) : a = b := by
  rw [Nat.pow_eq] at ha hb
  induction width generalizing a b with
  | zero => omega
  | succ w ih =>
    obtain ⟨hfront, hlast⟩ := List.append_inj' h rfl
    rw [Nat.pow_succ'] at ha hb
    have hquot : a / 26 = b / 26 :=
      ih (Nat.div_lt_of_lt_mul ha) (Nat.div_lt_of_lt_mul hb) hfront
    have hrem := letter_inj.mp (List.cons.inj hlast).1
    omega

/-- A code begins with the letter of its leading digit. -/
theorem head?_code (width n : Nat) :
    (code (width + 1) n).head? = some (letter (n / Nat.pow 26 width)) := by
  rw [Nat.pow_eq]
  induction width generalizing n with
  | zero => simp [code]
  | succ w ih =>
    have hcode : code (w + 2) n = code (w + 1) (n / 26) ++ [letter n] := rfl
    rw [hcode, List.head?_append, ih, Nat.div_div_eq_div_mul, ← Nat.pow_succ']
    rfl

/-- The code of an ordinal begins with one of the first fourteen letters; the short endings begin with
the fifteenth. -/
theorem exists_code_eq_cons {ordinal : Nat} (h : ordinal < ordinalLimit) :
    ∃ c rest, code 7 (ordinal - 25) = c :: rest ∧ c.toNat < 'o'.toNat := by
  have hlimit : ordinalLimit = 4294967296 := rfl
  have hpow : Nat.pow 26 6 = 308915776 := rfl
  have ho : 'o'.toNat = 111 := rfl
  obtain ⟨rest, hrest⟩ := List.head?_eq_some_iff.mp (head?_code 6 (ordinal - 25))
  refine ⟨_, rest, hrest, ?_⟩
  rw [toNat_letter, hpow]
  omega

theorem ending_injective {a b : Nat} (ha : a < ordinalLimit) (hb : b < ordinalLimit)
    (h : ending a = ending b) : a = b := by
  have hlimit : ordinalLimit = 4294967296 := rfl
  have hletters : letters = 26 := rfl
  have hfirst : ∀ {n}, n < ordinalLimit → (code 7 (n - 25)).head? ≠ some 'o' := by
    intro n hn hhead
    obtain ⟨c, rest, hcode, hlt⟩ := exists_code_eq_cons hn
    rw [hcode, List.head?_cons, Option.some.injEq] at hhead
    rw [hhead] at hlt
    exact Nat.lt_irrefl _ hlt
  unfold ending at h
  split at h
  · split at h
    · simp only [List.cons.injEq, true_and, and_true] at h
      have hlast := letter_inj.mp h
      omega
    · exact absurd (h ▸ rfl) (hfirst hb)
  · split at h
    · exact absurd (h ▸ rfl) (hfirst ha)
    · have hpow : Nat.pow 26 7 = 8031810176 := rfl
      have hcode := code_injective (by omega) (by omega) h
      omega

theorem toList_name (pool : Pool) (ordinal : Nat) :
    (name pool ordinal).toList = stem pool ++ ending ordinal := String.toList_ofList

theorem name_injective {pool pool' : Pool} {a b : Nat} (ha : a < ordinalLimit)
    (hb : b < ordinalLimit) (h : name pool a = name pool' b) : pool = pool' ∧ a = b := by
  have hlist := congrArg String.toList h
  rw [toList_name, toList_name] at hlist
  have hlength : (stem pool).length = (stem pool').length := by cases pool <;> cases pool' <;> rfl
  obtain ⟨hstem, hending⟩ := List.append_inj hlist hlength
  refine ⟨?_, ending_injective ha hb hending⟩
  cases pool <;> cases pool' <;> first | rfl | simp [stem] at hstem

theorem length_name (pool : Pool) (ordinal : Nat) : (name pool ordinal).toList.length = 12 := by
  rw [toList_name, List.length_append, length_ending]
  cases pool <;> rfl

/-- Only texts of twelve characters are names in a pool. -/
theorem name_ne_of_length {account : String} (h : account.toList.length ≠ 12) (pool : Pool)
    (ordinal : Nat) : name pool ordinal ≠ account := by
  rintro rfl
  exact h (length_name pool ordinal)

theorem name_ne_system (pool : Pool) (ordinal : Nat) : name pool ordinal ≠ system :=
  name_ne_of_length (by decide) pool ordinal

theorem isExclusive_name (pool : Pool) (ordinal : Nat) :
    isExclusive (name pool ordinal) = decide (pool = .exclusive) := by
  have hne : (name pool ordinal != system) = true := by simp [name_ne_system]
  rw [isExclusive, isShared_name, hne]
  cases pool <;> rfl

theorem isNameChar_of_mem_code {width n : Nat} {c : Char} (h : c ∈ code width n) :
    isNameChar c = true := by
  induction width generalizing n with
  | zero => cases h
  | succ w ih =>
    rcases List.mem_append.mp h with hc | hc
    · exact ih hc
    · rw [List.mem_singleton.mp hc]
      exact isNameChar_letter n

theorem isNameChar_of_mem_ending {ordinal : Nat} {c : Char} (h : c ∈ ending ordinal) :
    isNameChar c = true := by
  unfold ending at h
  split at h
  · have hsix : ['o', 'd', 'u', 'c', 'e', 'r'].all isNameChar = true := rfl
    have hsplit : c ∈ ['o', 'd', 'u', 'c', 'e', 'r'] ++ [letter ordinal] := h
    rcases List.mem_append.mp hsplit with hc | hc
    · exact List.all_eq_true.mp hsix c hc
    · rw [List.mem_singleton.mp hc]
      exact isNameChar_letter ordinal
  · exact isNameChar_of_mem_code h

theorem getLast?_ending (ordinal : Nat) : ∃ n, (ending ordinal).getLast? = some (letter n) := by
  unfold ending
  split
  · exact ⟨ordinal, rfl⟩
  · exact ⟨ordinal - 25, List.getLast?_concat⟩

theorem isValid_iff {account : String} :
    isValid account = true ↔
      account.toList ≠ [] ∧ account.toList.length ≤ 12 ∧
        (∀ c ∈ account.toList, isNameChar c = true) ∧ account.toList.getLast? ≠ some '.' := by
  simp [isValid, and_assoc]

/-- Every name that is given out is a usable one. -/
theorem isValid_name (pool : Pool) (ordinal : Nat) : isValid (name pool ordinal) = true := by
  have hlength := length_name pool ordinal
  rw [isValid_iff]
  refine ⟨?_, by omega, ?_, ?_⟩
  · intro h
    rw [h] at hlength
    cases hlength
  · intro c hc
    rw [toList_name] at hc
    rcases List.mem_append.mp hc with hc | hc
    · have hstem : (stem pool).all isNameChar = true := by cases pool <;> rfl
      exact List.all_eq_true.mp hstem c hc
    · exact isNameChar_of_mem_ending hc
  · obtain ⟨n, hn⟩ := getLast?_ending ordinal
    rw [toList_name, List.getLast?_append, hn, Option.some_or, ne_eq, Option.some.injEq]
    exact letter_ne_dot n

theorem isValid_system : isValid system = true := by
  decide

theorem isExclusive_system : isExclusive system = false := by
  simp [isExclusive]

end Testnet.Account
