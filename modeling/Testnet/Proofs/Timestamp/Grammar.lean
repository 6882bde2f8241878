import Mathlib.Data.List.TakeWhile
import Testnet.Proofs.Timestamp

/-!
# What texts say of time

The texts that stand for a timestamp, told apart from how they are read: numbers with blanks before
them, marks between them, and a fraction of any length. Reading finds exactly these. Of all the
texts of a timestamp one is the canonical text, and that is the one which is written.
-/

namespace Testnet.Timestamp

/-- At least one digit, which together are the digits of a number. -/
structure Spells (ds : List Char) (n : Nat) : Prop where
  nonempty : ds ≠ []
  digits : ∀ c ∈ ds, c.isDigit = true
  value : digitsValue ds = n

/-- Blanks, and what stands after them. -/
def AfterBlanks (p : List Char → Prop) (cs : List Char) : Prop :=
  ∃ blanks rest, cs = blanks ++ rest ∧ (∀ c ∈ blanks, Text.isBlank c = true) ∧ p rest

/-- One digit or two, after any blanks. -/
def IsField (cs : List Char) (n : Nat) : Prop :=
  AfterBlanks (fun ds => Spells ds n ∧ ds.length ≤ 2) cs

/-- The digits of a year: up to four, or a sign and any number of them. -/
inductive YearDigits : List Char → Int → Prop where
  | plain {ds : List Char} {n : Nat} : Spells ds n → ds.length ≤ 4 → YearDigits ds n
  | positive {ds : List Char} {n : Nat} : Spells ds n → YearDigits ('+' :: ds) n
  | negative {ds : List Char} {n : Nat} : Spells ds n → YearDigits ('-' :: ds) (-(n : Int))

def IsYear (cs : List Char) (y : Int) : Prop := AfterBlanks (YearDigits · y) cs

/-- A point and the digits of a part of a second, cut down to nanoseconds, or nothing. -/
inductive IsFraction : List Char → Nat → Prop where
  | whole : IsFraction [] 0
  | digits {ds : List Char} {n : Nat} : Spells ds n →
      IsFraction ('.' :: ds) (n * Nat.pow 10 fractionDigits / Nat.pow 10 ds.length)

/-- A text stands for a date and a time of day of the calendar. -/
structure Denotes (s : String) (t : Timestamp) : Prop where
  valid : t.Valid
  parts : ∃ year month day hour minute second fraction : List Char,
    s.toList = year ++ '-' :: month ++ '-' :: day ++ 'T' :: hour ++ ':' :: minute ++ ':' ::
      second ++ fraction ∧
    IsYear year t.year ∧ IsField month t.month ∧ IsField day t.day ∧ IsField hour t.hour ∧
    IsField minute t.minute ∧ IsField second t.second ∧ IsFraction fraction t.nanosecond

/-- The characters after a number, none of which could belong to it. -/
def Ends (rest : List Char) : Prop := ∀ c, rest.head? = some c → c.isDigit = false

theorem ends_nil : Ends [] := nofun

theorem ends_cons {c : Char} {cs : List Char} (h : c.isDigit = false) : Ends (c :: cs) := by
  intro d hd
  cases hd
  exact h

theorem IsFraction.ends {cs : List Char} {n : Nat} (h : IsFraction cs n) : Ends cs := by
  cases h with
  | whole => exact ends_nil
  | digits _ => exact ends_cons rfl

theorem Spells.head {ds : List Char} {n : Nat} (h : Spells ds n) (rest : List Char) :
    ∃ c cs, ds ++ rest = c :: cs ∧ c.isDigit = true := by
  obtain ⟨hne, hdigits, _⟩ := h
  cases ds with
  | nil => exact absurd rfl hne
  | cons c cs => exact ⟨c, cs ++ rest, rfl, hdigits c (List.mem_cons_self ..)⟩

theorem Spells.lt_pow {ds : List Char} {n : Nat} (h : Spells ds n) : n < Nat.pow 10 ds.length := by
  rw [← h.value]
  exact digitsValue_lt h.digits

section Read

variable {width : Option Nat} {cs rest : List Char} {n : Nat}

/-- What is read as a number are digits, and the rest is left. -/
theorem exists_digits (h : readDigits width cs = .ok (n, rest)) : ∃ ds, cs = ds ++ rest ∧
    Spells ds n ∧ (∀ w, width = some w → ds.length ≤ w) ∧ n < numberLimit := by
  obtain ⟨ds, hds, rfl, rfl⟩ := readDigits_eq_ok h
  have hprefix : ds <+: cs := by
    rw [hds]
    refine (List.takeWhile_prefix _).trans ?_
    cases width with
    | none => exact List.prefix_rfl
    | some w => exact List.take_prefix w cs
  rw [readDigits_eq, ← hds] at h
  split at h
  · cases h
  split at h
  · cases h
  case isFalse.isFalse hsome =>
  split at h
  · cases h
  case isFalse hfits =>
  refine ⟨ds, ?_, ⟨?_, fun c hc => ?_, rfl⟩, ?_, Nat.not_le.mp hfits⟩
  · obtain ⟨tail, rfl⟩ := hprefix
    rw [List.drop_left]
  · rwa [List.isEmpty_iff] at hsome
  · rw [hds] at hc
    exact List.all_eq_true.mp List.all_takeWhile c hc
  · rintro w rfl
    have hlength := (List.takeWhile_prefix Char.isDigit (l := scope (some w) cs)).length_le
    rw [← hds, scope, List.length_take] at hlength
    omega

/-- A number is read up to its end. -/
theorem readDigits_eq_ok_iff (hrest : Ends rest) :
    readDigits width cs = .ok (n, rest) ↔ ∃ ds, cs = ds ++ rest ∧ Spells ds n ∧
      (∀ w, width = some w → ds.length ≤ w) ∧ n < numberLimit := by
  refine ⟨exists_digits, fun hgiven => ?_⟩
  obtain ⟨ds, rfl, hds, hwidth, hfits⟩ := hgiven
  have htake : (scope width (ds ++ rest)).takeWhile Char.isDigit = ds := by
    cases width with
    | none => exact takeWhile_isDigit hds.digits hrest
    | some w =>
      rw [scope, List.take_append, List.take_of_length_le (hwidth w rfl)]
      refine takeWhile_isDigit hds.digits fun c hc => hrest c ?_
      rw [List.head?_take] at hc
      split at hc
      · cases hc
      · exact hc
  have hread := readDigits_append hds.nonempty htake (hds.value ▸ hfits)
  rwa [hds.value] at hread

/-- Blanks are passed over, and no blank is left. -/
theorem dropWhile_isBlank (cs : List Char) : ∃ blanks, cs = blanks ++ cs.dropWhile Text.isBlank ∧
    ∀ c ∈ blanks, Text.isBlank c = true :=
  ⟨cs.takeWhile Text.isBlank, List.takeWhile_append_dropWhile.symm,
    List.all_eq_true.mp List.all_takeWhile⟩

theorem dropWhile_isBlank_append {blanks : List Char} {c : Char} {cs : List Char}
    (hblanks : ∀ b ∈ blanks, Text.isBlank b = true) (hc : Text.isBlank c = false) :
    (blanks ++ c :: cs).dropWhile Text.isBlank = c :: cs := by
  rw [List.dropWhile_append_of_pos hblanks, List.dropWhile_cons_of_neg]
  rw [hc]
  exact Bool.false_ne_true

theorem readField_eq_ok_iff {low high : Nat} (hrest : Ends rest) (hhigh : high < 100) :
    readField low high cs = .ok (n, rest) ↔
      low ≤ n ∧ n ≤ high ∧ ∃ field, cs = field ++ rest ∧ IsField field n := by
  have hlimit : numberLimit = 9223372036854775808 := rfl
  constructor
  · intro h
    obtain ⟨hlow, hhigh⟩ := readField_eq_ok h
    obtain ⟨⟨m, tail⟩, hread, hrange⟩ := bind_eq_ok_iff.mp h
    dsimp only at hrange
    split at hrange
    case isFalse => cases hrange
    cases hrange
    obtain ⟨ds, hds, hspells, hwidth, _⟩ := (readDigits_eq_ok_iff hrest).mp hread
    obtain ⟨blanks, hcs, hblanks⟩ := dropWhile_isBlank cs
    refine ⟨hlow, hhigh, blanks ++ ds, ?_, blanks, ds, rfl, hblanks, hspells, hwidth 2 rfl⟩
    rw [List.append_assoc, ← hds]
    exact hcs
  · intro hgiven
    obtain ⟨hlow, hhigh', _, rfl, blanks, ds, rfl, hblanks, hspells, hwidth⟩ := hgiven
    obtain ⟨c, tail, htail, hc⟩ := hspells.head rest
    have hread : readDigits (some 2) (ds ++ rest) = .ok (n, rest) := by
      refine (readDigits_eq_ok_iff hrest).mpr ⟨ds, rfl, hspells, ?_, by omega⟩
      rintro w ⟨⟩
      exact hwidth
    rw [readField, List.append_assoc, htail,
      dropWhile_isBlank_append hblanks (isBlank_of_isDigit hc), ← htail, hread]
    show (if low ≤ n ∧ n ≤ high then _ else _) = _
    rw [if_pos ⟨hlow, hhigh'⟩]

theorem isBlank_sign : Text.isBlank '+' = false ∧ Text.isBlank '-' = false := by decide

/-- A number as a year, which has to fit its word. -/
theorem readDigits_year_eq_ok_iff (sign : Nat → Int) {y : Int} (hrest : Ends rest) :
    ((readDigits width cs).map fun read => (sign read.1, read.2)) >>=
        (fun read => if -yearLimit ≤ read.1 ∧ read.1 < yearLimit then Except.ok read
          else .error .outOfRange) = .ok (y, rest) ↔
      -yearLimit ≤ y ∧ y < yearLimit ∧ ∃ ds n, cs = ds ++ rest ∧ Spells ds n ∧
        (∀ w, width = some w → ds.length ≤ w) ∧ n < numberLimit ∧ sign n = y := by
  rw [bind_eq_ok_iff]
  constructor
  · intro hgiven
    obtain ⟨read, hread, hrange⟩ := hgiven
    obtain ⟨⟨n, tail⟩, hdigits, rfl⟩ := map_eq_ok_iff.mp hread
    split at hrange
    case isFalse => cases hrange
    case isTrue hlimits =>
    cases hrange
    obtain ⟨ds, hds, hspells, hwidth, hfits⟩ := (readDigits_eq_ok_iff hrest).mp hdigits
    exact ⟨hlimits.1, hlimits.2, ds, n, hds, hspells, hwidth, hfits, rfl⟩
  · intro hgiven
    obtain ⟨hlow, hhigh, ds, n, rfl, hspells, hwidth, hfits, rfl⟩ := hgiven
    have hread := (readDigits_eq_ok_iff hrest).mpr ⟨ds, rfl, hspells, hwidth, hfits⟩
    exact ⟨_, map_eq_ok_iff.mpr ⟨_, hread, rfl⟩, if_pos ⟨hlow, hhigh⟩⟩

/-- A year without blanks before it. -/
theorem exists_yearDigits {y : Int} (hrest : Ends rest) (h : readYear cs = .ok (y, rest)) :
    -yearLimit ≤ y ∧ y < yearLimit ∧
      ∃ ds, cs.dropWhile Text.isBlank = ds ++ rest ∧ YearDigits ds y := by
  unfold readYear at h
  split at h
  case h_1 tail hdrop =>
    obtain ⟨hlow, hhigh, ds, n, rfl, hspells, _, _, rfl⟩ :=
      (readDigits_year_eq_ok_iff (fun n => -(n : Int)) hrest).mp h
    exact ⟨hlow, hhigh, '-' :: ds, hdrop, .negative hspells⟩
  case h_2 tail hdrop =>
    obtain ⟨hlow, hhigh, ds, n, rfl, hspells, _, _, rfl⟩ :=
      (readDigits_year_eq_ok_iff (fun n => (n : Int)) hrest).mp h
    exact ⟨hlow, hhigh, '+' :: ds, hdrop, .positive hspells⟩
  case h_3 =>
    obtain ⟨hlow, hhigh, ds, n, hds, hspells, hwidth, _, rfl⟩ :=
      (readDigits_year_eq_ok_iff (fun n => (n : Int)) hrest).mp h
    exact ⟨hlow, hhigh, ds, hds, .plain hspells (hwidth 4 rfl)⟩

/-- The digits of a year are read back, whatever blanks stand before them. -/
theorem readYear_append {y : Int} {blanks ds : List Char} (hrest : Ends rest)
    (hblanks : ∀ c ∈ blanks, Text.isBlank c = true) (hds : YearDigits ds y)
    (hlow : -yearLimit ≤ y) (hhigh : y < yearLimit) :
    readYear (blanks ++ (ds ++ rest)) = .ok (y, rest) := by
  have hyear : yearLimit = 2147483648 := rfl
  have hlimit : numberLimit = 9223372036854775808 := rfl
  cases hds with
  | plain hspells hwidth =>
    obtain ⟨c, tail, htail, hc⟩ := hspells.head rest
    have hread := (readDigits_year_eq_ok_iff (fun n => (n : Int)) hrest).mpr
      ⟨hlow, hhigh, ds, _, rfl, hspells, fun w hw => Option.some.inj hw ▸ hwidth, by omega, rfl⟩
    rw [readYear, htail, dropWhile_isBlank_append hblanks (isBlank_of_isDigit hc)]
    rw [htail] at hread
    split
    case h_1 heq =>
      rw [(List.cons.inj heq).1] at hc
      exact absurd hc (by decide)
    case h_2 heq =>
      rw [(List.cons.inj heq).1] at hc
      exact absurd hc (by decide)
    case h_3 => exact hread
  | positive hspells =>
    rw [readYear, List.cons_append, dropWhile_isBlank_append hblanks isBlank_sign.1]
    exact (readDigits_year_eq_ok_iff (fun n => (n : Int)) hrest).mpr
      ⟨hlow, hhigh, _, _, rfl, hspells, by rintro w ⟨⟩, by omega, rfl⟩
  | negative hspells =>
    rw [readYear, List.cons_append, dropWhile_isBlank_append hblanks isBlank_sign.2]
    exact (readDigits_year_eq_ok_iff (fun n => -(n : Int)) hrest).mpr
      ⟨hlow, hhigh, _, _, rfl, hspells, by rintro w ⟨⟩, by omega, rfl⟩

theorem readYear_eq_ok_iff {y : Int} (hrest : Ends rest) :
    readYear cs = .ok (y, rest) ↔
      -yearLimit ≤ y ∧ y < yearLimit ∧ ∃ year, cs = year ++ rest ∧ IsYear year y := by
  constructor
  · intro h
    obtain ⟨hlow, hhigh, ds, hds, hyear⟩ := exists_yearDigits hrest h
    obtain ⟨blanks, hcs, hblanks⟩ := dropWhile_isBlank cs
    refine ⟨hlow, hhigh, blanks ++ ds, ?_, blanks, ds, rfl, hblanks, hyear⟩
    rw [List.append_assoc, ← hds]
    exact hcs
  · intro hgiven
    obtain ⟨hlow, hhigh, _, rfl, blanks, ds, rfl, hblanks, hyear⟩ := hgiven
    rw [List.append_assoc]
    exact readYear_append hrest hblanks hyear hlow hhigh

theorem digitsValue_append (front back : List Char) : digitsValue (front ++ back) =
    Nat.pow 10 back.length * digitsValue front + digitsValue back := by
  show Nat.ofDigitChars 10 (front ++ back) 0 = _
  rw [Nat.ofDigitChars_append, Nat.ofDigitChars_eq_ofDigitChars_zero]
  rfl

/-- The first digits of a fraction, filled up with zeros, are the fraction cut down. -/
theorem digitsValue_take {ds : List Char} (h : ∀ c ∈ ds, c.isDigit = true) (width : Nat) :
    digitsValue (ds.take width) * Nat.pow 10 (width - (ds.take width).length) =
      digitsValue ds * Nat.pow 10 width / Nat.pow 10 ds.length := by
  simp only [Nat.pow_eq]
  by_cases hshort : ds.length ≤ width
  · rw [List.take_of_length_le hshort]
    obtain ⟨missing, rfl⟩ := Nat.exists_eq_add_of_le hshort
    rw [Nat.add_sub_cancel_left, Nat.pow_add, Nat.mul_comm (10 ^ ds.length), ← Nat.mul_assoc,
      Nat.mul_div_cancel _ (Nat.pow_pos (by decide))]
  · have hlength : (ds.take width).length = width := List.length_take_of_le (by omega)
    have hrest := digitsValue_lt fun c hc => h c (List.mem_of_mem_drop hc (i := width))
    have hsplit := digitsValue_append (ds.take width) (ds.drop width)
    rw [List.take_append_drop] at hsplit
    rw [List.length_drop, Nat.pow_eq] at hsplit hrest
    obtain ⟨more, hmore⟩ := Nat.exists_eq_add_of_le (Nat.le_of_not_le hshort)
    have hcount : ds.length - width = more := by omega
    rw [hcount] at hsplit hrest
    rw [hlength, Nat.sub_self, Nat.pow_zero, Nat.mul_one, hmore, Nat.pow_add,
      Nat.mul_comm (10 ^ width), Nat.mul_div_mul_right _ _ (Nat.pow_pos (by decide)), hsplit,
      Nat.mul_add_div (Nat.pow_pos (by decide)), Nat.div_eq_of_lt hrest, Nat.add_zero]

/-- However many digits a fraction has, it is read to its end. -/
theorem readFraction_digits {ds : List Char} (h : Spells ds n) : readFraction ('.' :: ds) =
    .ok (n * Nat.pow 10 fractionDigits / Nat.pow 10 ds.length, []) := by
  obtain ⟨hne, hdigits, rfl⟩ := h
  have hfront : ∀ c ∈ ds.take fractionDigits, c.isDigit = true := fun c hc =>
    hdigits c (List.mem_of_mem_take hc)
  have hback : (ds.drop fractionDigits).dropWhile Char.isDigit = [] :=
    List.dropWhile_eq_nil_iff.mpr fun c hc => hdigits c (List.mem_of_mem_drop hc)
  have htake : (scope (some fractionDigits) (ds.take fractionDigits ++
      ds.drop fractionDigits)).takeWhile Char.isDigit = ds.take fractionDigits := by
    rw [List.take_append_drop]
    exact List.takeWhile_eq_self_iff.mpr hfront
  have hfew : (ds.take fractionDigits).length ≤ 9 := List.length_take_le ..
  have hfits : digitsValue (ds.take fractionDigits) < numberLimit := by
    refine Nat.lt_of_lt_of_le (digitsValue_lt hfront) ?_
    exact Nat.le_trans (Nat.pow_le_pow_right (by decide) hfew) (by decide)
  have hnonempty : ds.take fractionDigits ≠ [] := by
    rw [ne_eq, List.take_eq_nil_iff, not_or]
    exact ⟨by decide, hne⟩
  have hread := readDigits_append hnonempty htake hfits
  have hlength := congrArg List.length (List.take_append_drop fractionDigits ds)
  rw [List.length_append] at hlength
  have hcount : ds.length - (ds.drop fractionDigits).length = (ds.take fractionDigits).length := by
    omega
  rw [List.take_append_drop] at hread
  rw [readFraction, hread, ok_bind]
  dsimp only
  rw [hback, hcount, digitsValue_take hdigits]

theorem readFraction_eq_ok_iff : readFraction cs = .ok (n, []) ↔ IsFraction cs n := by
  constructor
  · intro h
    have hall := h
    unfold readFraction at h
    split at h
    case h_1 ds =>
      obtain ⟨⟨m, tail⟩, hread, hvalue⟩ := bind_eq_ok_iff.mp h
      have hend : tail.dropWhile Char.isDigit = [] := congrArg Prod.snd (Except.ok.inj hvalue)
      obtain ⟨taken, rfl, htaken, _, _⟩ := exists_digits hread
      have hdigits : ∀ c ∈ taken ++ tail, c.isDigit = true :=
        List.forall_mem_append.mpr ⟨htaken.digits, List.dropWhile_eq_nil_iff.mp hend⟩
      have hspells : Spells (taken ++ tail) (digitsValue (taken ++ tail)) :=
        ⟨List.append_ne_nil_of_left_ne_nil htaken.nonempty tail, hdigits, rfl⟩
      rw [readFraction_digits hspells] at hall
      cases hall
      exact .digits hspells
    case h_2 =>
      cases h
      exact .whole
  · intro h
    cases h with
    | whole => rfl
    | digits hspells => exact readFraction_digits hspells

theorem readMark_eq_ok_iff {mark : Char} : readMark mark cs = .ok rest ↔ cs = mark :: rest := by
  cases cs with
  | nil => exact ⟨nofun, nofun⟩
  | cons c cs =>
    rw [readMark, List.cons.injEq]
    split
    case isTrue heq => rw [Except.ok.injEq]; exact ⟨fun h => ⟨heq, h⟩, And.right⟩
    case isFalse hne => exact ⟨nofun, fun h => absurd h.1 hne⟩

end Read

variable {s : String} {t : Timestamp}

/-- Whatever is read, with a fraction or without, is what the text stands for. -/
theorem denotes_of_readList {fraction : Bool} (h : readList fraction s.toList = .ok t) :
    Denotes s t := by
  refine ⟨valid_of_readList h, ?_⟩
  unfold readList at h
  obtain ⟨⟨year, afterYear⟩, hyear, h⟩ := bind_eq_ok_iff.mp h
  obtain ⟨monthOn, hmark₁, h⟩ := bind_eq_ok_iff.mp h
  obtain ⟨⟨month, afterMonth⟩, hmonth, h⟩ := bind_eq_ok_iff.mp h
  obtain ⟨dayOn, hmark₂, h⟩ := bind_eq_ok_iff.mp h
  obtain ⟨⟨day, afterDay⟩, hday, h⟩ := bind_eq_ok_iff.mp h
  obtain ⟨hourOn, hmark₃, h⟩ := bind_eq_ok_iff.mp h
  obtain ⟨⟨hour, afterHour⟩, hhour, h⟩ := bind_eq_ok_iff.mp h
  obtain ⟨minuteOn, hmark₄, h⟩ := bind_eq_ok_iff.mp h
  obtain ⟨⟨minute, afterMinute⟩, hminute, h⟩ := bind_eq_ok_iff.mp h
  obtain ⟨secondOn, hmark₅, h⟩ := bind_eq_ok_iff.mp h
  obtain ⟨⟨second, fractionOn⟩, hsecond, h⟩ := bind_eq_ok_iff.mp h
  dsimp only at hmark₁ hmark₂ hmark₃ hmark₄ hmark₅ h
  obtain ⟨nanosecond, tail, hfraction, hlast⟩ : ∃ nanosecond tail,
      (tail = [] → IsFraction fractionOn nanosecond) ∧
      (if (!List.isEmpty (α := Char) tail) = true then Except.error Fault.long
        else if isDate ⟨year, month, day, hour, minute, second, nanosecond⟩ = true then
          Except.ok ⟨year, month, day, hour, minute, second, nanosecond⟩
        else Except.error Fault.outOfRange) = .ok t := by
    cases fraction with
    | true =>
      obtain ⟨⟨nanosecond, tail⟩, hnanosecond, h⟩ := bind_eq_ok_iff.mp h
      refine ⟨nanosecond, tail, ?_, h⟩
      rintro rfl
      exact readFraction_eq_ok_iff.mp hnanosecond
    | false =>
      refine ⟨0, fractionOn, ?_, h⟩
      rintro rfl
      exact .whole
  split at hlast
  · cases hlast
  case isFalse hend =>
  have hnil : tail = [] := by simpa using hend
  split at hlast
  case isFalse => cases hlast
  cases hlast
  have hfraction := hfraction hnil
  rw [readMark_eq_ok_iff] at hmark₁ hmark₂ hmark₃ hmark₄ hmark₅
  subst hmark₁ hmark₂ hmark₃ hmark₄ hmark₅
  obtain ⟨_, _, yearText, hs, isYear⟩ := (readYear_eq_ok_iff (ends_cons rfl)).mp hyear
  obtain ⟨_, _, monthText, rfl, isMonth⟩ :=
    (readField_eq_ok_iff (ends_cons rfl) (by decide)).mp hmonth
  obtain ⟨_, _, dayText, rfl, isDay⟩ := (readField_eq_ok_iff (ends_cons rfl) (by decide)).mp hday
  obtain ⟨_, _, hourText, rfl, isHour⟩ :=
    (readField_eq_ok_iff (ends_cons rfl) (by decide)).mp hhour
  obtain ⟨_, _, minuteText, rfl, isMinute⟩ :=
    (readField_eq_ok_iff (ends_cons rfl) (by decide)).mp hminute
  obtain ⟨_, _, secondText, rfl, isSecond⟩ :=
    (readField_eq_ok_iff hfraction.ends (by decide)).mp hsecond
  refine ⟨yearText, monthText, dayText, hourText, minuteText, secondText, fractionOn, ?_, isYear,
    isMonth, isDay, isHour, isMinute, isSecond, hfraction⟩
  rw [hs]
  simp only [List.append_assoc, List.cons_append]

/-- What a text stands for is read from it. -/
theorem readList_of_denotes (h : Denotes s t) : readList true s.toList = .ok t := by
  obtain ⟨hvalid, year, month, day, hour, minute, second, fraction, hs, isYear, isMonth, isDay,
    isHour, isMinute, isSecond, isFraction⟩ := h
  have hyear : yearLimit = 2147483648 := rfl
  have hfirst : firstYear = -262143 := rfl
  have hlast : lastYear = 262142 := rfl
  have hdate := hvalid.date
  simp only [isDate, Bool.and_eq_true, decide_eq_true_eq] at hdate
  obtain ⟨⟨hlow, hhigh⟩, _⟩ := hdate
  rw [hs]
  simp only [List.append_assoc, List.cons_append]
  rw [readList, (readYear_eq_ok_iff (ends_cons rfl)).mpr ⟨by omega, by omega, year, rfl, isYear⟩,
    ok_bind]
  dsimp only
  rw [readMark_cons, ok_bind, (readField_eq_ok_iff (ends_cons rfl) (by decide)).mpr
    ⟨hvalid.month.1, hvalid.month.2, month, rfl, isMonth⟩, ok_bind]
  dsimp only
  rw [readMark_cons, ok_bind, (readField_eq_ok_iff (ends_cons rfl) (by decide)).mpr
    ⟨hvalid.day.1, hvalid.day.2, day, rfl, isDay⟩, ok_bind]
  dsimp only
  rw [readMark_cons, ok_bind, (readField_eq_ok_iff (ends_cons rfl) (by decide)).mpr
    ⟨Nat.zero_le _, hvalid.hour, hour, rfl, isHour⟩, ok_bind]
  dsimp only
  rw [readMark_cons, ok_bind, (readField_eq_ok_iff (ends_cons rfl) (by decide)).mpr
    ⟨Nat.zero_le _, hvalid.minute, minute, rfl, isMinute⟩, ok_bind]
  dsimp only
  rw [readMark_cons, ok_bind, (readField_eq_ok_iff isFraction.ends (by decide)).mpr
    ⟨Nat.zero_le _, hvalid.second, second, rfl, isSecond⟩, ok_bind]
  dsimp only
  rw [if_pos rfl, readFraction_eq_ok_iff.mpr isFraction, ok_bind]
  exact if_pos hvalid.date

/-- Reading finds what a text stands for. -/
theorem ofText_eq_ok_iff : ofText s = .ok t ↔ Denotes s t := by
  constructor
  · intro h
    unfold ofText at h
    split at h
    case h_1 hread =>
      cases h
      exact denotes_of_readList hread
    case h_2 => exact denotes_of_readList h
  · intro h
    rw [ofText, readList_of_denotes h]

/-- As many digits as a place has. -/
structure Fills (width : Nat) (ds : List Char) (n : Nat) : Prop where
  spells : Spells ds n
  length_eq : ds.length = width

/-- A year of four digits stands alone. All others have a sign, and more than four digits only if it
takes more. -/
inductive CanonicalYear : List Char → Int → Prop where
  | plain {ds : List Char} {n : Nat} : Fills 4 ds n → CanonicalYear ds n
  | positive {ds : List Char} {n : Nat} : 9999 < n →
      Fills (max 4 (Nat.toDigits 10 n).length) ds n → CanonicalYear ('+' :: ds) n
  | negative {ds : List Char} {n : Nat} : 0 < n →
      Fills (max 4 (Nat.toDigits 10 n).length) ds n → CanonicalYear ('-' :: ds) (-(n : Int))

/-- The text of a timestamp in which every part fills its place and nothing else stands: two digits
for a month, a day and a part of the time, and always three for the milliseconds. -/
def IsCanonical (s : String) (t : Timestamp) : Prop :=
  ∃ year month day hour minute second fraction : List Char,
    s.toList = year ++ '-' :: month ++ '-' :: day ++ 'T' :: hour ++ ':' :: minute ++ ':' ::
      second ++ '.' :: fraction ∧
    CanonicalYear year t.year ∧ Fills 2 month t.month ∧ Fills 2 day t.day ∧ Fills 2 hour t.hour ∧
    Fills 2 minute t.minute ∧ Fills 2 second t.second ∧ Fills 3 fraction (t.nanosecond / 1000000)

theorem spells_padded (width n : Nat) : Spells (padded width n) n :=
  ⟨padded_ne_nil width n, fun _ => isDigit_of_mem_padded, digitsValue_padded width n⟩

theorem fills_padded {width n : Nat} (hwidth : 0 < width) (h : n < Nat.pow 10 width) :
    Fills width (padded width n) n := ⟨spells_padded width n, length_padded hwidth h⟩

theorem fills_padded_max (n : Nat) : Fills (max 4 (Nat.toDigits 10 n).length) (padded 4 n) n := by
  refine ⟨spells_padded 4 n, ?_⟩
  rw [padded, List.length_append, List.length_replicate]
  omega

theorem canonicalYear_writeYear (y : Int) : CanonicalYear (writeYear y) y := by
  unfold writeYear
  by_cases hplain : 0 ≤ y ∧ y ≤ 9999
  · have hy : (y.toNat : Int) = y := by omega
    rw [if_pos hplain]
    have hyear := CanonicalYear.plain (fills_padded (by decide) (show y.toNat < 10000 by omega))
    rwa [hy] at hyear
  · rw [if_neg hplain]
    by_cases hneg : y < 0
    · have hy : -(y.natAbs : Int) = y := by omega
      have hyear := CanonicalYear.negative (by omega) (fills_padded_max y.natAbs)
      rw [hy] at hyear
      rwa [if_pos hneg]
    · have hy : (y.natAbs : Int) = y := by omega
      have hyear := CanonicalYear.positive (by omega) (fills_padded_max y.natAbs)
      rw [hy] at hyear
      rwa [if_neg hneg]

/-- The text of a timestamp is canonical. -/
theorem isCanonical_text (h : t.Valid) : IsCanonical t.text t := by
  obtain ⟨_, hmonth, hday, hhour, hminute, hsecond, hnanosecond⟩ := h
  have htwo : ∀ {n}, n < 100 → Fills 2 (padded 2 n) n := fun hn => fills_padded (by decide) hn
  refine ⟨writeYear t.year, padded 2 t.month, padded 2 t.day, padded 2 t.hour, padded 2 t.minute,
    padded 2 t.second, padded 3 (t.nanosecond / 1000000), ?_, canonicalYear_writeYear t.year,
    htwo (by omega), htwo (by omega), htwo (by omega), htwo (by omega), htwo (by omega),
    fills_padded (by decide) (show t.nanosecond / 1000000 < 1000 by omega)⟩
  rw [text, String.toList_ofList]
  rfl

/-- Digits of a number that fill the same place are the same. -/
theorem eq_of_ofDigitChars {ds ds' : List Char} {n n' : Nat} (hds : ∀ c ∈ ds, c.isDigit = true)
    (hds' : ∀ c ∈ ds', c.isDigit = true) (hlength : ds.length = ds'.length)
    (h : Nat.ofDigitChars 10 ds n = Nat.ofDigitChars 10 ds' n') : n = n' ∧ ds = ds' := by
  induction ds generalizing ds' n n' with
  | nil =>
    cases ds' with
    | nil => exact ⟨h, rfl⟩
    | cons c cs => cases hlength
  | cons c cs ih =>
    cases ds' with
    | nil => cases hlength
    | cons c' cs' =>
      obtain ⟨hc, hcs⟩ := List.forall_mem_cons.mp hds
      obtain ⟨hc', hcs'⟩ := List.forall_mem_cons.mp hds'
      rw [Nat.ofDigitChars_cons, Nat.ofDigitChars_cons] at h
      obtain ⟨hvalue, hrest⟩ := ih hcs hcs' (Nat.succ.inj hlength) h
      have hrange := Char.isDigit_iff_toNat.mp hc
      have hrange' := Char.isDigit_iff_toNat.mp hc'
      have h0 : '0'.toNat = 48 := rfl
      have h9 : '9'.toNat = 57 := rfl
      have hchar : c = c' := Char.toNat_inj.mp (by omega)
      exact ⟨by omega, by rw [hchar, hrest]⟩

theorem Fills.eq {width n : Nat} {ds ds' : List Char} (h : Fills width ds n)
    (h' : Fills width ds' n) : ds = ds' :=
  (eq_of_ofDigitChars h.spells.digits h'.spells.digits (h.length_eq.trans h'.length_eq.symm)
    (h.spells.value.trans h'.spells.value.symm)).2

theorem CanonicalYear.eq_writeYear {ds : List Char} {y : Int} (h : CanonicalYear ds y) :
    ds = writeYear y := by
  cases h with
  | @plain ds n hds =>
    have hlt : n < Nat.pow 10 4 := hds.length_eq ▸ hds.spells.lt_pow
    have hplain : (0 : Int) ≤ n ∧ (n : Int) ≤ 9999 := by
      have hfour : Nat.pow 10 4 = 10000 := rfl
      omega
    rw [writeYear, if_pos hplain, Int.toNat_natCast]
    exact hds.eq (fills_padded (by decide) hlt)
  | @positive ds n hlong hds =>
    rw [writeYear, if_neg (by omega), if_neg (by omega), Int.natAbs_natCast,
      hds.eq (fills_padded_max n)]
  | @negative ds n hpos hds =>
    rw [writeYear, if_neg (by omega), if_pos (by omega), Int.natAbs_neg, Int.natAbs_natCast,
      hds.eq (fills_padded_max n)]

/-- A timestamp has one canonical text. -/
theorem isCanonical_iff (h : t.Valid) : IsCanonical s t ↔ s = t.text := by
  constructor
  · intro hs
    obtain ⟨year, month, day, hour, minute, second, fraction, hs, hyear, hmonth, hday, hhour,
      hminute, hsecond, hfraction⟩ := hs
    obtain ⟨year', month', day', hour', minute', second', fraction', ht, hyear', hmonth', hday',
      hhour', hminute', hsecond', hfraction'⟩ := isCanonical_text h
    apply String.toList_inj.mp
    rw [hs, ht, hyear.eq_writeYear, hyear'.eq_writeYear, hmonth.eq hmonth', hday.eq hday',
      hhour.eq hhour', hminute.eq hminute', hsecond.eq hsecond', hfraction.eq hfraction']
  · rintro rfl
    exact isCanonical_text h

end Testnet.Timestamp
