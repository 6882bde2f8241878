import Testnet.Genesis.Compose
import Testnet.Proofs.Run

/-!
# Timestamps and their texts

A timestamp that was read is one of the calendar, and so is what a clock shows. Its text is read back
as the same instant down to the millisecond, so writing a timestamp in full is done once and for all.
-/

namespace Testnet

namespace Timestamp

theorem isDigit_of_mem_padded {width n : Nat} {c : Char} (h : c ∈ padded width n) :
    c.isDigit = true := by
  rcases List.mem_append.mp h with h | h
  · rw [(List.mem_replicate.mp h).2]
    rfl
  · exact Nat.isDigit_of_mem_toDigits (by decide) (by decide) h

theorem digitsValue_padded (width n : Nat) : digitsValue (padded width n) = n := by
  show Nat.ofDigitChars 10 (padded width n) 0 = n
  rw [padded, Nat.ofDigitChars_append, Nat.ofDigitChars_replicate_zero, Nat.mul_zero,
    Nat.ofDigitChars_ten_toDigits]

theorem length_padded {width n : Nat} (hwidth : 0 < width) (h : n < Nat.pow 10 width) :
    (padded width n).length = width := by
  have hdigits := (Nat.length_toDigits_le_iff (by decide : 1 < 10) hwidth).mpr h
  rw [padded, List.length_append, List.length_replicate]
  omega

theorem padded_ne_nil (width n : Nat) : padded width n ≠ [] := by
  intro h
  exact Nat.toDigits_ne_nil (List.append_eq_nil_iff.mp h).2

theorem isBlank_of_isDigit {c : Char} (h : c.isDigit = true) : Text.isBlank c = false := by
  obtain ⟨hlow, hhigh⟩ := Char.isDigit_iff_toNat.mp h
  have h0 : '0'.toNat = 48 := rfl
  have h9 : '9'.toNat = 57 := rfl
  simp [Text.isBlank]
  omega

theorem head?_padded (width n : Nat) (rest : List Char) :
    ∃ c cs, padded width n ++ rest = c :: cs ∧ c.isDigit = true := by
  cases hp : padded width n with
  | nil => exact absurd hp (padded_ne_nil width n)
  | cons c cs => exact ⟨c, cs ++ rest, rfl, isDigit_of_mem_padded (hp ▸ List.mem_cons_self ..)⟩

theorem dropWhile_isBlank_padded (width n : Nat) (rest : List Char) :
    (padded width n ++ rest).dropWhile Text.isBlank = padded width n ++ rest := by
  obtain ⟨c, cs, hcs, hc⟩ := head?_padded width n rest
  rw [hcs, List.dropWhile_cons_of_neg]
  rw [isBlank_of_isDigit hc]
  exact Bool.false_ne_true

/-- The characters that a number may take. -/
def scope : Option Nat → List Char → List Char
  | some width, cs => cs.take width
  | none, cs => cs

theorem readDigits_eq (width : Option Nat) (cs : List Char) :
    readDigits width cs =
      if cs.isEmpty then .error .short
      else if ((scope width cs).takeWhile Char.isDigit).isEmpty then .error .invalid
      else if numberLimit ≤ digitsValue ((scope width cs).takeWhile Char.isDigit) then
        .error .outOfRange
      else .ok (digitsValue ((scope width cs).takeWhile Char.isDigit),
        cs.drop ((scope width cs).takeWhile Char.isDigit).length) := by
  cases width <;> rfl

theorem readDigits_append {width : Option Nat} {ds rest : List Char} (hne : ds ≠ [])
    (htake : (scope width (ds ++ rest)).takeWhile Char.isDigit = ds)
    (hfits : digitsValue ds < numberLimit) :
    readDigits width (ds ++ rest) = .ok (digitsValue ds, rest) := by
  have hsome : (ds ++ rest).isEmpty = false := by simp [hne]
  have hdigits : ds.isEmpty = false := by simp [hne]
  rw [readDigits_eq, htake, hsome, hdigits, if_neg Bool.false_ne_true, if_neg Bool.false_ne_true,
    if_neg (Nat.not_le.mpr hfits), List.drop_left]

/-- The digits that a text begins with, up to a character that is none. -/
theorem takeWhile_isDigit {ds rest : List Char} (hds : ∀ c ∈ ds, c.isDigit = true)
    (hrest : ∀ c, rest.head? = some c → c.isDigit = false) :
    (ds ++ rest).takeWhile Char.isDigit = ds := by
  rw [List.takeWhile_append_of_pos hds]
  cases rest with
  | nil => exact List.append_nil ds
  | cons c cs =>
    rw [List.takeWhile_cons_of_neg, List.append_nil]
    rw [hrest c rfl]
    exact Bool.false_ne_true

/-- A number of a given width is read without looking further. -/
theorem readDigits_padded {width n : Nat} {rest : List Char} (hwidth : 0 < width)
    (h : n < Nat.pow 10 width) (hfits : n < numberLimit) :
    readDigits (some width) (padded width n ++ rest) = .ok (n, rest) := by
  have htake : (scope (some width) (padded width n ++ rest)).takeWhile Char.isDigit =
      padded width n := by
    have hall := @takeWhile_isDigit (padded width n) [] (fun c hc => isDigit_of_mem_padded hc)
      (fun c hc => by cases hc)
    rw [List.append_nil] at hall
    rw [scope, List.take_left' (length_padded hwidth h), hall]
  have hread := readDigits_append (padded_ne_nil width n) htake
    (by rw [digitsValue_padded]; exact hfits)
  rw [hread, digitsValue_padded]

/-- A number of any length is read up to a character that is no digit. -/
theorem readDigits_none_padded {width n : Nat} {rest : List Char} (hfits : n < numberLimit)
    (hrest : ∀ c, rest.head? = some c → c.isDigit = false) :
    readDigits none (padded width n ++ rest) = .ok (n, rest) := by
  have htake : (scope none (padded width n ++ rest)).takeWhile Char.isDigit = padded width n :=
    takeWhile_isDigit (fun c hc => isDigit_of_mem_padded hc) hrest
  have hread := readDigits_append (padded_ne_nil width n) htake
    (by rw [digitsValue_padded]; exact hfits)
  rw [hread, digitsValue_padded]

theorem readField_padded {low high n : Nat} {rest : List Char} (hlow : low ≤ n) (hhigh : n ≤ high)
    (hwidth : high < 100) : readField low high (padded 2 n ++ rest) = .ok (n, rest) := by
  have hlimit : numberLimit = 9223372036854775808 := rfl
  rw [readField, dropWhile_isBlank_padded,
    readDigits_padded (by decide) (show n < 100 by omega) (by omega)]
  show (if low ≤ n ∧ n ≤ high then _ else _) = _
  rw [if_pos ⟨hlow, hhigh⟩]

/-- Years are read back with and without a sign. -/
theorem readYear_writeYear {y : Int} {rest : List Char} (hlow : firstYear ≤ y)
    (hhigh : y ≤ lastYear) : readYear (writeYear y ++ '-' :: rest) = .ok (y, '-' :: rest) := by
  have hfirst : firstYear = -262143 := rfl
  have hlast : lastYear = 262142 := rfl
  have hyear : yearLimit = 2147483648 := rfl
  have hlimit : numberLimit = 9223372036854775808 := rfl
  have hstop : ∀ c, ('-' :: rest).head? = some c → c.isDigit = false := by
    intro c hc
    cases hc
    rfl
  have hrange : -yearLimit ≤ y ∧ y < yearLimit := by omega
  unfold writeYear
  by_cases hplain : 0 ≤ y ∧ y ≤ 9999
  · have hread := @readDigits_padded 4 y.toNat ('-' :: rest) (by decide)
      (show y.toNat < 10000 by omega) (by omega)
    have hy : (y.toNat : Int) = y := by omega
    obtain ⟨c, cs, hcs, hc⟩ := head?_padded 4 y.toNat ('-' :: rest)
    rw [if_pos hplain, readYear, dropWhile_isBlank_padded]
    rw [hcs] at hread ⊢
    split
    case h_1 heq =>
      rw [(List.cons.inj heq).1] at hc
      exact absurd hc (by decide)
    case h_2 heq =>
      rw [(List.cons.inj heq).1] at hc
      exact absurd hc (by decide)
    case h_3 =>
      rw [hread, ok_map, ok_bind]
      dsimp only
      rw [hy, if_pos hrange]
  · have hread := @readDigits_none_padded 4 y.natAbs ('-' :: rest) (by omega) hstop
    rw [if_neg hplain]
    by_cases hneg : y < 0
    · have hy : -(y.natAbs : Int) = y := by omega
      rw [if_pos hneg, readYear]
      show (((readDigits none (padded 4 y.natAbs ++ '-' :: rest)).map _) >>= _) = _
      rw [hread, ok_map, ok_bind]
      dsimp only
      rw [hy, if_pos hrange]
    · have hy : (y.natAbs : Int) = y := by omega
      rw [if_neg hneg, readYear]
      show (((readDigits none (padded 4 y.natAbs ++ '-' :: rest)).map _) >>= _) = _
      rw [hread, ok_map, ok_bind]
      dsimp only
      rw [hy, if_pos hrange]

/-- A timestamp whose parts are in their ranges and whose day is one of the calendar. -/
structure Valid (t : Timestamp) : Prop where
  date : t.isDate = true
  month : 1 ≤ t.month ∧ t.month ≤ 12
  day : 1 ≤ t.day ∧ t.day ≤ 31
  hour : t.hour ≤ 23
  minute : t.minute ≤ 59
  second : t.second ≤ 60
  nanosecond : t.nanosecond < 1000000000

/-- The timestamp down to the millisecond. -/
def floor (t : Timestamp) : Timestamp :=
  { t with nanosecond := t.nanosecond / 1000000 * 1000000 }

theorem text_floor (t : Timestamp) : t.floor.text = t.text := by
  have hns : t.nanosecond / 1000000 * 1000000 / 1000000 = t.nanosecond / 1000000 := by omega
  simp only [text, writeList, floor, hns]

theorem Valid.floor {t : Timestamp} (h : t.Valid) : t.floor.Valid := by
  obtain ⟨date, month, day, hour, minute, second, nanosecond⟩ := h
  refine ⟨date, month, day, hour, minute, second, ?_⟩
  show t.nanosecond / 1000000 * 1000000 < 1000000000
  omega

/-- Going on by days stays in the calendar. A year takes at least twelve times four weeks. -/
theorem dateAfter_bounds (y : Int) (month days : Nat) (hmonth : 1 ≤ month ∧ month ≤ 12) :
    let (y', month', day) := dateAfter y month days
    (y ≤ y' ∧ 336 * (y' - y) + 28 * month' ≤ 28 * month + days) ∧
      (1 ≤ month' ∧ month' ≤ 12) ∧ 1 ≤ day ∧ day ≤ daysIn y' month' := by
  fun_induction dateAfter y month days with
  | case1 y month days hdays => exact ⟨⟨Int.le_refl y, by omega⟩, hmonth, by omega, by omega⟩
  | case2 y month days hdays hlast ih =>
    have hbounds := daysIn_bounds y month
    obtain ⟨⟨hyear, hlength⟩, hrest⟩ := ih (by omega)
    exact ⟨⟨hyear, by omega⟩, hrest⟩
  | case3 y month days hdays hlast ih =>
    have hbounds := daysIn_bounds y month
    obtain ⟨⟨hyear, hlength⟩, hrest⟩ := ih (by omega)
    exact ⟨⟨by omega, by omega⟩, hrest⟩

/-- What a clock shows is a timestamp of the calendar, for more than two hundred thousand years. -/
theorem valid_ofSeconds {seconds nanoseconds : Nat} (hseconds : seconds < 7000000000000)
    (hnanoseconds : nanoseconds < 1000000000) : (ofSeconds seconds nanoseconds).Valid := by
  have hfirst : firstYear = -262143 := rfl
  have hlast : lastYear = 262142 := rfl
  have hepoch : epochYear = 1970 := rfl
  have hdate := dateAfter_bounds epochYear 1 (seconds / 86400) (by decide)
  generalize hat : dateAfter epochYear 1 (seconds / 86400) = date at hdate
  obtain ⟨year, month, day⟩ := date
  obtain ⟨⟨hyear, hlength⟩, hmonth, hday, hdays⟩ := hdate
  have hbounds := daysIn_bounds year month
  have hcalendar : firstYear ≤ year ∧ year ≤ lastYear := by omega
  rw [ofSeconds, hat]
  exact {
    date := by simp [isDate, hcalendar, hdays]
    month := hmonth
    day := ⟨hday, Nat.le_trans hdays hbounds.2⟩
    hour := by dsimp only; omega
    minute := by dsimp only; omega
    second := by dsimp only; omega
    nanosecond := hnanoseconds }
example : ofSeconds 1709251199 987654321 = ⟨2024, 2, 29, 23, 59, 59, 987654321⟩ := by
  decide +kernel

theorem readFraction_padded {n : Nat} (h : n < 1000) :
    readFraction ('.' :: padded 3 n) = .ok (n * 1000000, []) := by
  have hlimit : numberLimit = 9223372036854775808 := rfl
  have hlength := @length_padded 3 n (by decide) h
  have htake : (scope (some fractionDigits) (padded 3 n ++ [])).takeWhile Char.isDigit =
      padded 3 n := by
    have hall := @takeWhile_isDigit (padded 3 n) [] (fun c hc => isDigit_of_mem_padded hc)
      (fun c hc => by cases hc)
    have hnine : fractionDigits = 9 := rfl
    rw [scope, List.take_of_length_le, hall]
    rw [List.append_nil, hlength, hnine]
    decide
  have hread := readDigits_append (padded_ne_nil 3 n) htake
    (by rw [digitsValue_padded]; omega)
  rw [List.append_nil, digitsValue_padded] at hread
  rw [readFraction, hread, ok_bind]
  dsimp only
  rw [hlength]
  rfl

theorem readMark_cons (mark : Char) (cs : List Char) : readMark mark (mark :: cs) = .ok cs :=
  if_pos rfl

/-- The text of a timestamp is read back down to the millisecond. -/
theorem readList_writeList {t : Timestamp} (h : t.Valid) :
    readList true t.writeList = .ok t.floor := by
  obtain ⟨date, ⟨hmonth, hmonth'⟩, ⟨hday, hday'⟩, hhour, hminute, hsecond, hnanosecond⟩ := h
  have hdate := date
  simp only [isDate, Bool.and_eq_true, decide_eq_true_eq] at hdate
  obtain ⟨⟨hlow, hhigh⟩, _⟩ := hdate
  have hns : t.nanosecond / 1000000 < 1000 := by omega
  have hdate' : isDate t.floor = true := date
  simp only [writeList, List.append_assoc, List.cons_append]
  rw [readList, readYear_writeYear hlow hhigh, ok_bind]
  dsimp only
  rw [readMark_cons, ok_bind, readField_padded hmonth hmonth' (by decide), ok_bind]
  dsimp only
  rw [readMark_cons, ok_bind, readField_padded hday hday' (by decide), ok_bind]
  dsimp only
  rw [readMark_cons, ok_bind, readField_padded (Nat.zero_le _) hhour (by decide), ok_bind]
  dsimp only
  rw [readMark_cons, ok_bind, readField_padded (Nat.zero_le _) hminute (by decide), ok_bind]
  dsimp only
  rw [readMark_cons, ok_bind, readField_padded (Nat.zero_le _) hsecond (by decide), ok_bind]
  dsimp only
  rw [if_pos rfl, readFraction_padded hns, ok_bind]
  exact if_pos hdate'

theorem digitsValue_lt {ds : List Char} (hds : ∀ c ∈ ds, c.isDigit = true) :
    digitsValue ds < Nat.pow 10 ds.length := by
  have hfold : ∀ n, Nat.ofDigitChars 10 ds n < Nat.pow 10 ds.length * (n + 1) := by
    intro n
    rw [Nat.pow_eq]
    induction ds generalizing n with
    | nil => simp
    | cons c ds ih =>
      have hc := Char.isDigit_iff_toNat.mp (hds c (List.mem_cons_self ..))
      have h0 : '0'.toNat = 48 := rfl
      have h9 : '9'.toNat = 57 := rfl
      have hrest := ih (fun d hd => hds d (List.mem_cons_of_mem c hd))
        (10 * n + (c.toNat - '0'.toNat))
      rw [Nat.ofDigitChars_cons]
      refine Nat.lt_of_lt_of_le hrest ?_
      rw [List.length_cons, Nat.pow_succ, Nat.mul_assoc]
      exact Nat.mul_le_mul_left _ (by omega)
  have h := hfold 0
  rwa [Nat.mul_one] at h

theorem readDigits_eq_ok {width : Option Nat} {cs rest : List Char} {n : Nat}
    (h : readDigits width cs = .ok (n, rest)) :
    ∃ ds, ds = (scope width cs).takeWhile Char.isDigit ∧ n = digitsValue ds ∧
      rest = cs.drop ds.length := by
  rw [readDigits_eq] at h
  refine ⟨_, rfl, ?_⟩
  split at h
  · cases h
  split at h
  · cases h
  split at h
  · cases h
  cases h
  exact ⟨rfl, rfl⟩

theorem readField_eq_ok {low high n : Nat} {cs rest : List Char}
    (h : readField low high cs = .ok (n, rest)) : low ≤ n ∧ n ≤ high := by
  obtain ⟨⟨m, tail⟩, _, hrange⟩ := bind_eq_ok_iff.mp h
  dsimp only at hrange
  split at hrange
  · cases hrange
    assumption
  · cases hrange

theorem readFraction_eq_ok {n : Nat} {cs rest : List Char}
    (h : readFraction cs = .ok (n, rest)) : n < Nat.pow 10 fractionDigits := by
  unfold readFraction at h
  split at h
  case h_1 ds =>
    obtain ⟨⟨m, tail⟩, hread, hvalue⟩ := bind_eq_ok_iff.mp h
    obtain ⟨taken, htaken, rfl, htail⟩ := readDigits_eq_ok hread
    cases hvalue
    have hdigits : ∀ c ∈ taken, c.isDigit = true := by
      intro c hc
      rw [htaken] at hc
      exact List.all_eq_true.mp List.all_takeWhile c hc
    have hlength : taken.length ≤ fractionDigits ∧ taken.length ≤ ds.length := by
      have hwhile :=
        (List.takeWhile_prefix Char.isDigit (l := scope (some fractionDigits) ds)).length_le
      rw [← htaken, scope, List.length_take] at hwhile
      omega
    have hlt := digitsValue_lt hdigits
    have hread : ds.length - tail.length = taken.length := by
      rw [htail, List.length_drop]
      omega
    rw [hread]
    obtain ⟨missing, hmissing⟩ := Nat.le.dest hlength.1
    rw [Nat.pow_eq] at hlt ⊢
    rw [← hmissing, Nat.add_sub_cancel_left, Nat.pow_eq, Nat.pow_add]
    exact Nat.mul_lt_mul_of_pos_right hlt (Nat.pow_pos (by decide))
  case h_2 =>
    cases h
    decide

/-- Whatever is read is a timestamp of the calendar. -/
theorem valid_of_readList {fraction : Bool} {cs : List Char} {t : Timestamp}
    (h : readList fraction cs = .ok t) : t.Valid := by
  unfold readList at h
  obtain ⟨⟨year, _⟩, _, h⟩ := bind_eq_ok_iff.mp h
  obtain ⟨_, _, h⟩ := bind_eq_ok_iff.mp h
  obtain ⟨⟨month, _⟩, hmonth, h⟩ := bind_eq_ok_iff.mp h
  obtain ⟨_, _, h⟩ := bind_eq_ok_iff.mp h
  obtain ⟨⟨day, _⟩, hday, h⟩ := bind_eq_ok_iff.mp h
  obtain ⟨_, _, h⟩ := bind_eq_ok_iff.mp h
  obtain ⟨⟨hour, _⟩, hhour, h⟩ := bind_eq_ok_iff.mp h
  obtain ⟨_, _, h⟩ := bind_eq_ok_iff.mp h
  obtain ⟨⟨minute, _⟩, hminute, h⟩ := bind_eq_ok_iff.mp h
  obtain ⟨_, _, h⟩ := bind_eq_ok_iff.mp h
  obtain ⟨⟨second, _⟩, hsecond, h⟩ := bind_eq_ok_iff.mp h
  dsimp only at h
  obtain ⟨nanosecond, tail, hfraction, hlast⟩ : ∃ nanosecond tail,
      nanosecond < 1000000000 ∧
      (if (!List.isEmpty (α := Char) tail) = true then Except.error Fault.long
        else if isDate ⟨year, month, day, hour, minute, second, nanosecond⟩ = true then
          Except.ok ⟨year, month, day, hour, minute, second, nanosecond⟩
        else Except.error Fault.outOfRange) = .ok t := by
    cases fraction with
    | true =>
      obtain ⟨⟨nanosecond, tail⟩, hnanosecond, h⟩ := bind_eq_ok_iff.mp h
      exact ⟨nanosecond, tail, readFraction_eq_ok hnanosecond, h⟩
    | false => exact ⟨0, _, by decide, h⟩
  split at hlast
  · cases hlast
  split at hlast
  case isTrue hdate =>
    cases hlast
    exact ⟨hdate, readField_eq_ok hmonth, readField_eq_ok hday, (readField_eq_ok hhour).2,
      (readField_eq_ok hminute).2, (readField_eq_ok hsecond).2, hfraction⟩
  case isFalse => cases hlast

theorem valid_of_ofText {s : String} {t : Timestamp} (h : ofText s = .ok t) : t.Valid := by
  unfold ofText at h
  split at h
  case h_1 hread =>
    cases h
    exact valid_of_readList hread
  case h_2 => exact valid_of_readList h

/-- Writing and reading a timestamp cuts it down to the millisecond. -/
theorem ofText_text {t : Timestamp} (h : t.Valid) : ofText t.text = .ok t.floor := by
  rw [ofText, text, String.toList_ofList, readList_writeList h]

end Timestamp

namespace Genesis

/-- A timestamp that has been written out in full stays as it is. -/
theorem normalTimestamp_idem {s t : String} (h : normalTimestamp s = .ok t) :
    normalTimestamp t = .ok t := by
  unfold normalTimestamp at h
  split at h
  case h_1 stamp hstamp =>
    cases h
    rw [normalTimestamp, Timestamp.ofText_text (Timestamp.valid_of_ofText hstamp)]
    dsimp only
    rw [Timestamp.text_floor]
  case h_2 => cases h

end Genesis

end Testnet
