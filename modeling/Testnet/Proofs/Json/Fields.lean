import Testnet.Proofs.Json.Decode

/-!
# The last field of a name

Of several fields of one name the last one counts where values are kept: sorting leaves it, and
keeping the values of an object keeps what it says under a name.
-/

namespace Testnet.Json

/-- What the last field of a name says. -/
def last? {κ α : Type} [BEq κ] (fields : List (κ × α)) (key : κ) : Option α :=
  fields.reverse.lookup key

section Last

variable {κ α : Type} [BEq κ]

theorem last?_append (first second : List (κ × α)) (key : κ) :
    last? (first ++ second) key = (last? second key).or (last? first key) := by
  rw [last?, List.reverse_append, List.lookup_append]
  rfl

theorem last?_cons (k : κ) (a : α) (rest : List (κ × α)) (key : κ) :
    last? ((k, a) :: rest) key = (last? rest key).or (if key == k then some a else none) := by
  have hsingle : last? [(k, a)] key = if key == k then some a else none := by
    rw [last?, List.reverse_singleton, List.lookup_cons, List.lookup_nil]
    cases key == k <;> rfl
  rw [← hsingle]
  exact last?_append [(k, a)] rest key

theorem last?_eq_none [LawfulBEq κ] {fields : List (κ × α)} {key : κ}
    (h : key ∉ fields.map (·.1)) : last? fields key = none := by
  rw [last?, List.lookup_eq_none_iff]
  intro f hf
  rw [bne_iff_ne]
  rintro rfl
  exact h (List.mem_map_of_mem (List.mem_reverse.mp hf))

/-- Leaving out fields of other names does not matter. -/
theorem last?_filter [LawfulBEq κ] {p : κ × α → Bool} {key : κ} (h : ∀ a, p (key, a) = true)
    (fields : List (κ × α)) : last? (fields.filter p) key = last? fields key := by
  induction fields with
  | nil => rfl
  | cons f rest ih =>
    obtain ⟨k, a⟩ := f
    rw [List.filter_cons, last?_cons, ← ih]
    by_cases hkey : key = k
    · subst hkey
      rw [if_pos (h a), last?_cons]
    · have hother : (key == k) = false := beq_eq_false_iff_ne.mpr hkey
      split
      · rw [last?_cons]
      · rw [hother, if_neg Bool.false_ne_true, Option.or_none]

end Last

theorem last?_rawFields (fields : List (String × Value)) (name : String) :
    last? (Value.rawFields fields) (some name) = (last? fields name).map Value.raw := by
  rw [last?, last?, Value.rawFields_eq_map, ← List.map_reverse, ← Value.rawFields_eq_map]
  exact Raw.lookup_rawFields fields.reverse name

namespace Raw

section Sorting

variable {α : Type}

/-- A field that is put is found, and all others stay. The order of the fields does not matter for
it: a field put before one of a greater name hides a later one of its own name. -/
theorem lookup_putField (key : String) (v : α) (fields : List (String × α)) (name : String) :
    (putField key v fields).lookup name = if name == key then some v else fields.lookup name := by
  induction fields with
  | nil =>
    rw [putField, List.lookup_cons]
    cases name == key <;> rfl
  | cons f rest ih =>
    obtain ⟨k, w⟩ := f
    unfold putField
    split
    case isTrue heq =>
      subst heq
      rw [List.lookup_cons, List.lookup_cons]
      cases name == key <;> rfl
    case isFalse hne =>
      split
      case isTrue =>
        rw [List.lookup_cons]
        cases name == key <;> rfl
      case isFalse =>
        rw [List.lookup_cons, List.lookup_cons, ih]
        by_cases hname : name = k
        · subst hname
          have hother : (name == key) = false := beq_eq_false_iff_ne.mpr (Ne.symm hne)
          rw [beq_self_eq_true, hother]
          rfl
        · rw [beq_eq_false_iff_ne.mpr hname]

/-- Sorting keeps the last field of every name. -/
theorem lookup_sortFields (fields : List (String × α)) (name : String) :
    (sortFields fields).lookup name = last? fields name := by
  have hfold : ∀ sorted : List (String × α),
      (fields.foldl (fun sorted f => putField f.1 f.2 sorted) sorted).lookup name =
        (last? fields name).or (sorted.lookup name) := by
    induction fields with
    | nil => exact fun sorted => rfl
    | cons f rest ih =>
      intro sorted
      rw [List.foldl_cons, ih, lookup_putField, last?_cons, Option.or_assoc]
      cases name == f.1 <;> rfl
  rw [sortFields, hfold [], List.lookup_nil, Option.or_none]

example : sortFields [("b", 1), ("a", 2), ("b", 3)] = [("a", 2), ("b", 3)] := by decide

theorem last?_of_sorted {fields : List (String × α)} (h : Sorted fields) (name : String) :
    last? fields name = fields.lookup name := by
  rw [← lookup_sortFields, sortFields_of_sorted h]

end Sorting

/-- Fields that are kept say what they said. -/
theorem last?_keptFields? {depth : Nat} {rs : List (Option String × Raw)}
    {fields : List (String × Value)} (h : keptFields? depth rs = some fields) (name : String) :
    (last? rs (some name)).map (kept? depth) = (last? fields name).map some := by
  induction rs generalizing fields with
  | nil =>
    cases h
    rfl
  | cons entry rs ih =>
    obtain ⟨k, r⟩ := entry
    simp only [keptFields?, Option.bind_eq_bind, Option.bind_eq_some_iff, Option.pure_def,
      Option.some.injEq] at h
    obtain ⟨key, rfl, v, hv, rest, hrest, rfl⟩ := h
    have hsame : (some name == some key) = (name == key) := rfl
    rw [last?_cons, last?_cons, Option.map_or, Option.map_or, ih hrest, hsame]
    cases name == key with
    | false => rfl
    | true => simp [hv]

end Raw

end Testnet.Json
