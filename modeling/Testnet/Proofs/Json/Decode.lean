import Testnet.Json.Decode
import Testnet.Proofs.Json.Text

/-!
# Reading back values

What the readers make of a value that was written. A number, a list or an object is read back as
what it was written from, and a value that was kept once is kept as it is: its fields are in order
and no name stands twice. The members of a structure are what stands for their names, whether it was
written as an object or as an array.
-/

namespace Testnet.Json

namespace Raw

theorem nat?_ofNat {limit n : Nat} (h : n < limit) :
    (Value.ofNat n).raw.nat? limit = some n := by
  have hint : (Literal.ofInt n).integer? = some (n : Int) := Literal.integer?_ofInt n
  have hrange : 0 ≤ (n : Int) ∧ (n : Int) < (limit : Int) := by omega
  simp only [Value.ofNat, Value.raw, Number.literal, nat?, hint, Option.bind_eq_bind,
    Option.bind_some, hrange, and_self, if_true, Int.toNat_natCast]

/-- A whole number below a limit is below every higher limit. -/
theorem nat?_of_le {limit limit' n : Nat} (hle : limit ≤ limit') {r : Raw}
    (h : r.nat? limit = some n) : n < limit ∧ r.nat? limit' = some n := by
  cases r with
  | number l =>
    obtain ⟨i, hi, h⟩ := Option.bind_eq_some_iff.mp h
    split at h
    case isTrue hrange =>
      have hn : i.toNat = n := Option.some.inj h
      refine ⟨by omega, ?_⟩
      rw [nat?, hi, Option.bind_eq_bind, Option.bind_some, if_pos (by omega), hn]
    case isFalse => cases h
  | _ => cases h

theorem port?_toNat (p : UInt16) : (Value.ofNat p.toNat).raw.port? = some p := by
  rw [port?, nat?_ofNat p.toNat_lt, Option.map_some, UInt16.ofNat_toNat]

theorem int32?_toInt (i : Int32) : (Value.ofInt i.toInt).raw.int32? = some i := by
  have hint : (Literal.ofInt i.toInt).integer? = some i.toInt := Literal.integer?_ofInt i.toInt
  have hrange : -0x80000000 ≤ i.toInt ∧ i.toInt < 0x80000000 :=
    ⟨i.le_toInt, i.toInt_lt⟩
  simp only [Value.ofInt, Value.raw, Number.literal, int32?, hint, Option.bind_eq_bind,
    Option.bind_some, hrange, and_self, if_true, Int32.ofInt_toInt]

section Lists

variable {α β : Type}

theorem mapM_map_eq_some {f : Raw → Option α} {g : α → Raw} {as : List α}
    (h : ∀ a ∈ as, f (g a) = some a) : (as.map g).mapM f = some as := by
  induction as with
  | nil => rfl
  | cons a as ih =>
    rw [List.map_cons, List.mapM_cons, h a (List.mem_cons_self ..),
      ih fun b hb => h b (List.mem_cons_of_mem a hb)]
    rfl

theorem list?_raw {f : Raw → Option α} {g : α → Value} {as : List α}
    (h : ∀ a ∈ as, f (g a).raw = some a) : list? f (Value.array (as.map g)).raw = some as := by
  rw [Value.raw, Value.rawItems_eq_map, List.map_map]
  exact mapM_map_eq_some h

theorem strings?_raw (ss : List String) : list? string? (Value.ofStrings ss).raw = some ss :=
  list?_raw fun _ _ => rfl

theorem lookup_rawFields (fields : List (String × Value)) (name : String) :
    (Value.rawFields fields).lookup (some name) = (fields.lookup name).map Value.raw := by
  induction fields with
  | nil => rfl
  | cons f fields ih =>
    obtain ⟨k, v⟩ := f
    rw [Value.rawFields, List.lookup_cons, List.lookup_cons, ih]
    by_cases hk : name = k
    · subst hk
      simp
    · have hne : (name == k) = false := beq_eq_false_iff_ne.mpr hk
      have hsome : (some name == some k) = false := beq_eq_false_iff_ne.mpr fun h =>
        hk (Option.some.inj h)
      rw [hne, hsome]

theorem fieldNames?_rawFields (fields : List (String × Value)) :
    fieldNames? (Value.rawFields fields) = some (fields.map (·.1)) := by
  induction fields with
  | nil => rfl
  | cons f fields ih =>
    obtain ⟨k, v⟩ := f
    rw [fieldNames?] at ih ⊢
    rw [Value.rawFields, List.mapM_cons, ih]
    rfl

/-- The fields of an object whose own names stand at most once. -/
theorem members?_raw {names : List String} {fields : List (String × Value)}
    (h : ∀ n ∈ names, (fields.map (·.1)).count n ≤ 1) :
    (Value.object fields).raw.members? names =
      some (names.map fun n => (fields.lookup n).map Value.raw) := by
  have hall : (names.all fun n => (fields.map (·.1)).count n ≤ 1) = true := by
    rw [List.all_eq_true]
    intro n hn
    exact decide_eq_true (h n hn)
  simp only [Value.raw, members?, fieldNames?_rawFields, Option.bind_eq_bind, Option.bind_some,
    hall, if_true, lookup_rawFields]

/-- The fields of an object without repeated names. -/
theorem members?_raw_of_nodup {names : List String} {fields : List (String × Value)}
    (h : (fields.map (·.1)).Nodup) :
    (Value.object fields).raw.members? names =
      some (names.map fun n => (fields.lookup n).map Value.raw) :=
  members?_raw fun n _ => List.nodup_iff_count.mp h n

/-- What stands for a name of a structure: in an object the value of the field, in an array the item
in the place of the name. -/
def under (names : List String) (name : String) : Raw → Option Raw
  | object fields => fields.lookup (some name)
  | array items => items[names.idxOf name]?
  | _ => none

/-- The members of a structure are what stands for its names. -/
theorem members?_eq_map_under {names : List String} (hnames : names.Nodup) {r : Raw}
    {members : List (Option Raw)} (h : r.members? names = some members) :
    members = names.map fun name => r.under names name := by
  cases r with
  | object fields =>
    obtain ⟨found, _, h⟩ := Option.bind_eq_some_iff.mp h
    split at h
    · exact (Option.some.inj h).symm
    · cases h
  | array items =>
    rw [members?] at h
    split at h
    case isTrue hlength =>
      rw [← Option.some.inj h]
      refine List.ext_getElem (by simp; omega) fun i hi hi' => ?_
      have hname : i < names.length := by simpa using hi'
      rw [List.getElem_map, under, hnames.idxOf_getElem i hname, List.getElem_append]
      -- An array may end before the names do; what is left has no value.
      split
      case isTrue hitem =>
        rw [List.length_map] at hitem
        rw [List.getElem_map, List.getElem?_eq_getElem hitem]
      case isFalse hitem =>
        rw [List.length_map] at hitem
        rw [List.getElem_replicate, List.getElem?_eq_none (by omega)]
    case isFalse => cases h
  | _ => cases h

theorem orElse?_some (f : Raw → Option α) (standard : α) (r : Raw) :
    orElse? f standard (some r) = f r := rfl

theorem required?_some (f : Raw → Option α) (r : Raw) : required? f (some r) = f r := rfl

theorem lookup_optional (name key : String) (v : Option Value) :
    (Value.optional key v).lookup name = if name = key then v else none := by
  unfold Value.optional
  cases v with
  | none => simp
  | some v =>
    rw [List.lookup_cons, List.lookup_nil]
    by_cases h : name = key
    · rw [if_pos h, beq_iff_eq.mpr h]
    · rw [if_neg h, beq_eq_false_iff_ne.mpr h]

/-- A field that is left out without a value is read back, there or not. -/
theorem orElse?_optional {f : Raw → Option α} {g : α → Value} (h : ∀ a, f (g a).raw = some a)
    (hnull : ∀ a, (g a).raw ≠ .null) (a? : Option α) :
    orElse? (optional? f) none ((a?.map g).map Value.raw) = some a? := by
  cases a? with
  | none => rfl
  | some a =>
    have hsome : optional? f (g a).raw = (f (g a).raw).map some := by
      have hne := hnull a
      unfold optional?
      split
      · exact absurd ‹_› hne
      · rfl
    rw [Option.map_some, Option.map_some, orElse?, hsome, h, Option.map_some]

end Lists

section Sorting

variable {α : Type}

/-- Fields in the order of their names, without repetition. -/
def Sorted (fields : List (String × α)) : Prop := fields.Pairwise fun f g => f.1 < g.1

theorem mem_putField {key : String} {v : α} {fields : List (String × α)} {f : String × α}
    (h : f ∈ putField key v fields) : f = (key, v) ∨ f ∈ fields := by
  induction fields with
  | nil => exact .inl (List.mem_singleton.mp h)
  | cons g rest ih =>
    obtain ⟨k, w⟩ := g
    unfold putField at h
    split at h
    case isTrue heq =>
      rcases List.mem_cons.mp h with h | h
      · subst heq
        exact .inl h
      · exact .inr (List.mem_cons_of_mem _ h)
    case isFalse =>
      split at h
      · rcases List.mem_cons.mp h with h | h
        · exact .inl h
        · exact .inr h
      · rcases List.mem_cons.mp h with h | h
        · exact .inr (h ▸ List.mem_cons_self ..)
        · exact (ih h).imp id (List.mem_cons_of_mem _)

theorem sorted_putField {key : String} {v : α} {fields : List (String × α)}
    (h : Sorted fields) : Sorted (putField key v fields) := by
  induction fields with
  | nil => exact List.pairwise_singleton ..
  | cons g rest ih =>
    obtain ⟨k, w⟩ := g
    obtain ⟨hfirst, hrest⟩ := List.pairwise_cons.mp h
    unfold putField
    split
    case isTrue => exact List.pairwise_cons.mpr ⟨hfirst, hrest⟩
    case isFalse hne =>
      split
      case isTrue hlt =>
        refine List.pairwise_cons.mpr ⟨fun f hf => ?_, h⟩
        rcases List.mem_cons.mp hf with hf | hf
        · exact hf ▸ hlt
        · exact String.lt_trans hlt (hfirst f hf)
      case isFalse hge =>
        refine List.pairwise_cons.mpr ⟨fun f hf => ?_, ih hrest⟩
        rcases mem_putField hf with hf | hf
        · subst hf
          exact Decidable.byContradiction fun hnot =>
            hne (String.le_antisymm (String.not_lt.mp hnot) (String.not_lt.mp hge))
        · exact hfirst f hf

/-- A name after all others goes to the end. -/
theorem putField_of_last {key : String} {v : α} {fields : List (String × α)}
    (h : ∀ f ∈ fields, f.1 < key) : putField key v fields = fields ++ [(key, v)] := by
  induction fields with
  | nil => rfl
  | cons g rest ih =>
    obtain ⟨k, w⟩ := g
    have hlt : k < key := h (k, w) (List.mem_cons_self ..)
    have hne : key ≠ k := fun heq => String.lt_irrefl k (heq ▸ hlt)
    rw [putField, if_neg hne, if_neg (String.lt_asymm hlt),
      ih fun f hf => h f (List.mem_cons_of_mem _ hf)]
    rfl

theorem sorted_sortFields (fields : List (String × α)) : Sorted (sortFields fields) := by
  have hfold : ∀ sorted : List (String × α), Sorted sorted →
      Sorted (fields.foldl (fun sorted f => putField f.1 f.2 sorted) sorted) := by
    induction fields with
    | nil => exact fun sorted h => h
    | cons f rest ih => exact fun sorted h => ih _ (sorted_putField h)
  exact hfold [] .nil

theorem mem_of_mem_sortFields {fields : List (String × α)} {f : String × α}
    (h : f ∈ sortFields fields) : f ∈ fields := by
  have hfold : ∀ sorted : List (String × α),
      f ∈ fields.foldl (fun sorted f => putField f.1 f.2 sorted) sorted →
        f ∈ sorted ∨ f ∈ fields := by
    clear h
    induction fields with
    | nil => exact fun sorted h => .inl h
    | cons g rest ih =>
      intro sorted h
      rcases ih _ h with h | h
      · rcases mem_putField h with h | h
        · exact .inr (h ▸ List.mem_cons_self ..)
        · exact .inl h
      · exact .inr (List.mem_cons_of_mem g h)
  exact (hfold [] h).resolve_left List.not_mem_nil

/-- Fields in order stay as they are. -/
theorem sortFields_of_sorted {fields : List (String × α)} (h : Sorted fields) :
    sortFields fields = fields := by
  have hfold : ∀ sorted rest : List (String × α), Sorted (sorted ++ rest) →
      rest.foldl (fun sorted f => putField f.1 f.2 sorted) sorted = sorted ++ rest := by
    intro sorted rest
    induction rest generalizing sorted with
    | nil => exact fun _ => (List.append_nil sorted).symm
    | cons f rest ih =>
      intro h
      have hlast : ∀ g ∈ sorted, g.1 < f.1 := fun g hg =>
        (List.pairwise_append.mp h).2.2 g hg f (List.mem_cons_self ..)
      have happend : sorted ++ [f] ++ rest = sorted ++ f :: rest := List.append_cons .. ▸ rfl
      rw [List.foldl_cons, putField_of_last hlast, ih (sorted ++ [f]) (happend ▸ h), happend]
  exact hfold [] fields h

end Sorting

/-- Values that are kept as they are, with arrays and objects at most `depth` deep. -/
inductive IsKept : Nat → Value → Prop where
  | null {depth : Nat} : IsKept depth .null
  | bool {depth : Nat} (b : Bool) : IsKept depth (.bool b)
  | whole {depth : Nat} {n : Int} (low : -0x8000000000000000 ≤ n)
      (high : n < (Gathered.limit : Int)) : IsKept depth (.number (.whole n))
  | string {depth : Nat} (s : String) : IsKept depth (.string s)
  | array {depth : Nat} {vs : List Value} (items : ∀ v ∈ vs, IsKept depth v) :
    IsKept (depth + 1) (.array vs)
  | object {depth : Nat} {fields : List (String × Value)} (items : ∀ f ∈ fields, IsKept depth f.2)
      (sorted : Sorted fields) : IsKept (depth + 1) (.object fields)

theorem keptItems?_eq_mapM (depth : Nat) (rs : List Raw) :
    keptItems? depth rs = rs.mapM (kept? depth) := by
  induction rs with
  | nil => rfl
  | cons r rs ih =>
    rw [keptItems?, List.mapM_cons, ih]

theorem keptFields?_rawFields {depth : Nat} {fields : List (String × Value)}
    (h : ∀ f ∈ fields, kept? depth f.2.raw = some f.2) :
    keptFields? depth (Value.rawFields fields) = some fields := by
  induction fields with
  | nil => rfl
  | cons f fields ih =>
    obtain ⟨k, v⟩ := f
    rw [Value.rawFields, keptFields?, h (k, v) (List.mem_cons_self ..),
      ih fun f hf => h f (List.mem_cons_of_mem _ hf)]
    rfl

/-- A value that is kept is read back as itself. -/
theorem kept?_raw {depth : Nat} {v : Value} (h : IsKept depth v) :
    kept? depth v.raw = some v := by
  induction h with
  | null => rw [Value.raw, kept?]
  | bool b => rw [Value.raw, kept?]
  | whole low high =>
    rw [Value.raw, kept?, Number.literal, Literal.number?_ofInt low high, Option.map_some]
  | string s => rw [Value.raw, kept?, Option.map_some]
  | @array d vs _ ih =>
    have hitems : keptItems? d (Value.rawItems vs) = some vs := by
      rw [keptItems?_eq_mapM, Value.rawItems_eq_map]
      exact mapM_map_eq_some ih
    rw [Value.raw, kept?, hitems, Option.map_some]
  | object _ sorted ih =>
    rw [Value.raw, kept?, keptFields?_rawFields ih, Option.map_some, sortFields_of_sorted sorted]

theorem mem_keptItems? {depth : Nat} {rs : List Raw} {vs : List Value}
    (h : keptItems? depth rs = some vs) : ∀ v ∈ vs, ∃ r, kept? depth r = some v := by
  induction rs generalizing vs with
  | nil =>
    cases h
    exact fun v hv => absurd hv List.not_mem_nil
  | cons r rs ih =>
    simp only [keptItems?, Option.bind_eq_bind, Option.bind_eq_some_iff, Option.pure_def,
      Option.some.injEq] at h
    obtain ⟨w, hw, ws, hws, rfl⟩ := h
    intro v hv
    rcases List.mem_cons.mp hv with hv | hv
    · exact ⟨r, hv ▸ hw⟩
    · exact ih hws v hv

theorem mem_keptFields? {depth : Nat} {rs : List (Option String × Raw)}
    {fields : List (String × Value)} (h : keptFields? depth rs = some fields) :
    ∀ f ∈ fields, ∃ r, (some f.1, r) ∈ rs ∧ kept? depth r = some f.2 := by
  induction rs generalizing fields with
  | nil =>
    cases h
    exact fun f hf => absurd hf List.not_mem_nil
  | cons entry rs ih =>
    obtain ⟨k, r⟩ := entry
    simp only [keptFields?, Option.bind_eq_bind, Option.bind_eq_some_iff, Option.pure_def,
      Option.some.injEq] at h
    obtain ⟨key, rfl, w, hw, rest, hrest, rfl⟩ := h
    intro f hf
    rcases List.mem_cons.mp hf with hf | hf
    · exact ⟨r, hf ▸ List.mem_cons_self .., hf ▸ hw⟩
    · obtain ⟨r', hmem, hkept⟩ := ih hrest f hf
      exact ⟨r', List.mem_cons_of_mem _ hmem, hkept⟩

theorem number?_eq_whole {l : Literal} {n : Int} (h : l.number? = some (.whole n)) :
    -0x8000000000000000 ≤ n ∧ n < (Gathered.limit : Int) := by
  have hdouble : (l.magnitude?).map (Number.double l.negative) ≠ some (.whole n) := by
    cases l.magnitude? <;> simp
  unfold Literal.number? at h
  split at h
  · split at h
    · cases h
      assumption
    · exact absurd h hdouble
  · exact absurd h hdouble

/-- What has been kept without doubles would be kept again. -/
theorem isKept_of_kept? {depth : Nat} {r : Raw} {v : Value} (h : kept? depth r = some v)
    (hv : v.IsWhole) : IsKept depth v := by
  induction depth using Nat.strongRecOn generalizing r v with
  | ind depth ih =>
    cases r with
    | null =>
      rw [kept?] at h
      cases h
      exact .null
    | bool b =>
      rw [kept?] at h
      cases h
      exact .bool b
    | number l =>
      rw [kept?, Option.map_eq_some_iff] at h
      obtain ⟨n, hn, rfl⟩ := h
      cases n with
      | whole n => exact .whole (number?_eq_whole hn).1 (number?_eq_whole hn).2
      | double negative x => exact absurd hv id
    | string s =>
      rw [kept?, Option.map_eq_some_iff] at h
      obtain ⟨s, _, rfl⟩ := h
      exact .string s
    | array items =>
      cases depth with
      | zero => cases h
      | succ d =>
        rw [kept?, Option.map_eq_some_iff] at h
        obtain ⟨vs, hvs, rfl⟩ := h
        refine .array fun w hw => ?_
        obtain ⟨r, hr⟩ := mem_keptItems? hvs w hw
        exact ih d (Nat.lt_succ_self d) hr (Value.areWhole_iff.mp hv w hw)
    | object fields =>
      cases depth with
      | zero => cases h
      | succ d =>
        rw [kept?, Option.map_eq_some_iff] at h
        obtain ⟨fs, hfs, rfl⟩ := h
        refine .object (fun f hf => ?_) (sorted_sortFields fs)
        obtain ⟨r, _, hr⟩ := mem_keptFields? hfs f (mem_of_mem_sortFields hf)
        exact ih d (Nat.lt_succ_self d) hr (Value.fieldsWhole_iff.mp hv f hf)

end Raw

end Testnet.Json
