import Testnet.Genesis.Basic
import Testnet.Proofs.Json.Decode

/-!
# Genesis texts

A genesis is read back from its text as it was, if the fields that are only passed on are such as
reading leaves behind.
-/

namespace Testnet

open Json

namespace Limits

theorem isWhole_toJson (l : Limits) : l.toJson.IsWhole := by
  apply Value.fieldsWhole_iff.mpr
  intro f hf
  obtain ⟨n, _, hn⟩ := List.mem_map.mp (List.of_mem_zip hf).2
  rw [← hn]
  exact trivial

theorem word16?_toNat (standard w : UInt16) :
    word16? standard (some (Value.ofNat w.toNat).raw) = some w := by
  rw [word16?, Raw.orElse?_some, Raw.nat?_ofNat w.toNat_lt, Option.map_some, UInt16.ofNat_toNat]

theorem word32?_toNat (standard w : UInt32) :
    word32? standard (some (Value.ofNat w.toNat).raw) = some w := by
  rw [word32?, Raw.orElse?_some, Raw.nat?_ofNat w.toNat_lt, Option.map_some, UInt32.ofNat_toNat]

theorem word64?_toNat (standard w : UInt64) :
    word64? standard (some (Value.ofNat w.toNat).raw) = some w := by
  rw [word64?, Raw.orElse?_some, Raw.nat?_ofNat w.toNat_lt, Option.map_some, UInt64.ofNat_toNat]

/-- The limits with their names. -/
def named (l : Limits) : List (String × Value) := fieldNames.zip (l.toList.map .ofNat)

theorem map_fst_named (l : Limits) : l.named.map (·.1) = fieldNames := by
  rw [named, List.map_fst_zip]
  simp [toList, fieldNames]

theorem members?_raw (l : Limits) : l.toJson.raw.members? fieldNames =
    some (l.toList.map fun n => some (Value.ofNat n).raw) := by
  have hnodup : (l.named.map (·.1)).Nodup := by
    rw [map_fst_named]
    decide
  have hmembers := @Raw.members?_raw_of_nodup fieldNames _ hnodup
  exact hmembers

theorem ofJson?_raw (l : Limits) : ofJson? l.toJson.raw = some l := by
  rw [ofJson?, members?_raw, Option.bind_eq_bind, Option.bind_some]
  simp only [toList, List.map_cons, List.map_nil, word16?_toNat, word32?_toNat, word64?_toNat]
  rfl

end Limits

namespace Genesis

/-- Fields that reading would pass on as they are. -/
structure Passed (extra : List (String × Value)) : Prop where
  sorted : Raw.Sorted extra
  kept : ∀ f ∈ extra, Raw.IsKept extraDepth f.2
  foreign : ∀ f ∈ extra, f.1 ∉ fieldNames
  whole : ∀ f ∈ extra, f.2.IsWhole

theorem isWhole_toJson {g : Genesis} (h : Passed g.extra) : g.toJson.IsWhole := by
  have hextra := Value.fieldsWhole_iff.mpr h.whole
  refine Value.fieldsWhole_append.mpr ⟨?_, hextra⟩
  exact ⟨trivial, trivial, g.limits.isWhole_toJson, trivial⟩

/-- The fields with a meaning, in the order in which they are written. -/
def known (g : Genesis) : List (String × Value) :=
  [("initial_timestamp", .string g.initialTimestamp), ("initial_key", .string g.initialKey),
    ("initial_configuration", g.limits.toJson)]

theorem extra?_rawFields {g : Genesis} (h : Passed g.extra) :
    extra? (Value.rawFields (g.known ++ g.extra)) = some g.extra := by
  have hsplit : Value.rawFields (g.known ++ g.extra) =
      Value.rawFields g.known ++ Value.rawFields g.extra := by
    simp only [Value.rawFields_eq_map, List.map_append]
  have hknown : (Value.rawFields g.known).filter (fun f => !f.1.any fieldNames.contains) = [] := rfl
  have hextra : (Value.rawFields g.extra).filter (fun f => !f.1.any fieldNames.contains) =
      Value.rawFields g.extra := by
    rw [List.filter_eq_self, Value.rawFields_eq_map]
    intro entry hentry
    obtain ⟨f, hf, rfl⟩ := List.mem_map.mp hentry
    have hforeign := h.foreign f hf
    simpa using hforeign
  have hkept := Raw.keptFields?_rawFields fun f hf => Raw.kept?_raw (h.kept f hf)
  rw [extra?, hsplit, List.filter_append, hknown, hextra, List.nil_append, hkept, Option.map_some,
    Raw.sortFields_of_sorted h.sorted]

theorem members?_raw {g : Genesis} (h : Passed g.extra) :
    g.toJson.raw.members? fieldNames = some [some (.string (some g.initialTimestamp)),
      some (.string (some g.initialKey)), some g.limits.toJson.raw] := by
  have hcount : ∀ n ∈ fieldNames, ((g.known ++ g.extra).map (·.1)).count n ≤ 1 := by
    intro n hn
    have hforeign : (g.extra.map (·.1)).count n = 0 := by
      rw [List.count_eq_zero, List.mem_map]
      intro hgiven
      obtain ⟨f, hf, rfl⟩ := hgiven
      exact h.foreign f hf hn
    have hown : ∀ m ∈ fieldNames, fieldNames.count m ≤ 1 := by decide
    rw [List.map_append, List.count_append, hforeign]
    exact hown n hn
  have hmembers := Raw.members?_raw hcount
  exact hmembers

variable {fields : List (Option String × Raw)} {timestamp key limits : Option Raw} {g : Genesis}

theorem ofJson?_eq_some (hmembers : (Raw.object fields).members? fieldNames =
    some [timestamp, key, limits]) :
    ofJson? (.object fields) = some g ↔
      Raw.orElse? Raw.string? standardTimestamp timestamp = some g.initialTimestamp ∧
      Raw.orElse? Raw.string? "" key = some g.initialKey ∧
      Raw.orElse? Limits.ofJson? .standard limits = some g.limits ∧
      extra? fields = some g.extra := by
  rw [ofJson?, hmembers]
  simp only [Option.bind_eq_bind, Option.bind_some, Option.bind_eq_some_iff, Option.pure_def,
    Option.some.injEq]
  constructor
  · intro h
    obtain ⟨t, ht, k, hk, l, hl, e, he, hg⟩ := h
    subst hg
    exact ⟨ht, hk, hl, he⟩
  · intro h
    obtain ⟨ht, hk, hl, he⟩ := h
    exact ⟨_, ht, _, hk, _, hl, _, he, rfl⟩

theorem extra?_of_ofJson? {r : Raw} (h : ofJson? r = some g) :
    ∃ fields, r = .object fields ∧ extra? fields = some g.extra := by
  obtain ⟨fields, rfl⟩ : ∃ fields, r = .object fields := by
    cases r with
    | object fields => exact ⟨fields, rfl⟩
    | _ => cases h
  refine ⟨fields, rfl, ?_⟩
  rw [ofJson?, Option.bind_eq_bind, Option.bind_eq_some_iff] at h
  obtain ⟨members, hmembers, h⟩ := h
  split at h
  · have hg := (ofJson?_eq_some hmembers).mp (by rw [ofJson?, hmembers]; exact h)
    exact hg.2.2.2
  · cases h

/-- A genesis that was read passes on what it would pass on again. -/
theorem passed_of_ofJson? {r : Raw} (h : ofJson? r = some g)
    (hwhole : ∀ f ∈ g.extra, f.2.IsWhole) : Passed g.extra := by
  obtain ⟨fields, _, hextra⟩ := extra?_of_ofJson? h
  obtain ⟨kept, hkept, hsorted⟩ := Option.map_eq_some_iff.mp hextra
  have hmem : ∀ f ∈ g.extra, f.1 ∉ fieldNames ∧ ∃ r, Raw.kept? extraDepth r = some f.2 := by
    intro f hf
    rw [← hsorted] at hf
    obtain ⟨r, hr, hread⟩ := Raw.mem_keptFields? hkept f (Raw.mem_of_mem_sortFields hf)
    have hforeign := (List.mem_filter.mp hr).2
    exact ⟨by simpa using hforeign, r, hread⟩
  constructor
  case sorted =>
    rw [← hsorted]
    exact Raw.sorted_sortFields kept
  case kept =>
    intro f hf
    obtain ⟨_, r, hr⟩ := hmem f hf
    exact Raw.isKept_of_kept? hr (hwhole f hf)
  case foreign => exact fun f hf => (hmem f hf).1
  case whole => exact hwhole

/-- A genesis is read back from its text as it was. -/
theorem ofText?_indented {g : Genesis} (h : Passed g.extra) :
    ofText? g.toJson.indented = some g := by
  have hraw : g.toJson.raw = .object (Value.rawFields (g.known ++ g.extra)) := rfl
  have hmembers := members?_raw h
  rw [hraw] at hmembers
  have hlimits :
      Raw.orElse? Limits.ofJson? .standard (some g.limits.toJson.raw) = some g.limits := by
    rw [Raw.orElse?_some, Limits.ofJson?_raw]
  have hread := (@ofJson?_eq_some _ _ _ _ g hmembers).mpr ⟨rfl, rfl, hlimits, extra?_rawFields h⟩
  unfold ofText?
  rw [Json.ofText?_indented (isWhole_toJson h), hraw, Option.bind_eq_bind, Option.bind_some, hread]

variable {files : FileTree} {path : Path}

theorem load_eq_ok_iff : load files path = .ok g ↔
    ∃ s, files.readText path = some s ∧ ofText? s = some g := FileTree.readDocument_eq_ok_iff

theorem passed_of_load (h : load files path = .ok g) (hwhole : ∀ f ∈ g.extra, f.2.IsWhole) :
    Passed g.extra := by
  obtain ⟨s, _, hread⟩ := load_eq_ok_iff.mp h
  obtain ⟨r, _, hr⟩ := Option.bind_eq_some_iff.mp hread
  exact passed_of_ofJson? hr hwhole

/-- A file that holds the text of a genesis holds the genesis. -/
theorem load_text (hpassed : Passed g.extra) (h : files.readText path = some g.toJson.indented) :
    load files path = .ok g := load_eq_ok_iff.mpr ⟨_, h, ofText?_indented hpassed⟩

end Genesis

end Testnet
