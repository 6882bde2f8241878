import Mathlib.Data.List.Forall2
import Mathlib.Data.List.GetD
import Testnet.Proofs.Genesis.Override
import Testnet.Proofs.Genesis.Rewrite

/-!
# The layers of a genesis

A genesis takes each of its values from the highest layer that has one: the overrides, the file, the
standard values. Only the key always comes from the bios node, and what has no meaning here from the
file. A file that says nothing is as good as no file.
-/

namespace Testnet

open Json

/-- A value from the highest of three layers: what stands above a file, what is read from the file,
and what is standard. -/
inductive Layered {α : Type} (read : Raw → Option α) (above : Option α) (file : Option Raw)
    (standard : α) : α → Prop where
  | above {a : α} (habove : above = some a) : Layered read above file standard a
  | file {r : Raw} {a : α} (habove : above = none) (hfile : file = some r)
      (hread : read r = some a) : Layered read above file standard a
  | standard (habove : above = none) (hfile : file = none) :
      Layered read above file standard standard

section Reading

variable {α : Type} {read : Raw → Option α} {above : Option α} {file : Option Raw} {standard a : α}

/-- The layers decide the value. -/
theorem layered_iff : Layered read above file standard a ↔
    above.or (Raw.orElse? read standard file) = some a := by
  constructor
  · intro h
    cases h with
    | above habove => rw [habove, Option.some_or]
    | file habove hfile hread => rw [habove, hfile, Option.none_or, Raw.orElse?_some, hread]
    | standard habove hfile => rw [habove, hfile, Option.none_or, Raw.orElse?]
  · intro h
    cases above with
    | some b => exact .above h
    | none =>
      cases file with
      | some r => exact .file rfl rfl h
      | none =>
        cases h
        exact .standard rfl rfl

/-- What was read is the value of the lower two layers. -/
theorem layered_of_orElse? (h : Raw.orElse? read standard file = some a) (above : Option α) :
    Layered read above file standard (above.getD a) :=
  layered_iff.mpr (by rw [h, Option.or_some])

end Reading

namespace Limits

/-- The limit of a name. -/
def value (l : Limits) (name : String) : Nat := l.toList.getD (fieldNames.idxOf name) 0

/-- How a limit is read, whatever its width. -/
abbrev read? (standard : Nat) : Option Raw → Option Nat :=
  Raw.orElse? (Raw.nat? UInt64.size) standard

section Words

variable {m : Option Raw}

/-- A word that was read is the number that stands there. -/
theorem read?_of_word {ω : Type} {size : Nat} {toNat : ω → Nat} {ofNat : Nat → ω}
    (hsize : size ≤ UInt64.size) (hnat : ∀ n < size, toNat (ofNat n) = n) {standard w : ω}
    (h : Raw.orElse? (fun r => (r.nat? size).map ofNat) standard m = some w) :
    read? (toNat standard) m = some (toNat w) := by
  cases m with
  | none =>
    cases h
    rfl
  | some r =>
    obtain ⟨n, hn, rfl⟩ := Option.map_eq_some_iff.mp h
    obtain ⟨hlt, hread⟩ := Raw.nat?_of_le hsize hn
    rw [hnat n hlt]
    exact hread

theorem read?_of_word16? {standard w : UInt16} (h : word16? standard m = some w) :
    read? standard.toNat m = some w.toNat :=
  read?_of_word (by decide) (fun _ hn => UInt16.toNat_ofNat_of_lt hn) h

theorem read?_of_word32? {standard w : UInt32} (h : word32? standard m = some w) :
    read? standard.toNat m = some w.toNat :=
  read?_of_word (by decide) (fun _ hn => UInt32.toNat_ofNat_of_lt hn) h

theorem read?_of_word64? {standard w : UInt64} (h : word64? standard m = some w) :
    read? standard.toNat m = some w.toNat :=
  read?_of_word (le_refl _) (fun _ hn => UInt64.toNat_ofNat_of_lt hn) h

end Words

/-- Each limit that was read is the member in its place, or the standard limit there. -/
theorem forall₂_of_ofJson? {r : Raw} {l : Limits} (h : ofJson? r = some l) :
    ∃ members, r.members? fieldNames = some members ∧
      List.Forall₂ (fun limit n => read? limit.2 limit.1 = some n)
        (members.zip standard.toList) l.toList := by
  obtain ⟨members, hmembers, h⟩ := Option.bind_eq_some_iff.mp h
  refine ⟨members, hmembers, ?_⟩
  split at h
  case h_2 => cases h
  case h_1 =>
    -- One word after the other was read.
    iterate 17 obtain ⟨_, _, h⟩ := Option.bind_eq_some_iff.mp h
    cases h
    simp only [toList, List.zip_cons_cons, List.zip_nil_right, List.forall₂_cons,
      List.Forall₂.nil, and_true]
    exact ⟨read?_of_word64? ‹_›, read?_of_word32? ‹_›, read?_of_word32? ‹_›, read?_of_word32? ‹_›,
      read?_of_word32? ‹_›, read?_of_word32? ‹_›, read?_of_word32? ‹_›, read?_of_word32? ‹_›,
      read?_of_word32? ‹_›, read?_of_word32? ‹_›, read?_of_word32? ‹_›, read?_of_word32? ‹_›,
      read?_of_word32? ‹_›, read?_of_word32? ‹_›, read?_of_word32? ‹_›, read?_of_word16? ‹_›,
      read?_of_word16? ‹_›⟩

/-- Where limits are read, each is what stands for its name, or its own standard. -/
theorem read?_value {file : Option Raw} {l : Limits}
    (h : Raw.orElse? ofJson? .standard file = some l) {name : String} (hname : name ∈ fieldNames) :
    read? (standard.value name) (file.bind (Raw.under fieldNames name)) = some (l.value name) := by
  cases file with
  | none =>
    cases h
    rfl
  | some r =>
    obtain ⟨members, hmembers, hread⟩ := forall₂_of_ofJson? h
    have hunder := Raw.members?_eq_map_under (by decide) hmembers
    subst hunder
    have hplace : fieldNames.idxOf name < fieldNames.length := List.idxOf_lt_length_of_mem hname
    have hat := (List.forall₂_iff_get.mp hread).2 (fieldNames.idxOf name)
      (by simpa [toList, fieldNames] using hplace) hplace
    simp only [List.get_eq_getElem, List.getElem_zip, List.getElem_map,
      List.getElem_idxOf hplace] at hat
    rw [value, value, List.getD_eq_getElem standard.toList 0 hplace,
      List.getD_eq_getElem l.toList 0 hplace]
    exact hat

end Limits

namespace Genesis

variable {files : FileTree} {path : Option Path} {bios : Node} {o : Overrides} {g : Genesis}
  {now : Timestamp}

/-- The limit that is overridden under a name. -/
def Overrides.limit? (o : Overrides) : String → Option UInt32
  | "max_block_cpu_usage" => o.maxBlockCpuUsage
  | "max_transaction_cpu_usage" => o.maxTransactionCpuUsage
  | _ => .none

theorem value_overrideLimits (l : Limits) (o : Overrides) {name : String}
    (hname : name ∈ Limits.fieldNames) :
    (overrideLimits l o).value name = ((o.limit? name).map (·.toNat)).getD (l.value name) := by
  revert name
  obtain ⟨block, transaction, _⟩ := o
  simp only [Limits.fieldNames, List.forall_mem_cons]
  cases block <;> cases transaction <;>
    exact ⟨rfl, rfl, rfl, rfl, rfl, rfl, rfl, rfl, rfl, rfl, rfl, rfl, rfl, rfl, rfl, rfl, rfl,
      List.forall_mem_nil _⟩

/-- A genesis whose every value is taken from its layer, where the file says the given fields. -/
structure Layers (fields : List (Option String × Raw)) (key : String) (o : Overrides)
    (g : Genesis) : Prop where
  key : g.initialKey = key
  timestamp : ∃ source t,
    Layered Raw.string? o.initialTimestamp (fields.lookup (some "initial_timestamp"))
      standardTimestamp source ∧
    Timestamp.Denotes source t ∧ Timestamp.IsCanonical g.initialTimestamp t.floor
  limits : ∀ name ∈ Limits.fieldNames,
    Layered (Raw.nat? UInt64.size) ((o.limit? name).map (·.toNat))
      ((fields.lookup (some "initial_configuration")).bind (Raw.under Limits.fieldNames name))
      (Limits.standard.value name) (g.limits.value name)
  extra : ∀ name ∉ fieldNames,
    (last? fields (some name)).map (Raw.kept? extraDepth) = (g.extra.lookup name).map some

/-- A genesis that was read, taken apart into what stands for its names. -/
theorem ofJson?_object {fields : List (Option String × Raw)}
    (h : ofJson? (.object fields) = some g) :
    Raw.orElse? Raw.string? standardTimestamp (fields.lookup (some "initial_timestamp")) =
        some g.initialTimestamp ∧
      Raw.orElse? Limits.ofJson? .standard (fields.lookup (some "initial_configuration")) =
        some g.limits ∧
      extra? fields = some g.extra := by
  obtain ⟨members, hmembers, _⟩ := Option.bind_eq_some_iff.mp h
  have hunder := Raw.members?_eq_map_under (by decide) hmembers
  subst hunder
  obtain ⟨htimestamp, _, hlimits, hextra⟩ := (ofJson?_eq_some hmembers).mp h
  exact ⟨htimestamp, hlimits, hextra⟩

/-- Finishing what was read leaves every value in its layer. -/
theorem layers_of_finish {fields : List (Option String × Raw)} {composed : Genesis} {key : String}
    (hread : ofJson? (.object fields) = some g) (hkey : bios.firstPublicKey = some key)
    (hclock : ¬ o.AsksClock) (h : g.finish bios o now = .ok composed) :
    Layers fields key o composed := by
  obtain ⟨htimestamp, hlimits, hextra⟩ := ofJson?_object hread
  obtain ⟨_, timestamp, hfirst, hnormal, rfl⟩ := finish_eq_ok_iff.mp h
  rw [Overrides.timestamp_of_not_asksClock hclock] at hnormal
  obtain ⟨t, ht, rfl⟩ := normalTimestamp_eq_ok_iff.mp hnormal
  constructor
  case key => exact Option.some.inj (hfirst.symm.trans hkey)
  case timestamp =>
    refine ⟨_, t, layered_of_orElse? htimestamp o.initialTimestamp, ht, ?_⟩
    exact (Timestamp.isCanonical_iff ht.valid.floor).mpr t.text_floor.symm
  case limits =>
    intro name hname
    rw [value_overrideLimits g.limits o hname]
    exact layered_of_orElse? (Limits.read?_value hlimits hname) _
  case extra => exact fun name hname => map_last?_of_extra? hextra hname

theorem base_of_missing (h : ∀ file, path = some file → files.exists? file = false) :
    (base files path).value = .ok standard := by
  cases path with
  | none => rfl
  | some file =>
    simp only [base, h file rfl, Bool.false_eq_true, if_false]
    rfl

/-- There is a genesis to start from unless a file that exists cannot be read as one. -/
theorem exists_base_iff : (∃ g, (base files path).value = .ok g) ↔
    ∀ file, path = some file → files.exists? file = true → ∃ g, load files file = .ok g := by
  constructor
  · intro h file hpath hexists
    obtain ⟨g, hg⟩ := h
    subst hpath
    simp only [base, hexists, if_true] at hg
    rw [Logged.value_bind] at hg
    exact ⟨g, hg⟩
  · intro h
    by_cases hfile : ∃ file, path = some file ∧ files.exists? file = true
    · obtain ⟨file, rfl, hexists⟩ := hfile
      obtain ⟨g, hg⟩ := h file rfl hexists
      exact ⟨g, base_of_load hg⟩
    · refine ⟨standard, base_of_missing fun file hpath => ?_⟩
      exact Bool.eq_false_iff.mpr fun hexists => hfile ⟨file, hpath, hexists⟩

theorem value_compose_congr {files' : FileTree} {path' : Option Path}
    (h : (base files path).value = (base files' path').value) :
    (compose files path bios o now).value = (compose files' path' bios o now).value := by
  simp only [compose, Logged.value_bind, h]

theorem compose_eq_biosWithoutKey_iff :
    (compose files path bios o now).value = .error (.rejected .biosWithoutKey) ↔
      bios.firstPublicKey = none ∧ ∃ g, (base files path).value = .ok g := by
  unfold compose
  rw [Logged.value_bind]
  cases (base files path).value with
  | error e => simp
  | ok g =>
    unfold finish
    cases bios.firstPublicKey with
    | none => simp
    | some key =>
      dsimp only
      split <;> simp

/-- A text that stands for a time does not ask for the clock. -/
theorem not_asksClock_of_denotes {below : String} {t : Timestamp}
    (h : Timestamp.Denotes (o.initialTimestamp.getD below) t) : ¬ o.AsksClock := by
  intro hasks
  rw [show o.initialTimestamp = some "now" from hasks, Option.getD_some] at h
  have hread := Timestamp.ofText_eq_ok_iff.mpr h
  have hunread : (Timestamp.ofText "now").toOption = none := by decide +kernel
  rw [hread] at hunread
  cases hunread

/-- A genesis is composed in layers: for every file that can be read, a bios node with a key and a
text that stands for a time, each value is that of its layer and the rest is what was read. Without
a file the result is that of a file with an empty object. What is wrong is that the bios node has no
key exactly if it has none and nothing is wrong with the file. -/
theorem compose_in_layers (files : FileTree) (path : Option Path) (bios : Node) (o : Overrides)
    (now : Timestamp) :
    (∀ file g key t, load files file = .ok g → bios.keys.head? = some key →
      Timestamp.Denotes (o.initialTimestamp.getD g.initialTimestamp) t →
      ∃ text fields composed,
        files.readText file = some text ∧ Raw.ofText? text = some (.object fields) ∧
        (compose files (some file) bios o now).value = .ok composed ∧
        Layers fields key.publicKey o composed ∧ composed.extra = g.extra) ∧
    ((∀ file, path = some file → files.exists? file = false) →
      ∀ files' file text, files'.readText file = some text → Raw.ofText? text = some (.object []) →
        (compose files path bios o now).value = (compose files' (some file) bios o now).value) ∧
    ((compose files path bios o now).value = .error (.rejected .biosWithoutKey) ↔
      bios.keys = [] ∧
      ∀ file, path = some file → files.exists? file = true → ∃ g, load files file = .ok g) := by
  refine ⟨?_, ?_, ?_⟩
  · intro file g key t hload hkeys ht
    obtain ⟨text, htext, hread⟩ := load_eq_ok_iff.mp hload
    obtain ⟨r, hraw, hr⟩ := Option.bind_eq_some_iff.mp hread
    obtain ⟨fields, rfl, _⟩ := extra?_of_ofJson? hr
    have hkey : bios.firstPublicKey = some key.publicKey := by
      rw [Node.firstPublicKey, hkeys, Option.map_some]
    have hclock := not_asksClock_of_denotes ht
    have htimestamp : o.timestamp now g.initialTimestamp = .ok t.text := by
      rw [Overrides.timestamp_of_not_asksClock hclock]
      exact normalTimestamp_eq_ok_iff.mpr ⟨t, ht, rfl⟩
    have hfinish := finish_eq_ok_iff.mpr ⟨key.publicKey, t.text, hkey, htimestamp, rfl⟩
    exact ⟨text, fields, _, htext, hraw, compose_eq_ok_iff.mpr ⟨g, base_of_load hload, hfinish⟩,
      layers_of_finish hr hkey hclock hfinish, rfl⟩
  · intro hmissing files' file text htext hraw
    have hempty : ofText? text = some standard := by
      rw [ofText?, hraw]
      rfl
    have hload : load files' file = .ok standard := load_eq_ok_iff.mpr ⟨text, htext, hempty⟩
    exact value_compose_congr ((base_of_missing hmissing).trans (base_of_load hload).symm)
  · rw [compose_eq_biosWithoutKey_iff, exists_base_iff, Node.firstPublicKey, Option.map_eq_none_iff,
      List.head?_eq_none_iff]

/-- A file with one limit and without a time, and another limit overridden. A file that is not
there, and one with an empty object. A node without keys. -/
theorem compose_in_layers_of_foreign :
    let bios : Node :=
      ⟨-100, "bios", ⟨"etc"⟩, ⟨"var"⟩, [], [], ⟨9776, 8788⟩, false, [.development]⟩
    let o : Overrides := ⟨some 5, none, none⟩
    let now : Timestamp := ⟨2024, 2, 29, 12, 0, 0, 0⟩
    let blank : FileTree := ⟨[], [(["e.json"], .file (.text (Value.object []).indented))]⟩
    (∃ g, (compose foreignFiles (some ⟨"g.json"⟩) bios o now).value = .ok g ∧
      g.initialKey = KeyPair.development.publicKey ∧
      g.limits.value "max_block_cpu_usage" = 5 ∧ g.limits.value "max_authority_depth" = 7 ∧
      g.limits.value "max_transaction_cpu_usage" = 150000 ∧ g.extra = foreignGenesis.extra) ∧
    (compose foreignFiles (some ⟨"no.json"⟩) bios o now).value =
      (compose blank (some ⟨"e.json"⟩) bios o now).value ∧
    (compose foreignFiles (some ⟨"g.json"⟩) { bios with keys := [] } o now).value =
      .error (.rejected .biosWithoutKey) := by
  intro bios o now blank
  have htime : Timestamp.Denotes standardTimestamp ⟨2018, 6, 1, 12, 0, 0, 0⟩ :=
    Timestamp.ofText_eq_ok_iff.mp (by decide +kernel)
  obtain ⟨hlayers, hmissing, _⟩ := compose_in_layers foreignFiles (some ⟨"no.json"⟩) bios o now
  obtain ⟨_, _, hkeyless⟩ :=
    compose_in_layers foreignFiles (some ⟨"g.json"⟩) { bios with keys := [] } o now
  refine ⟨?_, ?_, hkeyless.mpr ⟨rfl, ?_⟩⟩
  · obtain ⟨text, fields, g, htext, hraw, hg, hlayers, hextra⟩ :=
      hlayers ⟨"g.json"⟩ foreignGenesis .development _ load_foreignFiles rfl htime
    have hsource : foreignFiles.readText ⟨"g.json"⟩ = some foreignDocument.indented := rfl
    rw [hsource, Option.some.injEq] at htext
    rw [← htext] at hraw
    cases hraw.symm.trans ofText?_foreignDocument
    have hblock := hlayers.limits "max_block_cpu_usage" (by decide)
    have hdepth := hlayers.limits "max_authority_depth" (by decide)
    have htransaction := hlayers.limits "max_transaction_cpu_usage" (by decide)
    refine ⟨g, hg, hlayers.key, ?_, ?_, ?_, hextra⟩
    · exact Option.some.inj ((layered_iff.mp hblock).symm.trans (by decide +kernel))
    · exact Option.some.inj ((layered_iff.mp hdepth).symm.trans (by decide +kernel))
    · exact Option.some.inj ((layered_iff.mp htransaction).symm.trans (by decide +kernel))
  · refine hmissing ?_ blank ⟨"e.json"⟩ _ rfl (Json.ofText?_indented trivial)
    intro file hfile
    cases hfile
    decide +kernel
  · intro file hfile _
    cases hfile
    exact ⟨foreignGenesis, load_foreignFiles⟩

end Genesis

end Testnet
