import Testnet.Proofs.Json.Fields
import Testnet.Proofs.Output

/-!
# A genesis that is rewritten

A genesis that was read from a file and is written out again is read back as it was. So writing
loses nothing that reading has kept, and fields without a meaning stand in the new file as in the
old one. What reading drops is lost, and that is every field among the limits but the limits.
-/

namespace Testnet.Genesis

open Json

variable {files tree after : FileTree} {path target : Path} {g : Genesis}

theorem readText_of_store (h : g.store tree target = .ok after) :
    after.readText target = some g.toJson.indented := (FileTree.holds_of_writeDocument h).1.readText

/-- Whatever file a genesis was read from and wherever it is written, it is read back as it was, and
can be written there again. Wherever it is written the text is the same. -/
theorem load_of_store (files tree : FileTree) (path target : Path) (g : Genesis) (after : FileTree)
    (hload : load files path = .ok g) (hwhole : ∀ f ∈ g.extra, f.2.IsWhole)
    (hstore : g.store tree target = .ok after) :
    load after target = .ok g ∧ (∃ again, g.store after target = .ok again) ∧
    ∀ tree' target' again, g.store tree' target' = .ok again →
      again.readText target' = after.readText target := by
  obtain ⟨hholds, hstands⟩ := FileTree.holds_of_writeDocument hstore
  refine ⟨load_text (passed_of_load hload hwhole) hholds.readText, ?_, ?_⟩
  · obtain ⟨again, hagain, _⟩ :=
      FileTree.writeDocument_of_stands hstands .genesis g.toJson.indented
    exact ⟨again, hagain⟩
  · intro tree' target' again hagain
    rw [readText_of_store hagain, hholds.readText]

/-- A genesis is based on the file that it is loaded from. -/
theorem base_of_load {file : Path} (h : load files file = .ok g) :
    (base files (some file)).value = .ok g := by
  obtain ⟨text, htext, _⟩ := load_eq_ok_iff.mp h
  simp only [base, (FileTree.holds_of_readText htext).exists?, if_true]
  rw [Logged.value_bind]
  exact h

section Foreign

open Value

/-- A document with fields without a meaning, beside the known ones and among the limits. -/
def foreignDocument : Value :=
  .object
    [("initial_chain_id", .string "c0ffee"),
      ("initial_configuration",
        .object [("max_ram", .ofNat 64), ("max_authority_depth", .ofNat 7)]),
      ("features", .array [.ofInt (-1), .object [("b", .null), ("a", .bool true)]])]

def foreignFiles : FileTree := ⟨[], [(["g.json"], .file (.text foreignDocument.indented))]⟩

/-- What is read of it. -/
def foreignGenesis : Genesis where
  initialTimestamp := standardTimestamp
  initialKey := ""
  limits := { Limits.standard with maxAuthorityDepth := 7 }
  extra :=
    [("features", .array [.ofInt (-1), .object [("a", .bool true), ("b", .null)]]),
      ("initial_chain_id", .string "c0ffee")]

theorem ofText?_foreignDocument :
    Raw.ofText? foreignDocument.indented = some foreignDocument.raw := by
  apply Json.ofText?_indented
  simp [foreignDocument, IsWhole, FieldsWhole, AreWhole, ofNat, ofInt]

theorem load_foreignFiles : load foreignFiles ⟨"g.json"⟩ = .ok foreignGenesis := by
  refine load_eq_ok_iff.mpr ⟨foreignDocument.indented, rfl, ?_⟩
  rw [ofText?, ofText?_foreignDocument]
  rfl

theorem isWhole_foreignGenesis : ∀ f ∈ foreignGenesis.extra, f.2.IsWhole := by
  simp [foreignGenesis, IsWhole, FieldsWhole, AreWhole, ofInt]

end Foreign

/-- Two fields that are passed on, one of them with fields out of order, and a limit. -/
theorem load_of_store_of_foreign :
    ∃ after again, foreignGenesis.store foreignFiles ⟨"out/g.json"⟩ = .ok after ∧
      load after ⟨"out/g.json"⟩ = .ok foreignGenesis ∧
      foreignGenesis.store after ⟨"out/g.json"⟩ = .ok again ∧
      again.readText ⟨"out/g.json"⟩ = after.readText ⟨"out/g.json"⟩ := by
  obtain ⟨after, hstore⟩ : ∃ after, foreignGenesis.store foreignFiles ⟨"out/g.json"⟩ = .ok after :=
    ⟨_, rfl⟩
  obtain ⟨hload, ⟨again, hagain⟩, hsame⟩ := load_of_store foreignFiles foreignFiles ⟨"g.json"⟩
    ⟨"out/g.json"⟩ foreignGenesis after load_foreignFiles isWhole_foreignGenesis hstore
  exact ⟨after, again, hstore, hload, hagain, hsame _ _ again hagain⟩

/-- Two objects say the same under a name: nothing, or one value. -/
def SaySame (fields fields' : List (Option String × Raw)) (name : String) : Prop :=
  ∃ v? : Option Value, (last? fields (some name)).map (Raw.kept? extraDepth) = v?.map some ∧
    (last? fields' (some name)).map (Raw.kept? extraDepth) = v?.map some

/-- The fields in the text of a genesis. -/
def writtenFields (g : Genesis) : List (Option String × Raw) := Value.rawFields (g.known ++ g.extra)

theorem ofText?_raw (h : Passed g.extra) :
    Raw.ofText? g.toJson.indented = some (.object g.writtenFields) :=
  Json.ofText?_indented (isWhole_toJson h)

/-- What a genesis passes on is what the last fields of other names say where it was read. -/
theorem map_last?_of_extra? {fields : List (Option String × Raw)} (h : extra? fields = some g.extra)
    {name : String} (hname : name ∉ fieldNames) :
    (last? fields (some name)).map (Raw.kept? extraDepth) = (g.extra.lookup name).map some := by
  obtain ⟨kept, hkept, hsorted⟩ := Option.map_eq_some_iff.mp h
  have hforeign : ∀ _ : Raw, (!(some name).any fieldNames.contains) = true := by
    intro _
    simpa using hname
  rw [← hsorted, Raw.lookup_sortFields, ← Raw.last?_keptFields? hkept, last?_filter hforeign]

/-- What a genesis passes on stands where it is written. -/
theorem map_last?_writtenFields (h : Passed g.extra) {name : String} (hname : name ∉ fieldNames) :
    (last? g.writtenFields (some name)).map (Raw.kept? extraDepth) =
      (g.extra.lookup name).map some := by
  have hknown : last? g.known name = none := last?_eq_none hname
  rw [writtenFields, last?_rawFields, last?_append, hknown, Option.or_none,
    Raw.last?_of_sorted h.sorted]
  cases hlookup : g.extra.lookup name with
  | none => rfl
  | some v =>
    obtain ⟨before, after, hextra, _⟩ := List.lookup_eq_some_iff.mp hlookup
    have hmem : (name, v) ∈ g.extra := by
      rw [hextra]
      exact List.mem_append_right _ (List.mem_cons_self ..)
    exact congrArg some (Raw.kept?_raw (h.kept _ hmem))

/-- The limits are written under their own names and nothing else is. -/
theorem last?_limits (h : Passed g.extra) :
    last? g.writtenFields (some "initial_configuration") =
      some (.object (Value.rawFields g.limits.named)) := by
  -- A field that is passed on cannot stand after the limits under their name.
  have hextra : last? g.extra "initial_configuration" = none := by
    apply last?_eq_none
    intro hmem
    obtain ⟨f, hf, hname⟩ := List.mem_map.mp hmem
    exact h.foreign f hf (hname ▸ by decide)
  rw [writtenFields, last?_rawFields, last?_append, hextra]
  rfl

/-- Whatever file a genesis was read from, a field without a meaning beside the known ones says the
same in the file that is written, and none is added. Of the limits the new file has exactly those
with a meaning, so all other fields that stood among them are lost. -/
theorem store_says_same (files tree : FileTree) (path target : Path) (g : Genesis)
    (after : FileTree) (hload : load files path = .ok g) (hwhole : ∀ f ∈ g.extra, f.2.IsWhole)
    (hstore : g.store tree target = .ok after) :
    ∃ read written fields fields' limits,
      files.readText path = some read ∧ Raw.ofText? read = some (.object fields) ∧
      after.readText target = some written ∧ Raw.ofText? written = some (.object fields') ∧
      (∀ name, name ∉ fieldNames → SaySame fields fields' name) ∧
      last? fields' (some "initial_configuration") = some (.object limits) ∧
      limits.map (·.1) = Limits.fieldNames.map some := by
  obtain ⟨read, htext, hread⟩ := load_eq_ok_iff.mp hload
  obtain ⟨r, hraw, hr⟩ := Option.bind_eq_some_iff.mp hread
  obtain ⟨fields, rfl, hextra⟩ := extra?_of_ofJson? hr
  have hpassed := passed_of_load hload hwhole
  refine ⟨read, _, fields, g.writtenFields, _, htext, hraw, readText_of_store hstore,
    ofText?_raw hpassed, ?_, last?_limits hpassed, ?_⟩
  · intro name hname
    exact ⟨_, map_last?_of_extra? hextra hname, map_last?_writtenFields hpassed hname⟩
  · rw [Value.rawFields_eq_map, List.map_map, ← g.limits.map_fst_named, List.map_map]
    rfl

/-- The identifier of the chain stands in both files. What stood among the limits without being one
of them is in the old file only. -/
theorem store_says_same_of_foreign :
    ∃ after written fields fields' inner limits,
      foreignGenesis.store foreignFiles ⟨"out.json"⟩ = .ok after ∧
      after.readText ⟨"out.json"⟩ = some written ∧
      Raw.ofText? foreignDocument.indented = some (.object fields) ∧
      Raw.ofText? written = some (.object fields') ∧
      SaySame fields fields' "initial_chain_id" ∧
      last? fields (some "initial_configuration") = some (.object inner) ∧
      (last? inner (some "max_ram")).isSome = true ∧
      last? fields' (some "initial_configuration") = some (.object limits) ∧
      last? limits (some "max_ram") = none := by
  obtain ⟨after, hstore⟩ : ∃ after, foreignGenesis.store foreignFiles ⟨"out.json"⟩ = .ok after :=
    ⟨_, rfl⟩
  obtain ⟨read, written, fields, fields', limits, htext, hread, hwritten, hfields', hsame, hlimits,
      hnames⟩ := store_says_same foreignFiles foreignFiles ⟨"g.json"⟩ ⟨"out.json"⟩ foreignGenesis
    after load_foreignFiles isWhole_foreignGenesis hstore
  have hsource : foreignFiles.readText ⟨"g.json"⟩ = some foreignDocument.indented := rfl
  rw [hsource, Option.some.injEq] at htext
  rw [← htext] at hread
  have hraw := hread.symm.trans ofText?_foreignDocument
  cases hraw
  have hlost : last? limits (some "max_ram") = none := by
    apply last?_eq_none
    rw [hnames]
    decide
  exact ⟨after, written, _, fields', _, limits, hstore, hwritten, hread, hfields',
    hsame _ (by decide), rfl, rfl, hlimits, hlost⟩

end Testnet.Genesis
