import Testnet.Proofs.Json.Decode
import Testnet.Topology.Store

/-!
# Topologies as texts

The text of a topology says all of it: what is read back is what was written, whatever the names,
and with every index and port there or left out.
-/

namespace Testnet

open Json

namespace KeyPair

theorem isWhole_toJson (k : KeyPair) : k.toJson.IsWhole := ⟨trivial, trivial, trivial⟩

theorem ofJson?_raw (k : KeyPair) : ofJson? k.toJson.raw = some k := by
  have hnodup : (["pubkey", "privkey"] : List String).Nodup := by decide
  have hmembers : k.toJson.raw.members? ["pubkey", "privkey"] =
      some [some (.string (some k.publicKey)), some (.string (some k.privateKey))] := by
    rw [toJson, Raw.members?_raw_of_nodup]
    · rfl
    · exact hnodup
  rw [ofJson?, hmembers]
  rfl

end KeyPair

namespace Description

theorem isWhole_toJson (d : Description) : d.toJson.IsWhole := by
  have hindex : Value.FieldsWhole (Value.optional "index" (d.index.map fun i => .ofInt i.toInt)) :=
    Value.fieldsWhole_optional fun _ => trivial
  have hp2p : Value.FieldsWhole (Value.optional "p2p_port" (d.p2pPort.map port)) :=
    Value.fieldsWhole_optional fun _ => trivial
  have hhttp : Value.FieldsWhole (Value.optional "http_port" (d.httpPort.map port)) :=
    Value.fieldsWhole_optional fun _ => trivial
  have hkeys : (Value.array (d.keys.map KeyPair.toJson)).IsWhole :=
    Value.isWhole_array fun k _ => k.isWhole_toJson
  unfold toJson Value.IsWhole
  rw [Value.fieldsWhole_append, Value.fieldsWhole_append, Value.fieldsWhole_append,
    Value.fieldsWhole_append]
  exact ⟨⟨⟨⟨hindex, Value.isWhole_ofStrings _, Value.isWhole_ofStrings _, trivial, trivial⟩, hp2p⟩,
    hhttp⟩, hkeys, trivial⟩

/-- Every field of a description is found under its name. -/
theorem members?_raw (d : Description) : d.toJson.raw.members? fieldNames =
    some [(d.index.map fun i => Value.ofInt i.toInt).map Value.raw,
      some (Value.ofStrings d.peers).raw, some (Value.ofStrings d.producers).raw,
      some (Value.bool d.dontStart).raw, (d.p2pPort.map port).map Value.raw,
      (d.httpPort.map port).map Value.raw,
      some (Value.array (d.keys.map KeyPair.toJson)).raw] := by
  obtain ⟨index, peers, producers, dontStart, p2pPort, httpPort, keys⟩ := d
  rw [toJson, Raw.members?_raw_of_nodup]
  · simp [fieldNames, List.lookup_append, Raw.lookup_optional, List.lookup_cons]
  · cases index <;> cases p2pPort <;> cases httpPort <;> simp [Value.optional]

theorem ofJson?_raw (d : Description) : ofJson? d.toJson.raw = some d := by
  have hindex := Raw.orElse?_optional Raw.int32?_toInt (fun _ => nofun) d.index
  have hp2p := @Raw.orElse?_optional _ Raw.port? port Raw.port?_toNat (fun _ => nofun) d.p2pPort
  have hhttp := @Raw.orElse?_optional _ Raw.port? port Raw.port?_toNat (fun _ => nofun) d.httpPort
  have hpeers := Raw.strings?_raw d.peers
  have hproducers := Raw.strings?_raw d.producers
  have hstart : (Value.bool d.dontStart).raw.bool? = some d.dontStart := rfl
  have hkeys : Raw.list? KeyPair.ofJson? (Value.array (d.keys.map KeyPair.toJson)).raw =
      some d.keys := Raw.list?_raw fun k _ => k.ofJson?_raw
  rw [ofJson?, members?_raw]
  simp only [Option.bind_eq_bind, Option.bind_some, hindex, Raw.orElse?_some, hpeers, hproducers,
    hstart, hp2p, hhttp, hkeys]
  rfl

end Description

namespace Topology

theorem isWhole_toJson (t : Topology) : t.toJson.IsWhole := by
  refine ⟨trivial, ?_, trivial⟩
  exact Value.isWhole_array fun n _ => ⟨trivial, n.2.isWhole_toJson, trivial⟩

theorem ofJson?_raw (t : Topology) : ofJson? t.toJson.raw = some t := by
  have hnodup : (["name", "nodes"] : List String).Nodup := by decide
  have hmembers : t.toJson.raw.members? ["name", "nodes"] = some [some (.string (some t.name)),
      some (Value.array (t.nodes.map fun n => .array [.string n.1, n.2.toJson])).raw] := by
    rw [toJson, Raw.members?_raw_of_nodup]
    · rfl
    · exact hnodup
  have hname : (Raw.string (some t.name)).string? = some t.name := rfl
  have hnodes : Raw.list? (Raw.pair? Raw.string? Description.ofJson?)
      (Value.array (t.nodes.map fun n => .array [.string n.1, n.2.toJson])).raw = some t.nodes := by
    apply Raw.list?_raw
    intro n _
    show (do return (← some n.1, ← Description.ofJson? n.2.toJson.raw)) = some n
    rw [n.2.ofJson?_raw]
    rfl
  rw [ofJson?, hmembers]
  simp only [Option.bind_eq_bind, Option.bind_some, Raw.required?_some, hname, hnodes]
  rfl

/-- A topology is read back from its text as it was. -/
theorem ofText?_text (t : Topology) : ofText? t.text = some t := by
  unfold ofText? text
  rw [ofText?_indented t.isWhole_toJson]
  exact t.ofJson?_raw

/-- A file that holds the text of a topology holds the topology. -/
theorem load_text {files : FileTree} {path : Path} {t : Topology}
    (h : files.readText path = some t.text) : load files path = .ok t :=
  FileTree.readDocument_eq_ok_iff.mpr ⟨_, h, t.ofText?_text⟩

/-- The text of a topology is read back as the topology it is of, whatever characters its names and
keys are made of and whatever its descriptions leave out, with everything in the same order. So
different topologies have different texts. -/
theorem text_says_all (t t' : Topology) :
    (ofText? t.text = some t' ↔ t = t') ∧ (t.text = t'.text ↔ t = t') := by
  have hread := t.ofText?_text
  constructor
  · rw [hread, Option.some.injEq]
  · constructor
    · intro htext
      rw [htext, t'.ofText?_text] at hread
      exact (Option.some.inj hread).symm
    · intro h
      rw [h]

end Topology

end Testnet
