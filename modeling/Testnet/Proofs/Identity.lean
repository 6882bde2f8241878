import Mathlib.Data.List.Nodup
import Testnet.Proofs.Genesis.Rewrite
import Testnet.Proofs.Redeclared

/-!
# Who is who in a network

Whether its nodes were made by a rule or declared by a file, a network that was built tells them
apart by name and by index, and both say which one is the bios node. So looking up a node finds it,
peers are nodes, and the chain starts with the key of the bios node.
-/

namespace Testnet

/-- Nodes told apart by their names and by their indices, one of which is the bios node by both. -/
structure Identified (nodes : List Node) : Prop where
  names : (nodes.map (·.name)).Nodup
  indices : (nodes.map (·.index)).Nodup
  bios : Node.biosName ∈ nodes.map (·.name)
  isBios_iff : ∀ n ∈ nodes, n.isBios = true ↔ n.name = Node.biosName

variable {σ : Type} {c : Config} {files : FileTree} {source : KeySource σ} {state : σ} {s : Shape}
  {nodes : List Node} {net : Network}

theorem identified_of_generated (h : (generatedNodes c s source state).result = .ok nodes) :
    Identified nodes := by
  obtain ⟨hreserved, hindices⟩ := indicesFree_generated h
  constructor
  case names => exact nodup_names_generated h
  case indices => exact Topology.free_nil_iff.mp hindices
  case bios => exact biosName_mem_generated h
  case isBios_iff =>
    intro n hn
    rw [Node.isBios, beq_iff_eq]
    exact ⟨hreserved n hn, (declarable_generated h n hn).bios⟩

theorem identified_of_declared {t : Topology} {path : Path} {f : Factory} {a : Allocator}
    (h : t.declaredNodes path f a = .ok nodes) : Identified nodes := by
  obtain ⟨hcheck, hfilled, hidentities, _⟩ := Topology.declaredNodes_eq_ok_iff.mp h
  obtain ⟨hnames, hbios, _⟩ := Topology.check_eq_ok_iff.mp hcheck
  obtain ⟨hfilledNames, hindex⟩ := Topology.fillFrom_identity hfilled
  obtain ⟨⟨hreserved, hindices⟩, _⟩ := Topology.checkIdentities_eq_ok_iff.mp hidentities
  constructor
  case names => rwa [hfilledNames]
  case indices => exact Topology.free_nil_iff.mp hindices
  case bios => rwa [hfilledNames]
  case isBios_iff =>
    intro n hn
    rw [Node.isBios, beq_iff_eq]
    exact ⟨hreserved n hn, hindex n hn⟩

theorem identified_of_shaped (h : (shapedNodes c files source state s).result = .ok nodes) :
    Identified nodes := by
  cases s with
  | custom path =>
    obtain ⟨t, _, hdeclared⟩ := loadedNodes_eq_ok_iff.mp h
    exact identified_of_declared hdeclared
  | _ => exact identified_of_generated h

/-- What is looked up by something that stands once is found. -/
theorem find?_of_nodup {α β : Type} [BEq β] [LawfulBEq β] {l : List α} {g : α → β}
    (h : (l.map g).Nodup) {x : α} (hx : x ∈ l) : l.find? (g · == g x) = some x := by
  induction l with
  | nil => cases hx
  | cons y rest ih =>
    rw [List.map_cons, List.nodup_cons] at h
    rw [List.find?_cons]
    rcases List.mem_cons.mp hx with rfl | hx
    · rw [beq_self_eq_true]
    · have hne : (g y == g x) = false :=
        beq_eq_false_iff_ne.mpr fun heq => h.1 (heq ▸ List.mem_map_of_mem hx)
      rw [hne]
      exact ih h.2 hx

/-- What stands once is all that is like it. -/
theorem filter_of_nodup {α β : Type} [BEq β] [LawfulBEq β] {l : List α} {g : α → β}
    (h : (l.map g).Nodup) {x : α} (hx : x ∈ l) : l.filter (g · == g x) = [x] := by
  induction l with
  | nil => cases hx
  | cons y rest ih =>
    rw [List.map_cons, List.nodup_cons] at h
    rw [List.filter_cons]
    rcases List.mem_cons.mp hx with rfl | hx
    · rw [if_pos (beq_self_eq_true _), List.cons.injEq, List.filter_eq_nil_iff]
      exact ⟨rfl, fun z hz heq => h.1 (beq_iff_eq.mp heq ▸ List.mem_map_of_mem hz)⟩
    · have hne : ¬ (g y == g x) = true :=
        fun heq => h.1 (beq_iff_eq.mp heq ▸ List.mem_map_of_mem hx)
      rw [if_neg hne, ih h.2 hx]

theorem Identified.find?_name (h : Identified nodes) {n : Node} (hn : n ∈ nodes) :
    nodes.find? (·.name == n.name) = some n := find?_of_nodup h.names hn

theorem Identified.find?_index (h : Identified nodes) {n : Node} (hn : n ∈ nodes) :
    nodes.find? (·.index == n.index) = some n := find?_of_nodup h.indices hn

/-- A name stands for one node. -/
theorem Identified.eq_of_name (h : Identified nodes) {n m : Node} (hn : n ∈ nodes) (hm : m ∈ nodes)
    (hname : n.name = m.name) : n = m := List.inj_on_of_nodup_map h.names hn hm hname

/-- An index stands for one node. -/
theorem Identified.eq_of_index (h : Identified nodes) {n m : Node} (hn : n ∈ nodes)
    (hm : m ∈ nodes) (hindex : n.index = m.index) : n = m :=
  List.inj_on_of_nodup_map h.indices hn hm hindex

/-- The bios node of a network made by a rule is its first node. -/
theorem find?_bios_generated (h : (generatedNodes c s source state).result = .ok nodes) :
    ∃ bios, nodes[0]? = some bios ∧ bios.origin = c.factory.nodeAt c.allocator 0 ∧
      nodes.find? (·.name == Node.biosName) = some bios := by
  have hget := getElem?_origin h 0
  rw [if_pos (plan_of_generated h).1, Option.map_eq_some_iff] at hget
  obtain ⟨bios, hbios, horigin⟩ := hget
  have hname : bios.name = Node.biosName := congrArg (·.name) horigin
  refine ⟨bios, hbios, horigin, ?_⟩
  rw [← hname]
  exact (identified_of_generated h).find?_name (List.mem_of_getElem? hbios)

/-- Whatever a network was built from, its nodes are told apart by name and by index, so that what
is looked up is found. One of them is the bios node, by its name and by its index, and the chain
starts with its key. Peers are other nodes of the network. -/
theorem build_identified (c : Config) (files : FileTree) (now : Timestamp) (source : KeySource σ)
    (state : σ) (net : Network) (hbuild : (build c files now source state).result = .ok net) :
    (net.nodes.map (·.name)).Nodup ∧ (net.nodes.map (·.index)).Nodup ∧
    (∃ bios ∈ net.nodes, net.bios? = some bios ∧ bios.name = Node.biosName ∧
      bios.index = Node.biosIndex ∧
      (∀ n ∈ net.nodes, (n.name = Node.biosName ↔ n = bios) ∧ (n.isBios = true ↔ n = bios)) ∧
      bios.firstPublicKey = some net.genesis.initialKey) ∧
    (∀ n ∈ net.nodes, net.node? n.name = some n ∧ net.nodeByIndex? n.index = some n) ∧
    ∀ n ∈ net.nodes, ∀ peer ∈ n.peers, ∃ m ∈ net.nodes, m ≠ n ∧ m.name = peer := by
  obtain ⟨_, shape, bios, _, hnodes, hgraph, hfind, hgenesis, _⟩ := build_eq_ok_iff.mp hbuild
  have hidentified := identified_of_shaped hnodes
  have hbios : bios ∈ net.nodes := List.mem_of_find?_eq_some hfind
  have hname : bios.name = Node.biosName := by
    have hfound := List.find?_some hfind
    exact beq_iff_eq.mp hfound
  have hbyName : ∀ n ∈ net.nodes, (n.name = Node.biosName ↔ n = bios) := by
    intro n hn
    constructor
    · intro h
      exact hidentified.eq_of_name hn hbios (h.trans hname.symm)
    · intro h
      rw [h, hname]
  have hbyIndex : ∀ n ∈ net.nodes, (n.isBios = true ↔ n = bios) := fun n hn =>
    (hidentified.isBios_iff n hn).trans (hbyName n hn)
  refine ⟨hidentified.names, hidentified.indices, ⟨bios, hbios, hfind, hname, ?_, ?_, ?_⟩, ?_, ?_⟩
  · exact beq_iff_eq.mp ((hbyIndex bios hbios).mpr rfl)
  · exact fun n hn => ⟨hbyName n hn, hbyIndex n hn⟩
  · obtain ⟨g, _, hfinish⟩ := Genesis.compose_eq_ok_iff.mp hgenesis
    obtain ⟨key, _, hkey, _, hmade⟩ := Genesis.finish_eq_ok_iff.mp hfinish
    rw [hkey, hmade]
  · exact fun n hn => ⟨hidentified.find?_name hn, hidentified.find?_index hn⟩
  · intro n hn peer hpeer
    obtain ⟨hself, hknown⟩ := Peering.checkGraph_eq_ok_iff.mp hgraph n hn peer hpeer
    obtain ⟨m, hm, hpeerName⟩ := List.mem_map.mp hknown
    refine ⟨m, hm, fun heq => hself ?_, hpeerName⟩
    rw [← heq, hpeerName]

section Mixed

/-- A topology with the bios node among others, with indices below zero and without any. -/
def mixedTopology : Topology :=
  let blank : Description := ⟨none, [], [], false, none, none, []⟩
  ⟨"custom_",
    [("seed", { blank with index := some (-7), peers := ["bios", "late"] }),
      ("bios", { blank with producers := ["eosio"], keys := [⟨"PUB_own", "PRIV_own"⟩] }),
      ("late", { blank with peers := ["bios"], dontStart := true }),
      ("api", { blank with index := some 3, peers := ["seed"] })]⟩

/-- A genesis with the key of another chain. -/
def otherGenesis : Genesis := { Genesis.foreignGenesis with initialKey := "PUB_other" }

def mixedConfig : Config :=
  { Config.ofFile with genesis := { Config.GenesisSource.clocked with path := some ⟨"g.json"⟩ } }

/-- A file for the topology and one for the genesis. -/
def mixedFiles (topology genesis : String) : FileTree :=
  ⟨[], [(["t.json"], .file (.text topology)), (["g.json"], .file (.text genesis))]⟩

theorem load_otherGenesis (topology : String) :
    Genesis.load (mixedFiles topology otherGenesis.toJson.indented) ⟨"g.json"⟩ =
      .ok otherGenesis := by
  have hpassed : Genesis.Passed Genesis.foreignGenesis.extra :=
    Genesis.passed_of_load Genesis.load_foreignFiles Genesis.isWhole_foreignGenesis
  have hread (text : String) : (mixedFiles topology text).readText ⟨"g.json"⟩ = some text := rfl
  have hload := @Genesis.load_text otherGenesis _ _ hpassed (hread otherGenesis.toJson.indented)
  exact hload

end Mixed

/-- The topology with the bios node among others is built, and the genesis gets the key of that
node and the time of the clock. -/
theorem build_identified_of_mixed :
    ∃ (files : FileTree) (net : Network) (bios : Node),
      Genesis.load files ⟨"g.json"⟩ = .ok otherGenesis ∧
      (build mixedConfig files .leapDay .numbered 0).result = .ok net ∧
      net.nodes.map (·.index) = [-7, -100, -6, 3] ∧ net.bios? = some bios ∧
      net.nodeByIndex? Node.biosIndex = some bios ∧
      bios.firstPublicKey = some net.genesis.initialKey ∧ net.genesis.initialKey = "PUB_own" := by
  let files := mixedFiles mixedTopology.text otherGenesis.toJson.indented
  have hcheck : mixedConfig.check = .ok () := eq_ok_of_isSome (by decide +kernel)
  have hshape (first second : String) :
      Shape.resolve (mixedFiles first second) "t.json" = .ok (.custom ⟨"t.json"⟩) := rfl
  have hread (first second : String) :
      (mixedFiles first second).readText ⟨"t.json"⟩ = some first := rfl
  obtain ⟨nodes, hdeclared, hgraph, hindices, hown⟩ : ∃ nodes,
      mixedTopology.declaredNodes ⟨"t.json"⟩ mixedConfig.factory mixedConfig.allocator =
        .ok nodes ∧
      Peering.checkGraph nodes = .ok () ∧ nodes.map (·.index) = [-7, -100, -6, 3] ∧
      (nodes.find? (·.name == Node.biosName)).bind Node.firstPublicKey = some "PUB_own" :=
    exists_of_any (by decide +kernel)
  obtain ⟨first, hfirst, hkey⟩ := Option.bind_eq_some_iff.mp hown
  have hload := load_otherGenesis mixedTopology.text
  have hasks : mixedConfig.genesisOverrides.AsksClock := rfl
  have hnodes : (shapedNodes mixedConfig files .numbered 0 (.custom ⟨"t.json"⟩)).result =
      .ok nodes := loadedNodes_eq_ok_iff.mpr ⟨_, Topology.load_text (hread _ _), hdeclared⟩
  have hbuild : (build mixedConfig files .leapDay .numbered 0).result = .ok _ :=
    build_of_shaped hcheck (hshape _ _) hnodes hgraph hfirst hkey (Genesis.base_of_load hload)
      (Genesis.Overrides.timestamp_of_asksClock hasks _)
  obtain ⟨_, _, ⟨bios, hmem, hbios, _, hindex, _, hinitial⟩, hlookup, _⟩ :=
    build_identified mixedConfig files .leapDay .numbered 0 _ hbuild
  refine ⟨files, _, bios, hload, hbuild, hindices, hbios, ?_, hinitial, rfl⟩
  rw [← hindex]
  exact (hlookup bios hmem).2

end Testnet
