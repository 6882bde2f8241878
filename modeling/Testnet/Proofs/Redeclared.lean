import Testnet.Proofs.DeclaredAgain
import Testnet.Proofs.Generated
import Testnet.Proofs.Peering.Graph
import Testnet.Proofs.Topology

/-!
# Networks declared by their own topology

What a rule has made fits together: names, indices, peers and accounts of the network pass every
check that a topology file has to pass. Only the ports may not, since the two bases are chosen apart
from each other; how far they have to be apart is said here.
-/

namespace Testnet

variable {σ : Type} {c : Config} {files : FileTree} {source : KeySource σ} {state : σ} {s : Shape}
  {nodes : List Node}

section Generated

open Testnet.Topology

/-- What stands at a position is there as the factory made it, except for accounts, keys and
peers. -/
theorem getElem?_origin (h : (generatedNodes c s source state).result = .ok nodes) (i : Nat) :
    nodes[i]?.map Node.origin =
      if i < c.network.totalNodes then some (c.factory.nodeAt c.allocator i) else none := by
  rw [← List.getElem?_map, origin_generated h, Factory.getElem?_made]

theorem exists_nodeAt (h : (generatedNodes c s source state).result = .ok nodes) {n : Node}
    (hn : n ∈ nodes) :
    ∃ i, i < c.network.totalNodes ∧ n.origin = c.factory.nodeAt c.allocator i := by
  obtain ⟨i, hi⟩ := List.mem_iff_getElem?.mp hn
  have hget := getElem?_origin h i
  rw [hi, Option.map_some] at hget
  split at hget
  · exact ⟨i, ‹_›, Option.some.inj hget⟩
  · cases hget

theorem map_generated {β : Type} {g : Node → β} (hg : ∀ n, g n.origin = g n)
    (h : (generatedNodes c s source state).result = .ok nodes) :
    nodes.map g =
      (List.range c.network.totalNodes).map fun i => g (c.factory.nodeAt c.allocator i) := by
  have horigin := congrArg (List.map g) (origin_generated h)
  rw [List.map_map, Factory.made, List.map_map] at horigin
  rw [← List.map_congr_left fun n _ => hg n]
  exact horigin

theorem plan_of_generated (h : (generatedNodes c s source state).result = .ok nodes) :
    0 < c.network.totalNodes ∧ c.allocator.Room (c.network.totalNodes - 1) := by
  obtain ⟨hplan, _, fresh, _, hfresh, _⟩ := generatedNodes_eq_ok_iff.mp h
  exact ⟨(Plan.check_eq_ok_iff.mp hplan).1, (Factory.createAll_eq_ok_iff.mp hfresh).1⟩

theorem nodup_names_generated (h : (generatedNodes c s source state).result = .ok nodes) :
    (nodes.map (·.name)).Nodup := by
  rw [map_generated (fun _ => rfl) h]
  refine List.Pairwise.map _ (fun i j hij => hij) ?_
  exact List.nodup_range.imp fun hij hname => hij (Factory.name_nodeAt_injective hname)

theorem biosName_mem_generated (h : (generatedNodes c s source state).result = .ok nodes) :
    Node.biosName ∈ nodes.map (·.name) := by
  rw [map_generated (fun _ => rfl) h, List.mem_map]
  exact ⟨0, List.mem_range.mpr (plan_of_generated h).1, rfl⟩

theorem declarable_generated (h : (generatedNodes c s source state).result = .ok nodes) :
    ∀ n ∈ nodes, Declarable c.factory n := by
  intro n hn
  obtain ⟨i, hi, horigin⟩ := exists_nodeAt h hn
  have hlimit : Counter.portLimit = 65536 := rfl
  have hports := (plan_of_generated h).2.lt_portLimit
  have hindex : n.index = (c.factory.nodeAt c.allocator i).index := by
    rw [← horigin]
    rfl
  have hname : n.name = (c.factory.nodeAt c.allocator i).name := by
    rw [← horigin]
    rfl
  constructor
  case configDir =>
    show n.origin.configDir = c.factory.configDir.join n.origin.name
    rw [horigin]
    exact Factory.configDir_nodeAt i
  case dataDir =>
    show n.origin.dataDir = c.factory.dataDir.join n.origin.name
    rw [horigin]
    exact Factory.dataDir_nodeAt i
  case bios =>
    intro hbios
    rw [hname, Factory.name_nodeAt] at hbios
    cases i with
    | zero => exact hindex
    | succ i => exact absurd hbios (Node.regularName_ne_biosName i)
  case regular =>
    intro hregular
    rw [hname, Factory.name_nodeAt] at hregular
    cases i with
    | zero => exact absurd rfl hregular
    | succ i =>
      have hword : (c.factory.nodeAt c.allocator (i + 1)).index.toInt = i :=
        Factory.toInt_index_regular (by omega)
      rw [hindex, hword]
      omega

theorem regularCount_generated (h : (generatedNodes c s source state).result = .ok nodes) :
    regularCount (nodes.map (·.name)) = c.network.totalNodes - 1 := by
  obtain ⟨total, htotal⟩ : ∃ total, c.network.totalNodes = total + 1 :=
    ⟨c.network.totalNodes - 1, by have := (plan_of_generated h).1; omega⟩
  have hnames := @map_generated σ c source state s nodes _ (·.name) (fun _ => rfl) h
  rw [hnames, htotal, List.range_succ_eq_map, List.map_cons, List.map_map,
    regularCount_cons_of_bios (Factory.name_nodeAt 0), regularCount, List.countP_map,
    List.countP_eq_length.mpr]
  · rw [List.length_range]
    rfl
  · intro i _
    simpa [Factory.name_nodeAt] using Node.regularName_ne_biosName i

theorem indicesFree_generated (h : (generatedNodes c s source state).result = .ok nodes) :
    IndicesFree [] nodes := by
  have hlimit : Counter.portLimit = 65536 := rfl
  have hports := (plan_of_generated h).2.lt_portLimit
  constructor
  · intro n hn hindex
    obtain ⟨i, hi, horigin⟩ := exists_nodeAt h hn
    have hname : n.name = (c.factory.nodeAt c.allocator i).name := by
      rw [← horigin]
      rfl
    have hisBios : (c.factory.nodeAt c.allocator i).isBios = true := by
      rw [← horigin]
      exact beq_iff_eq.mpr hindex
    rw [Factory.isBios_nodeAt (by omega), beq_iff_eq] at hisBios
    subst hisBios
    exact hname
  · rw [free_nil_iff, map_generated (fun _ => rfl) h]
    refine List.Pairwise.map _ (fun i j hij => hij) ?_
    refine List.nodup_range.imp_of_mem fun {i j} hi hj hij hindex => hij ?_
    have hi := List.mem_range.mp hi
    have hj := List.mem_range.mp hj
    have hnat := congrArg Int32.toInt hindex
    rw [Factory.toInt_index_nodeAt (by omega), Factory.toInt_index_nodeAt (by omega)] at hnat
    split at hnat <;> split at hnat <;> omega

/-- All accounts of the network were granted by binding. -/
theorem granted_generated (h : (generatedNodes c s source state).result = .ok nodes) :
    ∀ n ∈ nodes, ∀ account ∈ n.producers, Binding.Granted n account := by
  obtain ⟨bound, _, hconnect, _, owners, hbind⟩ := exists_unconnected_of_generated h
  have hbare := Peering.bare_connect s c.network.producers bound
  rw [hconnect] at hbare
  have hgranted := @Binding.granted_bind c.plan σ source state
    (c.factory.made c.allocator c.network.totalNodes) (by
      intro n hn account haccount
      obtain ⟨i, _, rfl⟩ := List.mem_map.mp hn
      rw [Factory.producers_nodeAt] at haccount
      cases haccount)
  rw [hbind] at hgranted
  intro n hn account haccount
  have hmem : n.bare ∈ nodes.map Node.bare := List.mem_map_of_mem hn
  rw [hbare] at hmem
  obtain ⟨m, hm, hmn⟩ := List.mem_map.mp hmem
  have hproducers : m.producers = n.producers := congrArg (·.producers) hmn
  have hbios : m.isBios = n.isBios := by
    show m.bare.isBios = n.bare.isBios
    rw [hmn]
  rw [← hproducers] at haccount
  have hmine := hgranted m hm account haccount
  rwa [Binding.Granted, hbios] at hmine

/-- No exclusive account of the network stands twice. -/
theorem exists_owners_generated (h : (generatedNodes c s source state).result = .ok nodes) :
    ∃ owners, Assignment.ofNodes nodes = .ok owners := by
  obtain ⟨bound, _, hconnect, _, owners, hbind⟩ := exists_unconnected_of_generated h
  have hbare := Peering.bare_connect s c.network.producers bound
  rw [hconnect] at hbare
  refine ⟨owners, ?_⟩
  rw [Assignment.ofNodes_congr Node.bare (fun _ => rfl) hbare]
  exact (Binding.bind_eq_ok_iff.mp hbind).2.2

/-- A network made by a rule is sound as a topology. -/
theorem check_generated (h : (generatedNodes c s source state).result = .ok nodes)
    (hgraph : Peering.checkGraph nodes = .ok ()) (name : String) (path : Path) :
    (ofNodes name nodes).check path = .ok () := by
  rw [check_ofNodes]
  refine ⟨nodup_names_generated h, biosName_mem_generated h, fun n hn => ⟨?_, ?_⟩⟩
  · exact Peering.checkGraph_eq_ok_iff.mp hgraph n hn
  · exact fun account haccount => (granted_generated h n hn account haccount).isValid

/-- Written down and declared again with the same directories and bases, the network is as it was,
or it is refused for its ports. -/
theorem declaredNodes_generated (h : (generatedNodes c s source state).result = .ok nodes)
    (hgraph : Peering.checkGraph nodes = .ok ()) (name : String) (path : Path) :
    ((nodes.flatMap Node.listens).Nodup ∧
      (ofNodes name nodes).declaredNodes path c.factory c.allocator = .ok nodes) ∨
    (¬ (nodes.flatMap Node.listens).Nodup ∧ ∃ port first second,
      (ofNodes name nodes).declaredNodes path c.factory c.allocator =
        .error (.refused (.duplicatePort port first second))) := by
  have hroom := (plan_of_generated h).2
  rw [← regularCount_generated h] at hroom
  have hdeclared := declaredNodes_ofNodes (check_generated h hgraph name path)
    (declarable_generated h) hroom
  by_cases hports : (nodes.flatMap Node.listens).Nodup
  · obtain ⟨owners, howners⟩ := exists_owners_generated h
    have hidentities := checkIdentities_eq_ok_iff.mpr
      ⟨indicesFree_generated h, free_nil_iff.mpr hports⟩
    rw [hidentities, ok_bind, howners] at hdeclared
    exact .inl ⟨hports, hdeclared⟩
  · obtain ⟨port, first, second, hwhy⟩ :=
      exists_duplicatePort (indicesFree_generated h) fun hfree => hports (free_nil_iff.mp hfree)
    rw [hwhy] at hdeclared
    exact .inr ⟨hports, port, first, second, hdeclared⟩

end Generated

end Testnet
