import Testnet.Proofs.Identity
import Testnet.Proofs.Shape
import Testnet.Proofs.SharedAccounts

/-!
# Started nodes by themselves

What is left of a network when the nodes that are not started are taken away. The bios node is
always started, and where all regular nodes dial it the started ones are connected. A bridge is held
together by its bridges, which are the regular nodes after the producing ones, and these are the
first that are left out.
-/

namespace Testnet

namespace Peering

/-- The node at a position is started. -/
def IsStarted (nodes : List Node) (i : Nat) : Prop :=
  ∃ n, nodes[i]? = some n ∧ n.dontStart = false

/-- There is a way between any two started nodes that uses started nodes only. -/
def StartedConnected (nodes : List Node) : Prop :=
  ∀ i j, IsStarted nodes i → IsStarted nodes j → Reaches nodes (IsStarted nodes) i j

variable {nodes ns : List Node} {g : Groups}

theorem IsStarted.lt_length {i : Nat} (h : IsStarted nodes i) : i < nodes.length := by
  obtain ⟨n, hn, _⟩ := h
  exact (List.getElem?_eq_some_iff.mp hn).1

/-- A node that all started ones reach connects them. -/
theorem startedConnected_of_reaches (hub : Nat)
    (h : ∀ i, IsStarted nodes i → Reaches nodes (IsStarted nodes) i hub) :
    StartedConnected nodes := fun i j hi hj => (h i hi).trans (h j hj).symm

/-- Where all regular nodes dial the bios node, the started ones are connected through it. -/
theorem startedConnected_of_dialBios (h : Unconnected nodes)
    (hns : ns.map Node.bare = nodes.map Node.bare)
    (hbios : IsStarted (dialBios ns (regularPositions nodes)) 0) :
    StartedConnected (dialBios ns (regularPositions nodes)) := by
  have hlength := (length_of_bare (bare_dialBios ns (regularPositions nodes))).trans
    (length_of_bare hns)
  refine startedConnected_of_reaches 0 fun i hi => ?_
  by_cases hzero : i = 0
  · rw [hzero]
    exact .here hbios
  · have hlt : i < nodes.length := hlength ▸ hi.lt_length
    refine .of_joined hi hbios (.inl ((h.lists_dialBios_iff hns).mpr (.inr ?_)))
    exact ⟨hzero, hlt, h.mem_regularPositions.mpr ⟨hzero, hlt⟩, rfl⟩

/-- In a bridge it takes a started bridge, unless there is nothing to connect. -/
theorem startedConnected_bridged_iff (h : Unconnected nodes)
    (hparts : (regularPositions nodes).Perm g.all) (hbios : IsStarted (bridged nodes g) 0) :
    StartedConnected (bridged nodes g) ↔
      (∃ b ∈ g.bridges, IsStarted (bridged nodes g) b) ∨
        ∀ i, IsStarted (bridged nodes g) i → i = 0 := by
  constructor
  · intro hconnected
    by_cases hbridge : ∃ b ∈ g.bridges, IsStarted (bridged nodes g) b
    · exact .inl hbridge
    · -- Only bridges are joined with the bios node, so no way leads away from it.
      refine .inr fun i hi => ?_
      refine (hconnected 0 i hbios hi).mem_of_closed (S := (· = 0)) (fun a b ha hb hab => ?_) rfl
      rw [ha] at hab
      exact absurd ⟨b, (joined_bios_iff h hparts).mp hab, hb⟩ hbridge
  · intro hcase
    rcases hcase with ⟨b, hb, hstarted⟩ | hnone
    · refine startedConnected_of_reaches b fun i hi => ?_
      exact reaches_bridge h hparts hbios hb hstarted (length_linked ▸ hi.lt_length) hi
    · intro i j hi hj
      rw [hnone i hi, hnone j hj]
      exact .here hbios

end Peering

namespace Binding

variable {σ : Type} {plan : Plan} {source : KeySource σ} {s : σ}

/-- Every producing node of a sound plan gets accounts of its own. -/
theorem owned_equip_accounts_ne_nil (hcheck : plan.check = .ok ()) {d : Deal}
    (hd : d.passed < plan.producingRegular) (n : Node) (pair : KeyPair) :
    Peering.owned (equip n (accounts plan d) pair) ≠ [] := by
  have hshare : 0 < d.share plan := Deal.share_pos hcheck (Nat.zero_lt_of_lt hd)
  unfold Peering.owned equip
  rw [List.filter_append, filter_accounts]
  refine List.append_ne_nil_of_right_ne_nil _ fun hnone => ?_
  rw [List.map_eq_nil_iff, List.range'_eq_nil_iff] at hnone
  omega

/-- Nodes that are bound without fail own accounts as long as there are producing nodes. -/
theorem owned_bindFrom (hcheck : plan.check = .ok ()) {d : Deal} {nodes nodes' : List Node}
    (hregular : ∀ n ∈ nodes, n.isBios = false ∧ n.producers = [])
    (h : (bindFrom plan source d s nodes).value = ⟨nodes', .ok ()⟩) {i : Nat} {n : Node}
    (hn : nodes'[i]? = some n) :
    Peering.owned n = [] ↔ plan.producingRegular ≤ d.passed + i := by
  induction nodes generalizing d s nodes' i with
  | nil =>
    cases h
    cases hn
  | cons m rest ih =>
    obtain ⟨⟨hbios, hfresh⟩, hrest⟩ := List.forall_mem_cons.mp hregular
    rw [bindFrom, hbios, if_neg Bool.false_ne_true] at h
    split at h
    case isTrue hserved =>
      simp only [Logged.value_bind, Logged.value_pure, Change.mk.injEq] at h
      obtain ⟨rfl, hrestOk⟩ := h
      cases i with
      | zero =>
        cases hn
        simp only [Peering.owned, hfresh, List.filter_nil, true_iff]
        omega
      | succ i =>
        have htail := @ih _ d.skip _ hrest (congrArg (Change.mk _) hrestOk) i hn
        simp only [Deal.skip] at htail
        exact htail.trans (by omega)
    case isFalse hproducing =>
      split at h
      case isTrue => cases h
      case isFalse =>
        simp only [Logged.value_bind, Logged.value_pure, Change.mk.injEq] at h
        obtain ⟨rfl, hrestOk⟩ := h
        cases i with
        | zero =>
          cases hn
          exact iff_of_false (owned_equip_accounts_ne_nil hcheck (by omega) m _) (by omega)
        | succ i =>
          have htail := @ih _ (d.serve plan) _ hrest (congrArg (Change.mk _) hrestOk) i hn
          simp only [Deal.serve] at htail
          exact htail.trans (by omega)

/-- In a list of fresh nodes the producing ones are those that own accounts. -/
theorem owned_bindFrom_made {f : Factory} {a : Allocator} {m i : Nat} {nodes : List Node} {n : Node}
    (hcheck : plan.check = .ok ()) (hroom : a.Room m)
    (h : (bindFrom plan source (.start plan) s (f.made a (m + 1))).value = ⟨nodes, .ok ()⟩)
    (hn : nodes[i + 1]? = some n) : Peering.owned n = [] ↔ plan.producingRegular ≤ i := by
  have hregular : ∀ n ∈ (List.range m).map fun i => f.nodeAt a (i + 1),
      n.isBios = false ∧ n.producers = [] := by
    intro n hn
    obtain ⟨k, hk, rfl⟩ := List.mem_map.mp hn
    have hlt := List.mem_range.mp hk
    have hports := hroom.lt_portLimit
    have hlimit : Counter.portLimit = 65536 := rfl
    exact ⟨Factory.isBios_nodeAt (by omega), Factory.producers_nodeAt (k + 1)⟩
  have hbios : (f.bios a.biosPorts).isBios = true := rfl
  rw [Factory.made_succ, bindFrom, hbios, if_pos rfl] at h
  simp only [Logged.value_bind, Logged.value_pure, Change.mk.injEq] at h
  obtain ⟨rfl, hrestOk⟩ := h
  have hrest := owned_bindFrom hcheck hregular (congrArg (Change.mk _) hrestOk) hn
  simpa only [Deal.start, Nat.zero_add] using hrest

/-- A node besides the bios node without accounts of its own comes after the producing ones. -/
theorem exists_unowned_iff {f : Factory} {a : Allocator} {nodes : List Node}
    (hcheck : plan.check = .ok ()) (hproducing : 0 < plan.producerNodes)
    (hroom : a.Room (plan.totalNodes - 1)) (hnodes : Peering.Unconnected nodes)
    (hlength : nodes.length = plan.totalNodes)
    (h : (bindFrom plan source (.start plan) s (f.made a plan.totalNodes)).value =
      ⟨nodes, .ok ()⟩) {i : Nat} :
    (∃ n, nodes[i]? = some n ∧ n.isBios = false ∧ Peering.owned n = []) ↔
      plan.producerNodes ≤ i ∧ i < plan.totalNodes := by
  have hregular : plan.producingRegular = plan.producerNodes - 1 := rfl
  obtain ⟨m, hm⟩ : ∃ m, plan.totalNodes = m + 1 :=
    ⟨plan.totalNodes - 1, by have hpos := hnodes.pos; omega⟩
  rw [hm] at h hroom
  constructor
  · intro hgiven
    obtain ⟨n, hn, hbios, howned⟩ := hgiven
    have hlt := (List.getElem?_eq_some_iff.mp hn).1
    cases i with
    | zero =>
      rw [(hnodes.bios hn).mpr rfl] at hbios
      cases hbios
    | succ i =>
      have hle := (owned_bindFrom_made hcheck hroom h hn).mp howned
      omega
  · intro hgiven
    obtain ⟨hle, hlt⟩ := hgiven
    cases i with
    | zero => omega
    | succ i =>
      obtain ⟨n, hn⟩ : ∃ n, nodes[i + 1]? = some n :=
        ⟨_, List.getElem?_eq_getElem (hlength ▸ hlt)⟩
      refine ⟨n, hn, ?_, (owned_bindFrom_made hcheck hroom h hn).mpr (by omega)⟩
      rw [← Bool.not_eq_true, hnodes.bios hn]
      exact Nat.succ_ne_zero i

end Binding

variable {σ : Type} {c : Config} {files : FileTree} {source : KeySource σ} {state : σ} {s : Shape}
  {nodes : List Node}

open Peering

/-- The nodes that are started are the first ones, and the bios node is one of them. -/
theorem isStarted_generated_iff (h : (generatedNodes c s source state).result = .ok nodes)
    {i : Nat} : IsStarted nodes i ↔ i < c.network.totalNodes - c.network.unstartedNodes := by
  obtain ⟨hplan, _⟩ := generatedNodes_eq_ok_iff.mp h
  obtain ⟨htotal, _, hunstarted, _⟩ := Plan.check_eq_ok_iff.mp hplan
  have hget := getElem?_origin h i
  have hnode : (c.factory.nodeAt c.allocator i).dontStart = false ↔
      i < c.network.totalNodes - c.network.unstartedNodes := by
    rw [← Bool.not_eq_true, Factory.dontStart_nodeAt hunstarted, Nat.not_le]
    rfl
  constructor
  · intro hstarted
    obtain ⟨n, hn, hn'⟩ := hstarted
    rw [hn, Option.map_some] at hget
    split at hget
    · rw [← hnode, ← Option.some.inj hget]
      exact hn'
    · cases hget
  · intro hlt
    rw [if_pos (by omega), Option.map_eq_some_iff] at hget
    obtain ⟨n, hn, horigin⟩ := hget
    refine ⟨n, hn, ?_⟩
    rw [← hnode, ← horigin] at hlt
    exact hlt

/-- The bridges of a bridge are the nodes after the producing ones. -/
theorem exists_bridged_of_generated
    (h : (generatedNodes c .bridge source state).result = .ok nodes) :
    ∃ bound g, Unconnected bound ∧ (regularPositions bound).Perm g.all ∧
      nodes = bridged bound g ∧
      ∀ i, i ∈ g.bridges ↔ c.network.producerNodes ≤ i ∧ i < c.network.totalNodes := by
  obtain ⟨bound, hunconnected, hconnect, hmade, owners, hbind⟩ := exists_unconnected_of_generated h
  obtain ⟨g, hg, hbridged⟩ := connect_bridge_eq_ok hconnect
  obtain ⟨hplan, hfrom, _⟩ := Binding.bind_eq_ok_iff.mp hbind
  obtain ⟨_, hshape, _⟩ := generatedNodes_eq_ok_iff.mp h
  obtain ⟨hparted, _⟩ := Shape.check_bridge_eq_ok_iff.mp hshape
  have hproducing : c.plan.producingRegular = c.plan.producerNodes - 1 := rfl
  have hlength := congrArg List.length hmade
  rw [List.length_map, Factory.length_made] at hlength
  refine ⟨bound, g, hunconnected, (classify_eq_ok hg).1, hbridged, fun i => ?_⟩
  rw [mem_bridges_iff hg]
  exact Binding.exists_unowned_iff hplan (by omega) (plan_of_generated h).2 hunconnected hlength
    hfrom

/-- In a bridge either a bridge is started or there is nothing besides the bios node. -/
theorem startedConnected_bridge_iff
    (h : (generatedNodes c .bridge source state).result = .ok nodes) :
    StartedConnected nodes ↔
      c.network.producerNodes + c.network.unstartedNodes < c.network.totalNodes ∨
        c.network.unstartedNodes + 1 = c.network.totalNodes := by
  obtain ⟨hplan, _⟩ := generatedNodes_eq_ok_iff.mp h
  obtain ⟨_, _, hunstarted, _⟩ := Plan.check_eq_ok_iff.mp hplan
  have hsome : 0 < c.network.totalNodes - c.network.unstartedNodes := Nat.sub_pos_of_lt hunstarted
  have hstarted := fun i => @isStarted_generated_iff σ c source state .bridge nodes h i
  obtain ⟨bound, g, hunconnected, hparts, hbridged, hbridges⟩ := exists_bridged_of_generated h
  have hbios : IsStarted (bridged bound g) 0 := by
    rw [← hbridged, hstarted]
    exact hsome
  rw [hbridged, startedConnected_bridged_iff hunconnected hparts hbios, ← hbridged]
  simp only [hstarted, hbridges]
  refine or_congr ⟨fun hgiven => ?_, fun hlt => ?_⟩ ⟨fun hnone => ?_, fun hall i hi => ?_⟩
  · obtain ⟨b, ⟨hle, _⟩, hlt⟩ := hgiven
    omega
  · exact ⟨c.network.producerNodes, ⟨Nat.le_refl _, by omega⟩, by omega⟩
  · have hone := hnone (c.network.totalNodes - c.network.unstartedNodes - 1) (by omega)
    omega
  · omega

/-- Four nodes of which the last, the only bridge, is not started: the producing nodes are cut off. -/
theorem not_startedConnected_of_four :
    ∃ (c : Config) (net : Network), c.network.unstartedNodes = 1 ∧
      Shape.resolve (.empty []) c.network.shape = .ok .bridge ∧
      (build c (.empty []) .leapDay .development ()).result = .ok net ∧ ¬ StartedConnected net.nodes := by
  let layout : Config.Layout :=
    { Config.Layout.standard with
      shape := "bridge", totalNodes := 4, producerNodes := 3, producers := 4, unstartedNodes := 1 }
  let c : Config := { Config.standard with network := layout }
  have hshape : Shape.resolve (.empty []) "bridge" = .ok .bridge := rfl
  obtain ⟨net, hbuild⟩ : ∃ net, (build c (.empty []) .leapDay .development ()).result = .ok net :=
    exists_of_isSome (by decide +kernel)
  refine ⟨c, net, rfl, hshape, hbuild, ?_⟩
  have hnodes : (generatedNodes c .bridge .development ()).result = .ok net.nodes :=
    generatedNodes_of_build hshape rfl hbuild
  rw [startedConnected_bridge_iff hnodes]
  decide

/-- Where all regular nodes dial the bios node it does not matter which of them are started. -/
theorem startedConnected_of_rule (hs : s.dialsBios = true)
    (h : (generatedNodes c s source state).result = .ok nodes) : StartedConnected nodes := by
  obtain ⟨hplan, _⟩ := generatedNodes_eq_ok_iff.mp h
  obtain ⟨_, _, hunstarted, _⟩ := Plan.check_eq_ok_iff.mp hplan
  have hbios : IsStarted nodes 0 :=
    (isStarted_generated_iff h).mpr (Nat.sub_pos_of_lt hunstarted)
  obtain ⟨bound, hunconnected, hconnect, _⟩ := exists_unconnected_of_generated h
  rw [connect_of_dialsBios hs, Change.mk.injEq] at hconnect
  obtain ⟨rfl, _⟩ := hconnect
  exact startedConnected_of_dialBios hunconnected (bare_joinRegular s bound) hbios

/-- Taking away the nodes that are not started leaves the bios node and a connected network, except
that a bridge falls apart when all its bridges are taken away and producing nodes are not. -/
theorem started_connected_iff (c : Config) (files : FileTree) (now : Timestamp)
    (source : KeySource σ) (state : σ) (s : Shape) (net : Network) (hshape : Shape.resolve files c.network.shape = .ok s)
    (hrule : s.isCustom = false) (hbuild : (build c files now source state).result = .ok net) :
    (∃ bios, net.bios? = some bios ∧ net.nodes[0]? = some bios ∧ bios.dontStart = false) ∧
    (StartedConnected net.nodes ↔
      (s = .bridge → c.network.producerNodes + c.network.unstartedNodes < c.network.totalNodes ∨
        c.network.unstartedNodes + 1 = c.network.totalNodes)) := by
  have hnodes := generatedNodes_of_build hshape hrule hbuild
  constructor
  · obtain ⟨bios, hget, horigin, hfind⟩ := find?_bios_generated hnodes
    have hstart : bios.dontStart = false := congrArg (·.dontStart) horigin
    exact ⟨bios, hfind, hget, hstart⟩
  · cases s with
    | custom _ => cases hrule
    | bridge =>
      rw [startedConnected_bridge_iff hnodes]
      exact ⟨fun h _ => h, fun h => h rfl⟩
    | _ => exact ⟨fun _ => nofun, fun _ => startedConnected_of_rule rfl hnodes⟩

/-- With one of two bridges started the producing nodes are connected. -/
theorem started_connected_of_five :
    ∃ (c : Config) (net : Network), c.network.unstartedNodes = 1 ∧
      Shape.resolve (.empty []) c.network.shape = .ok .bridge ∧
      (build c (.empty []) .leapDay .development ()).result = .ok net ∧ StartedConnected net.nodes := by
  let layout : Config.Layout :=
    { Config.Layout.standard with
      shape := "bridge", totalNodes := 5, producerNodes := 3, producers := 4, unstartedNodes := 1 }
  let c : Config := { Config.standard with network := layout }
  have hshape : Shape.resolve (.empty []) "bridge" = .ok .bridge := rfl
  obtain ⟨net, hbuild⟩ : ∃ net, (build c (.empty []) .leapDay .development ()).result = .ok net :=
    exists_of_isSome (by decide +kernel)
  obtain ⟨_, hiff⟩ :=
    started_connected_iff c (.empty []) .leapDay .development () .bridge net hshape rfl hbuild
  exact ⟨c, net, rfl, hshape, hbuild, hiff.mpr fun _ => .inl (by decide)⟩

end Testnet
