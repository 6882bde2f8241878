import Testnet.Proofs.Config.Check
import Testnet.Proofs.Identity
import Testnet.Proofs.Peering.Gap
import Testnet.Proofs.SharedAccounts

/-!
# Which configurations are built

Where all regular nodes dial the bios node, a configuration that passes its check, with a plan that
passes its own, always leads to nodes: the ports suffice, the ordinals fit, no account is owned
twice, and the nodes are a graph with a bios node that has a key. What is left to go wrong is the
genesis.
-/

namespace Testnet

theorem Shape.isCustom_of_dialsBios {s : Shape} (hs : s.dialsBios = true) : s.isCustom = false := by
  cases s with
  | custom _ => cases hs
  | _ => rfl

/-- Shapes in which all regular nodes dial the bios node go with every plan. -/
theorem Shape.check_of_dialsBios {s : Shape} (hs : s.dialsBios = true) {p : Plan}
    (hp : p.totalNodes ≤ Config.lastPort) : (s.check p).value = .ok () := by
  cases s with
  | bridge => cases hs
  | custom _ => cases hs
  | mesh =>
    have hlast : Config.lastPort = 65535 := rfl
    have hfits : (p.totalNodes - 1) * (p.totalNodes - 2) < countLimit := by
      have hmul : (p.totalNodes - 1) * (p.totalNodes - 2) ≤ 65535 * 65535 :=
        Nat.mul_le_mul (by omega) (by omega)
      exact Nat.lt_of_le_of_lt hmul (by decide)
    unfold check
    dsimp only
    split
    · rfl
    · rw [multiplyCounts, if_pos hfits]
      rfl
  | _ => rfl

/-- The bios node has the first pair that is drawn. -/
theorem Binding.getElem?_zero_bindFrom_made {σ : Type} {plan : Plan} {source : KeySource σ} {s : σ}
    {f : Factory} {a : Allocator} {d : Deal} {n : Nat} (hn : 0 < n) :
    (bindFrom plan source d s (f.made a n)).value.nodes[0]? =
      some (equip (f.bios a.biosPorts) [Account.system] (source.draw Node.biosName s).1) := by
  obtain ⟨m, rfl⟩ : ∃ m, n = m + 1 := ⟨n - 1, by omega⟩
  have hbios : (f.bios a.biosPorts).isBios = true := rfl
  rw [Factory.made_succ, bindFrom, if_pos hbios]
  rfl

variable {σ : Type} {c : Config} {files : FileTree} {now : Timestamp} {source : KeySource σ}
  {state : σ} {s : Shape} {nodes : List Node} {bios : Node}

/-- The nodes that a rule connects are a graph. -/
theorem checkGraph_generated (h : (generatedNodes c s source state).result = .ok nodes) :
    Peering.checkGraph nodes = .ok () := by
  obtain ⟨bound, hunconnected, hconnect, _⟩ := exists_unconnected_of_generated h
  have hgraph := Peering.isGraph_connect hunconnected s c.network.producers
  rw [hconnect] at hgraph
  exact Peering.checkGraph_eq_ok_iff.mpr hgraph

/-- The bios node of a network made by a rule has one pair, the first that is drawn. -/
theorem keys_bios_generated (h : (generatedNodes c s source state).result = .ok nodes)
    (hbios : nodes[0]? = some bios) : bios.keys = [(source.draw Node.biosName state).1] := by
  obtain ⟨bound, _, hconnect, _, owners, hbind⟩ := exists_unconnected_of_generated h
  obtain ⟨_, hfrom, _⟩ := Binding.bind_eq_ok_iff.mp hbind
  have hbare := Peering.bare_connect s c.network.producers bound
  rw [hconnect] at hbare
  obtain ⟨first, hfirst, hsame⟩ := Peering.exists_bare hbare hbios
  have hequipped := @Binding.getElem?_zero_bindFrom_made σ c.plan source state c.factory
    c.allocator (.start c.plan) c.network.totalNodes (plan_of_generated h).1
  rw [hfrom, hfirst, Option.some.injEq] at hequipped
  have hkeys : first.keys = bios.keys := congrArg (·.keys) hsame
  rw [← hkeys, hequipped]
  rfl

/-- Past both checks there are nodes. -/
theorem exists_generated (hs : s.dialsBios = true) (hcheck : c.check = .ok ())
    (hplan : c.plan.check = .ok ()) (hproducers : c.network.producers < Account.ordinalLimit) :
    ∃ nodes, (generatedNodes c s source state).result = .ok nodes := by
  obtain ⟨htotal, hroom⟩ := Config.room_of_check hcheck
  obtain ⟨bound, owners, hbind⟩ :=
    @Binding.exists_bind_made σ c.plan source state c.factory c.allocator hplan hproducers hroom
  refine ⟨_, generatedNodes_eq_ok_iff.mpr ⟨hplan, Shape.check_of_dialsBios hs htotal, _, owners,
    Factory.createAll_eq_ok_iff.mpr ⟨hroom, rfl⟩, ?_, Peering.connect_of_dialsBios hs _ _⟩⟩
  exact congrArg Change.outcome hbind

/-- Past both checks a build comes out as its genesis does. -/
theorem result_build_of_checked (hshape : Shape.resolve files c.network.shape = .ok s)
    (hs : s.dialsBios = true) (hproducers : c.network.producers < Account.ordinalLimit)
    (hkeys : bios.keys = [(source.draw Node.biosName state).1]) (hcheck : c.check = .ok ())
    (hplan : c.plan.check = .ok ()) :
    ∃ nodes, (build c files now source state).result =
      ((Genesis.compose files c.genesis.path bios c.genesisOverrides now).value.mapError
        Failure.ofGenesis).map fun genesis => ⟨c.general.name, nodes, genesis⟩ := by
  obtain ⟨nodes, hnodes⟩ := @exists_generated σ c source state s hs hcheck hplan hproducers
  obtain ⟨first, hfirst, _, hfind⟩ := find?_bios_generated hnodes
  have hkey : bios.firstPublicKey = first.firstPublicKey := by
    rw [Node.firstPublicKey, hkeys, Node.firstPublicKey, keys_bios_generated hnodes hfirst]
  have hrule := Shape.isCustom_of_dialsBios hs
  have hshaped : (shapedNodes c files source state s).result = .ok nodes := by
    rw [shapedNodes_of_rule hrule]
    exact hnodes
  refine ⟨nodes, ?_⟩
  rw [result_build_of_shaped hcheck hshape hshaped,
    result_finishBuild (checkGraph_generated hnodes) hfind, Genesis.compose_congr hkey]

/-- The bios node comes first, and the regular nodes follow by ordinal. -/
theorem map_name_generated (h : (generatedNodes c s source state).result = .ok nodes) :
    nodes.map (·.name) =
      Node.biosName :: (List.range (c.network.totalNodes - 1)).map Node.regularName := by
  obtain ⟨htotal, _⟩ := plan_of_generated h
  obtain ⟨m, hm⟩ : ∃ m, c.network.totalNodes = m + 1 := ⟨c.network.totalNodes - 1, by omega⟩
  rw [map_generated (fun _ => rfl) h, hm, List.range_succ_eq_map, List.map_cons, List.map_map]
  rfl

/-- The index of a regular node is its ordinal. -/
theorem map_index_generated (h : (generatedNodes c s source state).result = .ok nodes) :
    nodes.map (·.index.toInt) =
      -100 :: (List.range (c.network.totalNodes - 1)).map Int.ofNat := by
  obtain ⟨htotal, hroom⟩ := plan_of_generated h
  have hlimit : Counter.portLimit = 65536 := rfl
  have hports := hroom.lt_portLimit
  obtain ⟨m, hm⟩ : ∃ m, c.network.totalNodes = m + 1 := ⟨c.network.totalNodes - 1, by omega⟩
  have hindex : ∀ i ∈ List.range (m + 1), (c.factory.nodeAt c.allocator i).index.toInt =
      if i = 0 then (-100 : Int) else ((i - 1 : Nat) : Int) := by
    intro i hi
    have hlt := List.mem_range.mp hi
    exact Factory.toInt_index_nodeAt (by omega)
  rw [map_generated (fun _ => rfl) h, hm, List.map_congr_left hindex, List.range_succ_eq_map,
    List.map_cons, List.map_map]
  rfl

/-- The nodes that are not started are the last ones. -/
theorem map_dontStart_generated (h : (generatedNodes c s source state).result = .ok nodes) :
    nodes.map (·.dontStart) =
      List.replicate (c.network.totalNodes - c.network.unstartedNodes) false ++
        List.replicate c.network.unstartedNodes true := by
  obtain ⟨hplan, _⟩ := generatedNodes_eq_ok_iff.mp h
  obtain ⟨_, _, hunstarted, _⟩ := Plan.check_eq_ok_iff.mp hplan
  have hfew : c.network.unstartedNodes < c.network.totalNodes := hunstarted
  obtain ⟨k, hk⟩ : ∃ k, c.network.totalNodes = k + c.network.unstartedNodes :=
    ⟨c.network.totalNodes - c.network.unstartedNodes, by omega⟩
  have hstart : ∀ i, (c.factory.nodeAt c.allocator i).dontStart = true ↔ k ≤ i := by
    intro i
    rw [Factory.dontStart_nodeAt hunstarted]
    show c.network.totalNodes - c.network.unstartedNodes ≤ i ↔ k ≤ i
    rw [hk, Nat.add_sub_cancel]
  have hfirst : (List.range k).map (fun i => (c.factory.nodeAt c.allocator i).dontStart) =
      List.replicate k false := by
    refine List.eq_replicate_iff.mpr ⟨by simp, List.forall_mem_map.mpr fun i hi => ?_⟩
    have hlt := List.mem_range.mp hi
    rw [← Bool.not_eq_true, hstart]
    omega
  have hlast : (List.range c.network.unstartedNodes).map
      ((fun i => (c.factory.nodeAt c.allocator i).dontStart) ∘ (k + ·)) =
        List.replicate c.network.unstartedNodes true := by
    refine List.eq_replicate_iff.mpr ⟨by simp, List.forall_mem_map.mpr fun i _ => ?_⟩
    exact (hstart (k + i)).mpr (Nat.le_add_right k i)
  rw [map_generated (fun _ => rfl) h, hk, Nat.add_sub_cancel, List.range_add, List.map_append,
    List.map_map, hfirst, hlast]

/-- Past both checks nothing fails but the file and the timestamp of the genesis. -/
theorem failure_of_checked (hshape : Shape.resolve files c.network.shape = .ok s)
    (hs : s.dialsBios = true) (hproducers : c.network.producers < Account.ordinalLimit)
    (hcheck : c.check = .ok ()) (hplan : c.plan.check = .ok ()) {e : Failure}
    (hfail : (build c files now source state).result = .error e) :
    (∃ fault, e = .file fault) ∨ ∃ bad, e = .timestamp bad := by
  let bios : Node := Binding.equip (c.factory.bios c.allocator.biosPorts) [Account.system]
    (source.draw Node.biosName state).1
  have hkeys : bios.keys = [(source.draw Node.biosName state).1] := rfl
  have hkey : bios.firstPublicKey = some (source.draw Node.biosName state).1.publicKey := rfl
  obtain ⟨nodes, hresult⟩ := result_build_of_checked hshape hs hproducers hkeys hcheck hplan
  rw [hfail] at hresult
  cases hgenesis : (Genesis.compose files c.genesis.path bios c.genesisOverrides now).value with
  | ok genesis =>
    rw [hgenesis] at hresult
    cases hresult
  | error why =>
    rw [hgenesis] at hresult
    have he : e = Failure.ofGenesis why := Except.error.inj hresult
    rcases Genesis.error_of_compose hkey hgenesis with ⟨fault, rfl⟩ | ⟨bad, rfl⟩
    · exact .inl ⟨fault, he⟩
    · exact .inr ⟨bad, he⟩

/-- A network is built exactly if both checks pass and there is a genesis. -/
theorem exists_build_iff (hshape : Shape.resolve files c.network.shape = .ok s)
    (hs : s.dialsBios = true) (hproducers : c.network.producers < Account.ordinalLimit)
    (hkeys : bios.keys = [(source.draw Node.biosName state).1]) :
    (∃ net, (build c files now source state).result = .ok net) ↔
      c.check = .ok () ∧ c.plan.check = .ok () ∧ ∃ genesis,
        (Genesis.compose files c.genesis.path bios c.genesisOverrides now).value = .ok genesis := by
  constructor
  · intro hsome
    obtain ⟨net, hbuild⟩ := hsome
    have hcheck := (build_eq_ok_iff.mp hbuild).1
    have hnodes := generatedNodes_of_build hshape (Shape.isCustom_of_dialsBios hs) hbuild
    have hplan := (generatedNodes_eq_ok_iff.mp hnodes).1
    obtain ⟨nodes, hresult⟩ := result_build_of_checked hshape hs hproducers hkeys hcheck hplan
    rw [hbuild] at hresult
    obtain ⟨genesis, hgenesis, _⟩ := map_eq_ok_iff.mp hresult.symm
    exact ⟨hcheck, hplan, genesis, mapError_eq_ok_iff.mp hgenesis⟩
  · intro hgiven
    obtain ⟨hcheck, hplan, genesis, hgenesis⟩ := hgiven
    obtain ⟨nodes, hresult⟩ := result_build_of_checked hshape hs hproducers hkeys hcheck hplan
    rw [hgenesis] at hresult
    exact ⟨_, hresult⟩

/-- A configuration whose regular nodes all dial the bios node is built exactly if it passes its
check, its plan passes its own, and there is a genesis for the key of the bios node. Past the checks
nothing overflows, and only the file and the timestamp of the genesis can fail. What is built has
its nodes in order, and the last of them are not started. -/
theorem build_accepts (c : Config) (files : FileTree) (now : Timestamp) (source : KeySource σ)
    (state : σ) (s : Shape) (bios : Node) (hshape : Shape.resolve files c.network.shape = .ok s)
    (hs : s.dialsBios = true) (hproducers : c.network.producers < Account.ordinalLimit)
    (hkeys : bios.keys = [(source.draw Node.biosName state).1]) :
    ((∃ net, (build c files now source state).result = .ok net) ↔
      c.check = .ok () ∧ c.plan.check = .ok () ∧ ∃ genesis,
        (Genesis.compose files c.genesis.path bios c.genesisOverrides now).value = .ok genesis) ∧
    (c.check = .ok () → c.plan.check = .ok () →
      (∀ e, (build c files now source state).result = .error e →
        (∃ fault, e = .file fault) ∨ ∃ bad, e = .timestamp bad) ∧
      ∀ t ∈ Peering.starTurns (c.network.totalNodes - 1)
          (Peering.starLinks (c.network.totalNodes - 1)),
        t.1 + t.2 * Peering.starGap (c.network.totalNodes - 1)
          (Peering.starLinks (c.network.totalNodes - 1)) < countLimit) ∧
    ∀ net, (build c files now source state).result = .ok net →
      net.nodes.length = c.network.totalNodes ∧
      c.network.unstartedNodes < c.network.totalNodes ∧
      net.nodes.map (·.name) =
        Node.biosName :: (List.range (c.network.totalNodes - 1)).map Node.regularName ∧
      net.nodes.map (·.index.toInt) =
        -100 :: (List.range (c.network.totalNodes - 1)).map Int.ofNat ∧
      net.nodes.map (·.dontStart) =
        List.replicate (c.network.totalNodes - c.network.unstartedNodes) false ++
          List.replicate c.network.unstartedNodes true := by
  refine ⟨exists_build_iff hshape hs hproducers hkeys, fun hcheck hplan => ⟨?_, ?_⟩, ?_⟩
  · intro e hfail
    exact failure_of_checked hshape hs hproducers hcheck hplan hfail
  · intro t ht
    have hlast : Config.lastPort = 65535 := rfl
    have htotal := (Config.room_of_check hcheck).1
    exact Peering.candidate_lt_countLimit (by omega) ht
  · intro net hbuild
    have hnodes := generatedNodes_of_build hshape (Shape.isCustom_of_dialsBios hs) hbuild
    obtain ⟨hplan, _⟩ := generatedNodes_eq_ok_iff.mp hnodes
    obtain ⟨_, _, hunstarted, _⟩ := Plan.check_eq_ok_iff.mp hplan
    have hlength := congrArg List.length (origin_generated hnodes)
    rw [List.length_map, Factory.length_made] at hlength
    exact ⟨hlength, hunstarted, map_name_generated hnodes, map_index_generated hnodes,
      map_dontStart_generated hnodes⟩

/-- Five nodes in a star, of which three have accounts and the last two are not started, with keys
from a source that counts its draws and a genesis with the time of the clock. -/
theorem build_accepts_of_five :
    ∃ (c : Config) (net : Network), c.check = .ok () ∧ c.plan.check = .ok () ∧
      c.genesisOverrides.AsksClock ∧
      (build c (.empty []) .leapDay .numbered 41).result = .ok net ∧
      net.nodes.map (·.name) = ["bios", "node_00", "node_01", "node_02", "node_03"] ∧
      net.nodes.map (·.index.toInt) = [-100, 0, 1, 2, 3] ∧
      net.nodes.map (·.dontStart) = [false, false, false, true, true] := by
  let layout : Config.Layout :=
    { Config.Layout.standard with
      shape := "star", totalNodes := 5, producerNodes := 3, producers := 4, unstartedNodes := 2 }
  let c : Config := { Config.standard with network := layout, genesis := .clocked }
  let bios : Node := Binding.equip (c.factory.bios ⟨9776, 8788⟩) [Account.system]
    (KeySource.numbered.draw Node.biosName 41).1
  have hshape : Shape.resolve (.empty []) "star" = .ok .star := rfl
  obtain ⟨hiff, _, hnodes⟩ :=
    build_accepts c (.empty []) .leapDay .numbered 41 .star bios hshape rfl (by decide) rfl
  have hcheck : c.check = .ok () := eq_ok_of_isSome (by decide +kernel)
  have hplan : c.plan.check = .ok () := eq_ok_of_isSome (by decide +kernel)
  have hgenesis : ∃ genesis, (Genesis.compose (.empty []) c.genesis.path bios c.genesisOverrides
      .leapDay).value = .ok genesis := exists_of_isSome (by decide +kernel)
  obtain ⟨net, hbuild⟩ := hiff.mpr ⟨hcheck, hplan, hgenesis⟩
  obtain ⟨_, _, hnames, hindices, hstarted⟩ := hnodes net hbuild
  exact ⟨c, net, hcheck, hplan, rfl, hbuild, hnames, hindices, hstarted⟩

end Testnet
