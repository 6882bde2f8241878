import Testnet.Proofs.Declared

/-!
# Nodes declared again

What is written down of nodes says everything, so it declares the same nodes again wherever it
passes the checks. Nodes that were declared once always do: what was filled in for them the first
time takes the place of what was left out.
-/

namespace Testnet.Topology

variable {f : Factory} {a : Allocator} {nodes : List Node} {name : String} {source : Path}

theorem declaredNode_ofNode {n : Node} (h : Declarable f n) (ports : Ports) :
    declaredNode f n.name (.ofNode n) n.index ports = n := by
  have hconfig := h.configDir
  have hdata := h.dataDir
  obtain ⟨index, name, configDir, dataDir, producers, peers, ports, dontStart, keys⟩ := n
  dsimp only at hconfig hdata
  rw [hconfig, hdata]
  rfl

theorem fillFrom_ofNodes {next : Int32} (hnodes : ∀ n ∈ nodes, Declarable f n)
    (hroom : a.Room (regularCount (nodes.map (·.name)))) :
    fillFrom f next a (nodes.map fun n => (n.name, .ofNode n)) = .ok nodes := by
  induction nodes generalizing next a with
  | nil => rfl
  | cons n rest ih =>
    obtain ⟨hn, hrest⟩ := List.forall_mem_cons.mp hnodes
    rw [List.map_cons, fillFrom_cons_eq_ok_iff]
    by_cases hbios : n.name = Node.biosName
    · rw [List.map_cons, regularCount_cons_of_bios hbios] at hroom
      refine .inl ⟨hbios, rest, ih hrest hroom, ?_⟩
      rw [← hn.bios hbios, declaredNode_ofNode hn]
    · rw [List.map_cons, regularCount_cons_of_regular hbios, Allocator.room_succ_iff] at hroom
      have hindex : (Description.ofNode n).index.getD next = n.index := rfl
      refine .inr ⟨hbios, hroom.1, hn.regular hbios, rest, ih hrest hroom.2, ?_⟩
      rw [hindex, declaredNode_ofNode hn]

/-- What is written down of nodes passes the first check exactly if the nodes are sound. -/
theorem check_ofNodes : (ofNodes name nodes).check source = .ok () ↔
    (nodes.map (·.name)).Nodup ∧ Node.biosName ∈ nodes.map (·.name) ∧ ∀ n ∈ nodes,
      (∀ peer ∈ n.peers, peer ≠ n.name ∧ peer ∈ nodes.map (·.name)) ∧
        ∀ account ∈ n.producers, Account.isValid account = true := by
  have hnames : (ofNodes name nodes).nodes.map (·.1) = nodes.map (·.name) := by
    rw [ofNodes, List.map_map]
    rfl
  rw [check_eq_ok_iff, hnames]
  unfold ofNodes
  rw [List.forall_mem_map]
  rfl

/-- Nodes that are written down are declared again as they were, or refused for their identities. -/
theorem declaredNodes_ofNodes (hcheck : (ofNodes name nodes).check source = .ok ())
    (hnodes : ∀ n ∈ nodes, Declarable f n)
    (hroom : a.Room (regularCount (nodes.map (·.name)))) :
    (ofNodes name nodes).declaredNodes source f a =
      ((checkIdentities nodes >>= fun _ => Assignment.ofNodes nodes).map fun _ => nodes).mapError
        .refused := by
  unfold declaredNodes
  rw [hcheck]
  dsimp only
  have hfill := @fillFrom_ofNodes f a nodes 0 hnodes hroom
  simp only [ofNodes, hfill]
  cases checkIdentities nodes with
  | error why => rfl
  | ok _ =>
    rw [ok_bind]
    cases Assignment.ofNodes nodes <;> rfl

/-- What is written down of declared nodes is as sound as what declared them. -/
theorem check_ofNodes_of_declared {t : Topology} {next : Int32} {path : Path}
    (hcheck : t.check source = .ok ()) (hfilled : fillFrom f next a t.nodes = .ok nodes) :
    (ofNodes name nodes).check path = .ok () := by
  obtain ⟨hnames, hbios, hsound⟩ := check_eq_ok_iff.mp hcheck
  have hsame := map_fillFrom (g := (·.name)) (k := (·.1)) (fun _ _ _ _ => rfl) hfilled
  have hsaid := map_fillFrom (g := fun n => (n.name, n.peers, n.producers))
    (k := fun d => (d.1, d.2.peers, d.2.producers)) (fun _ _ _ _ => rfl) hfilled
  rw [check_ofNodes, hsame]
  refine ⟨hnames, hbios, fun n hn => ?_⟩
  have hmem := List.mem_map_of_mem (f := fun n : Node => (n.name, n.peers, n.producers)) hn
  rw [hsaid] at hmem
  obtain ⟨d, hd, heq⟩ := List.mem_map.mp hmem
  simp only [Prod.mk.injEq] at heq
  obtain ⟨hname, hpeers, hproducers⟩ := heq
  rw [← hname, ← hpeers, ← hproducers]
  exact hsound d hd

/-- Nodes that were declared once are declared again by what is written down of them, under any
name of the network and with the same directories and ports to take. The indices and ports that were
filled in are now given, and all checks pass as before. -/
theorem declaredNodes_again (t : Topology) (source : Path) (f : Factory) (a : Allocator)
    (nodes : List Node) (h : t.declaredNodes source f a = .ok nodes) (name : String)
    (path : Path) : (ofNodes name nodes).declaredNodes path f a = .ok nodes := by
  obtain ⟨hcheck, hfilled, hidentities, owners, howners⟩ := declaredNodes_eq_ok_iff.mp h
  have hsound : (ofNodes name nodes).check path = .ok () :=
    check_ofNodes_of_declared hcheck hfilled
  have hroom := room_of_fillFrom hfilled
  rw [← (fillFrom_identity hfilled).1] at hroom
  rw [declaredNodes_ofNodes hsound (declarable_fillFrom hfilled) hroom,
    hidentities, ok_bind, howners]
  rfl

/-- The bios node gives an index that it does not get, and of the others one gives its index and a
port; the last one counts on from there. -/
theorem declaredNodes_again_of_four :
    ∃ (t : Topology) (f : Factory) (a : Allocator) (nodes : List Node),
      t.nodes.map (·.2.index) = [some 5, none, some 7, none] ∧
      t.declaredNodes ⟨"custom.json"⟩ f a = .ok nodes ∧
      nodes.map (·.index) = [-100, 0, 7, 8] ∧ nodes.map (·.ports.p2p) = [9776, 9876, 12000, 9878] ∧
      (ofNodes "again_" nodes).declaredNodes ⟨"again.json"⟩ f a = .ok nodes := by
  let blank : Description := ⟨none, [], [], false, none, none, []⟩
  let t : Topology := ⟨"custom_",
    [("bios", { blank with index := some 5, producers := ["eosio"] }),
      ("node_00", { blank with peers := ["bios", "remote"], producers := ["defproducera"] }),
      ("remote", { blank with index := some 7, p2pPort := some 12000, dontStart := true }),
      ("last", { blank with producers := ["shrproducera", "defproducerb"] })]⟩
  let f : Factory := ⟨⟨"etc"⟩, ⟨"var"⟩, 4, 0⟩
  obtain ⟨nodes, h⟩ : ∃ nodes, t.declaredNodes ⟨"custom.json"⟩ f .standard = .ok nodes :=
    exists_of_isSome (by decide +kernel)
  have hfilled : (t.declaredNodes ⟨"custom.json"⟩ f .standard).toOption.map
      (·.map fun n => (n.index, n.ports.p2p)) =
        some [(-100, 9776), (0, 9876), (7, 12000), (8, 9878)] := by decide +kernel
  rw [h] at hfilled
  have hpairs := Option.some.inj hfilled
  have hindex := congrArg (List.map Prod.fst) hpairs
  have hport := congrArg (List.map Prod.snd) hpairs
  rw [List.map_map] at hindex hport
  exact ⟨t, f, .standard, nodes, rfl, h, hindex, hport,
    declaredNodes_again t _ f .standard nodes h "again_" ⟨"again.json"⟩⟩

/-- Ports that are written down are taken as they are, whatever the allocator gives. -/
theorem ports_fillFrom_ofNodes {next : Int32} {filled : List Node}
    (h : fillFrom f next a (nodes.map fun n => (n.name, .ofNode n)) = .ok filled) :
    filled.map (·.ports) = nodes.map (·.ports) := by
  induction nodes generalizing next a filled with
  | nil =>
    cases h
    rfl
  | cons n rest ih =>
    obtain ⟨_, filledRest, hrest, rfl⟩ | ⟨_, _, _, filledRest, hrest, rfl⟩ :=
      fillFrom_cons_eq_ok_iff.mp h
    · rw [List.map_cons, List.map_cons, ih hrest]
      rfl
    · rw [List.map_cons, List.map_cons, ih hrest]
      rfl

theorem peerRejection?_ne_duplicatePort {declared : List String} {node peer : String}
    {port : UInt16} {first second : String} :
    peerRejection? declared node peer ≠ some (.duplicatePort port first second) := by
  unfold peerRejection?
  split
  · nofun
  · split <;> nofun

/-- The first check does not look at ports. -/
theorem check_ne_duplicatePort {t : Topology} {port : UInt16} {first second : String} :
    t.check source ≠ .error (.duplicatePort port first second) := by
  intro h
  unfold check at h
  dsimp only at h
  split at h
  · cases h
  split at h
  · cases h
  split at h
  case h_1 why hwhy =>
    cases h
    obtain ⟨node, _, hnode⟩ := List.exists_of_findSome?_eq_some hwhy
    rcases Option.or_eq_some_iff.mp hnode with hpeer | ⟨_, haccount⟩
    · obtain ⟨peer, _, hpeer⟩ := List.exists_of_findSome?_eq_some hpeer
      exact peerRejection?_ne_duplicatePort hpeer
    · obtain ⟨account, _, haccount⟩ := Option.map_eq_some_iff.mp haccount
      cases haccount
  case h_2 => cases h

/-- A topology is refused for a port only if two of those filled in are the same. -/
theorem not_nodup_of_declaredNodes {t : Topology} {port : UInt16} {first second : String}
    (h : t.declaredNodes source f a = .error (.refused (.duplicatePort port first second))) :
    ∃ filled, fillFrom f 0 a t.nodes = .ok filled ∧ ¬ (filled.flatMap Node.listens).Nodup := by
  unfold declaredNodes at h
  split at h
  case h_1 why hwhy =>
    cases h
    exact absurd hwhy check_ne_duplicatePort
  case h_2 =>
  split at h
  case h_1 => cases h
  case h_2 filled hfilled =>
  refine ⟨filled, hfilled, fun hnodup => ?_⟩
  have hports : PortsFree [] filled := free_nil_iff.mpr hnodup
  cases hidentities : checkIdentities filled with
  | error why =>
    rw [hidentities] at h
    cases h
    exact not_portsFree_of_duplicatePort hidentities hports
  | ok _ =>
    rw [hidentities, ok_bind, Assignment.ofNodes] at h
    split at h
    case h_1 hwhy =>
      cases h
      split at hwhy <;> cases hwhy
    case h_2 => cases h

end Testnet.Topology
