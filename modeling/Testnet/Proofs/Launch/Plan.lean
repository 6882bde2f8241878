import Testnet.Proofs.Identity
import Testnet.Proofs.Launch.Reading
import Testnet.Proofs.PortClash

/-!
# Launch plans

A plan says whom to dial by ports, while peers go by names. No two nodes of a network that was built
wait for the others at one port, so the plan says the same as the network: a port that is dialled is
that of one entry, and its name is the peer. What the options append is left aside, since it may
dial anyone.
-/

namespace Testnet

section Ports

variable {σ : Type} {c : Config} {files : FileTree} {source : KeySource σ} {state : σ} {s : Shape}
  {nodes : List Node}

/-- The ports at which the nodes of a network made by a rule wait for each other are counted up from
one base, whatever the other base is. -/
theorem nodup_p2p_generated (h : (generatedNodes c s source state).result = .ok nodes)
    (hcheck : c.check = .ok ()) : (nodes.map (·.ports.p2p)).Nodup := by
  obtain ⟨_, _, hp2p, _⟩ := Config.check_eq_ok_iff.mp hcheck
  have hport : ∀ i < c.network.totalNodes, (c.factory.nodeAt c.allocator i).ports.p2p.toNat =
      portAbove c.network.p2pBase.toNat i := fun i hi =>
    (List.cons.inj (toNat_ports_nodeAt hi (plan_of_generated h).2)).1
  rw [map_generated (fun _ => rfl) h]
  refine List.Nodup.map_on (fun i hi j hj heq => portAbove_injective hp2p.1 ?_) List.nodup_range
  rw [← hport i (List.mem_range.mp hi), ← hport j (List.mem_range.mp hj), heq]

theorem nodup_p2p_of_listens (h : (nodes.flatMap Node.listens).Nodup) :
    (nodes.map (·.ports.p2p)).Nodup := by
  rw [List.nodup_flatMap] at h
  refine List.Pairwise.map _ (fun n m hnm heq => ?_) h.2
  exact hnm (List.mem_cons_self ..) (heq ▸ List.mem_cons_self ..)

theorem nodup_p2p_of_shaped (h : (shapedNodes c files source state s).result = .ok nodes)
    (hcheck : c.check = .ok ()) : (nodes.map (·.ports.p2p)).Nodup := by
  cases s with
  | custom path =>
    obtain ⟨t, _, hdeclared⟩ := loadedNodes_eq_ok_iff.mp h
    -- A file may say any ports, but those of both kinds are checked together.
    have hidentities := (Topology.declaredNodes_eq_ok_iff.mp hdeclared).2.2.1
    exact nodup_p2p_of_listens
      (Topology.free_nil_iff.mp (Topology.checkIdentities_eq_ok_iff.mp hidentities).2)
  | _ => exact nodup_p2p_generated h hcheck

end Ports

namespace LaunchEntry

variable (e : LaunchEntry) (o : LaunchOptions)

/-- The arguments of an entry without those that the options append. -/
def own : List String :=
  e.arguments.take (e.arguments.length - (mergeArguments o.extra o.specific e.index).length)

/-- What an entry says for a flag, not counting what the options append. -/
def values (flag : String) : List String := Launch.valuesOf flag (Launch.flags (e.own o))

/-- The names of the entries that wait for the others at a port. -/
def listeners (plan : List LaunchEntry) (p : Nat) : List String :=
  (plan.filter fun e => (e.values o "--p2p-listen-endpoint").any (Launch.port · == p)).map (·.name)

/-- An entry of a plan that says what its node is. -/
structure Launches (plan : List LaunchEntry) (n : Node) : Prop where
  name : e.name = n.name
  index : e.index = n.index
  dontStart : e.dontStart = n.dontStart
  /-- Who waits at the ports that are dialled. -/
  peers : (e.values o "--p2p-peer-address").map (fun a => listeners o plan (Launch.port a)) =
    n.peers.map fun peer => [peer]
  producers : e.values o "--producer-name" = n.producers
  signatures : e.values o "--signature-provider" =
    if n.producers = [] then [] else n.keys.map Network.signatureProvider
  genesis : e.values o "--genesis-json" =
    if n.name = Node.biosName then [o.genesisPath.text] else []
  /-- The options come last, and what they say for one node after what they say for all. -/
  arguments : e.arguments = e.own o ++ (o.extra.map Text.words).getD [] ++
    ((o.specific.get? n.index).map Text.words).getD []

end LaunchEntry

namespace Network

/-- An index that the options say something for and no node has. -/
def Stray (n : Network) (o : LaunchOptions) (i : Int32) : Prop :=
  i ∈ o.specific.entries.map (·.1) ∧ i ∉ n.nodes.map (·.index)

section Entry

variable (n : Network) (node : Node) (o : LaunchOptions)

theorem own_launchEntry : (n.launchEntry o node).own o = n.ownArguments node o := by
  show (n.arguments node o).take ((n.arguments node o).length -
    (mergeArguments o.extra o.specific node.index).length) = n.ownArguments node o
  rw [arguments_eq, List.length_append, Nat.add_sub_cancel, List.take_left]

theorem values_launchEntry {flag : String} {values : List String}
    (h : (flag, values) ∈ n.groups node o) : (n.launchEntry o node).values o flag = values := by
  rw [LaunchEntry.values, own_launchEntry]
  exact n.valuesOf_ownArguments node o h

theorem values_peers :
    (n.launchEntry o node).values o "--p2p-peer-address" = n.addresses node.peers :=
  n.values_launchEntry node o (by simp [groups, placeGroups])

end Entry

variable {n : Network} {o : LaunchOptions}

/-- Who waits at a port is decided by the ports of the nodes. -/
theorem listeners_launchEntry (p : Nat) :
    LaunchEntry.listeners o (n.nodes.map (n.launchEntry o)) p =
      (n.nodes.filter (·.ports.p2p.toNat == p)).map (·.name) := by
  have hlistens (node : Node) : (n.launchEntry o node).values o "--p2p-listen-endpoint" =
      ["0.0.0.0:" ++ toString node.ports.p2p.toNat] :=
    n.values_launchEntry node o (by simp [groups, placeGroups, homeGroups])
  rw [LaunchEntry.listeners, List.filter_map, List.map_map]
  simp only [Function.comp_def, hlistens, List.any_cons, List.any_nil, Bool.or_false,
    Launch.port_listen]
  rfl

/-- Where ports are told apart, the node of an address alone waits there. -/
theorem listeners_address (hports : (n.nodes.map (·.ports.p2p)).Nodup) {m : Node}
    (hm : m ∈ n.nodes) :
    LaunchEntry.listeners o (n.nodes.map (n.launchEntry o))
      (Launch.port ("localhost:" ++ toString m.ports.p2p.toNat)) = [m.name] := by
  have hnumbers : (n.nodes.map (·.ports.p2p.toNat)).Nodup := by
    have hmapped := hports.map (f := UInt16.toNat) fun _ _ => UInt16.toNat_inj.mp
    rwa [List.map_map] at hmapped
  rw [Launch.port_peer, listeners_launchEntry, filter_of_nodup hnumbers hm]
  rfl

/-- Whoever waits at the addresses of peers is the peers. -/
theorem map_listeners_addresses (hports : (n.nodes.map (·.ports.p2p)).Nodup) {peers : List String}
    (hpeers : ∀ peer ∈ peers, ∃ m ∈ n.nodes, n.node? peer = some m ∧ m.name = peer) :
    (n.addresses peers).map (fun a =>
        LaunchEntry.listeners o (n.nodes.map (n.launchEntry o)) (Launch.port a)) =
      peers.map fun peer => [peer] := by
  induction peers with
  | nil => rfl
  | cons peer rest ih =>
    obtain ⟨⟨m, hm, hfound, hname⟩, hrest⟩ := List.forall_mem_cons.mp hpeers
    have hown := @listeners_address n o hports m hm
    rw [hname] at hown
    rw [addresses_cons, List.map_append, ih hrest, hfound]
    exact congrArg (· :: _) hown

theorem isNone_nodeByIndex?_iff {i : Int32} :
    (n.nodeByIndex? i).isNone = true ↔ i ∉ n.nodes.map (·.index) := by
  rw [nodeByIndex?, Option.isNone_iff_eq_none, List.find?_eq_none, List.mem_map]
  simp only [beq_iff_eq, not_exists, not_and]

/-- The first entry that goes astray has the least index of all that do. -/
theorem stray_of_find? {e : Int32 × String}
    (h : o.specific.entries.find? (fun e => (n.nodeByIndex? e.1).isNone) = some e) :
    n.Stray o e.1 ∧ ∀ i, n.Stray o i → e.1 ≤ i := by
  obtain ⟨hnone, before, after, hentries, hbefore⟩ := List.find?_eq_some_iff_append.mp h
  have hmem : e ∈ o.specific.entries := List.mem_of_find?_eq_some h
  refine ⟨⟨List.mem_map_of_mem hmem, isNone_nodeByIndex?_iff.mp hnone⟩, ?_⟩
  intro i hi
  obtain ⟨hlisted, hnode⟩ := hi
  obtain ⟨e', he', rfl⟩ := List.mem_map.mp hlisted
  have hascending := o.specific.ascending
  rw [hentries] at he' hascending
  obtain ⟨_, hlast, _⟩ := List.pairwise_append.mp hascending
  -- Entries before the one that is found have nodes, and those after it have greater indices.
  rcases List.mem_append.mp he' with he' | he'
  · have hfound := hbefore e' he'
    rw [isNone_nodeByIndex?_iff.mpr hnode] at hfound
    cases hfound
  · rcases List.mem_cons.mp he' with rfl | he'
    · exact Int32.le_refl _
    · exact Int32.le_of_lt ((List.pairwise_cons.mp hlast).1 e' he')

/-- Either the first index that goes astray is refused, or none does and every node has an entry. -/
theorem launchPlan_cases :
    (∃ i, (n.launchPlan o).value = .error (.unknownNodeIndex i) ∧ n.Stray o i ∧
      ∀ j, n.Stray o j → i ≤ j) ∨
    ((n.launchPlan o).value = .ok (n.nodes.map (n.launchEntry o)) ∧ ∀ i, ¬ n.Stray o i) := by
  cases hfind : o.specific.entries.find? fun e => (n.nodeByIndex? e.1).isNone with
  | some e =>
    refine .inl ⟨e.1, ?_, stray_of_find? hfind⟩
    rw [launchPlan, hfind]
    rfl
  | none =>
    refine .inr ⟨?_, fun i hi => ?_⟩
    · rw [launchPlan, hfind]
    · obtain ⟨hlisted, hnode⟩ := hi
      obtain ⟨e, he, rfl⟩ := List.mem_map.mp hlisted
      exact List.find?_eq_none.mp hfind e he (isNone_nodeByIndex?_iff.mpr hnode)

/-- There is a plan where no index goes astray, with an entry for every node in their order. -/
theorem launchPlan_eq_ok_iff {plan : List LaunchEntry} : (n.launchPlan o).value = .ok plan ↔
    (∀ i, ¬ n.Stray o i) ∧ plan = n.nodes.map (n.launchEntry o) := by
  obtain ⟨i, hvalue, hstray, _⟩ | ⟨hvalue, hnone⟩ := @launchPlan_cases n o
  · rw [hvalue]
    exact ⟨nofun, fun h => absurd hstray (h.1 i)⟩
  · rw [hvalue, Except.ok.injEq, eq_comm]
    exact ⟨fun h => ⟨hnone, h⟩, And.right⟩

/-- The plan is refused for the least index that goes astray, and for nothing else. -/
theorem launchPlan_eq_error_iff {why : Rejection} : (n.launchPlan o).value = .error why ↔
    ∃ i, why = .unknownNodeIndex i ∧ n.Stray o i ∧ ∀ j, n.Stray o j → i ≤ j := by
  obtain ⟨i, hvalue, hstray, hleast⟩ | ⟨hvalue, hnone⟩ := @launchPlan_cases n o
  · rw [hvalue, Except.error.injEq, eq_comm]
    constructor
    · exact fun h => ⟨i, h, hstray, hleast⟩
    · intro h
      obtain ⟨j, hwhy, hj, hfirst⟩ := h
      rw [hwhy, Int32.le_antisymm (hfirst i hstray) (hleast j hj)]
  · rw [hvalue]
    constructor
    · exact nofun
    · intro h
      obtain ⟨i, _, hi, _⟩ := h
      exact absurd hi (hnone i)

/-- What the entry of a node says, in the plan of its network. -/
theorem launches_launchEntry {node : Node} (hports : (n.nodes.map (·.ports.p2p)).Nodup)
    (hpeers : ∀ peer ∈ node.peers, ∃ m ∈ n.nodes, n.node? peer = some m ∧ m.name = peer)
    (hbios : node.isBios = true ↔ node.name = Node.biosName) :
    (n.launchEntry o node).Launches o (n.nodes.map (n.launchEntry o)) node := by
  constructor
  case name => rfl
  case index => rfl
  case dontStart => rfl
  case peers =>
    rw [values_peers]
    exact map_listeners_addresses hports hpeers
  case producers =>
    exact n.values_launchEntry node o (by simp [groups, placeGroups, producerGroups])
  case signatures =>
    have hsigns : (n.launchEntry o node).values o "--signature-provider" =
        if node.isProducing then node.keys.map signatureProvider else [] :=
      n.values_launchEntry node o (by simp [groups, placeGroups, producerGroups])
    rw [hsigns, Node.isProducing]
    cases node.producers <;> rfl
  case genesis =>
    have hstarts : (n.launchEntry o node).values o "--genesis-json" =
        if node.isBios then [o.genesisPath.text] else [] :=
      n.values_launchEntry node o (by simp [groups, startGroups])
    rw [hstarts]
    exact if_congr hbios rfl rfl
  case arguments =>
    rw [own_launchEntry, List.append_assoc]
    exact n.arguments_eq node o

end Network

variable {σ : Type}

/-- The peers of nodes that are a graph are found under their names. -/
theorem Identified.exists_node? {n : Network} (h : Identified n.nodes)
    (hgraph : Peering.IsGraph n.nodes) {node : Node} (hnode : node ∈ n.nodes) :
    ∀ peer ∈ node.peers, ∃ m ∈ n.nodes, n.node? peer = some m ∧ m.name = peer := by
  intro peer hpeer
  obtain ⟨_, hknown⟩ := hgraph node hnode peer hpeer
  obtain ⟨m, hm, rfl⟩ := List.mem_map.mp hknown
  exact ⟨m, hm, h.find?_name hm, rfl⟩

/-- For every network that was built and all options, the plan is refused for the least index that
the options say something for and no node has. Without one it has an entry for every node, in the
order of the nodes, that says what the node is: the ports that it dials are those of its peers, each
waited at by one entry, in their order, and so are its accounts and keys. What the options append
stands after all of that. -/
theorem launchPlan_says_all (c : Config) (files : FileTree) (now : Timestamp) (source : KeySource σ)
    (state : σ) (net : Network) (hbuild : (build c files now source state).result = .ok net)
    (o : LaunchOptions) :
    (∀ why, (net.launchPlan o).value = .error why ↔
      ∃ i, why = .unknownNodeIndex i ∧ net.Stray o i ∧ ∀ j, net.Stray o j → i ≤ j) ∧
    ((∀ i, ¬ net.Stray o i) → ∃ plan, (net.launchPlan o).value = .ok plan ∧
      List.Forall₂ (fun n e => LaunchEntry.Launches e o plan n) net.nodes plan) := by
  obtain ⟨hcheck, shape, _, _, hnodes, hgraph, _⟩ := build_eq_ok_iff.mp hbuild
  have hidentified := identified_of_shaped hnodes
  refine ⟨fun why => Network.launchPlan_eq_error_iff, fun hstray => ?_⟩
  refine ⟨_, Network.launchPlan_eq_ok_iff.mpr ⟨hstray, rfl⟩, ?_⟩
  rw [List.forall₂_map_right_iff, List.forall₂_same]
  intro n hn
  exact Network.launches_launchEntry (nodup_p2p_of_shaped hnodes hcheck)
    (hidentified.exists_node? (Peering.checkGraph_eq_ok_iff.mp hgraph) hn)
    (hidentified.isBios_iff n hn)

/-- Four nodes in a ring with accounts of their own and a shared one, of which the last is not started
and the first regular one is told something more. The genesis has the time of the clock. An index
that no node has is refused, and of two such indices the smaller one. -/
theorem launchPlan_says_all_of_four :
    ∃ (c : Config) (net : Network) (o o' : LaunchOptions), c.genesisOverrides.AsksClock ∧
      (build c (.empty []) .leapDay .development ()).result = .ok net ∧
      (∃ plan, (net.launchPlan o).value = .ok plan ∧
        List.Forall₂ (fun n e => LaunchEntry.Launches e o plan n) net.nodes plan) ∧
      (net.launchPlan o').value = .error (.unknownNodeIndex 7) := by
  let layout : Config.Layout :=
    { Config.Layout.standard with
      shape := "ring", totalNodes := 4, producerNodes := 3, producers := 3, sharedProducers := 1,
      unstartedNodes := 1 }
  let c : Config := { Config.standard with network := layout, genesis := .clocked }
  let o : LaunchOptions := ⟨⟨"genesis.json"⟩, some "--verbose", .ofList [(0, "--max-clients 5")]⟩
  let o' : LaunchOptions := ⟨⟨"genesis.json"⟩, none, .ofList [(9, ""), (7, "")]⟩
  obtain ⟨net, hbuild, hknown⟩ : ∃ net,
      (build c (.empty []) .leapDay .development ()).result = .ok net ∧
      net.nodes.map (·.index) = [-100, 0, 1, 2] := exists_of_any (by decide +kernel)
  obtain ⟨_, hplanned⟩ :=
    launchPlan_says_all c (.empty []) .leapDay .development () net hbuild o
  obtain ⟨hrefused, _⟩ :=
    launchPlan_says_all c (.empty []) .leapDay .development () net hbuild o'
  have htold : o.specific.entries.map (·.1) = [0] := by decide
  have hastray : o'.specific.entries.map (·.1) = [7, 9] := by decide
  have hnone : ∀ i, ¬ net.Stray o i := by
    intro i hi
    obtain ⟨hlisted, hnode⟩ := hi
    rw [htold, List.mem_singleton] at hlisted
    rw [hknown, hlisted] at hnode
    exact hnode (by decide)
  have hseven : net.Stray o' 7 := by
    constructor
    · rw [hastray]
      decide
    · rw [hknown]
      decide
  have hleast : ∀ j, net.Stray o' j → 7 ≤ j := by
    intro j hj
    obtain ⟨hlisted, _⟩ := hj
    rw [hastray, List.mem_cons, List.mem_singleton] at hlisted
    rcases hlisted with rfl | rfl <;> decide
  exact ⟨c, net, o, o', rfl, hbuild, hplanned hnone, (hrefused _).mpr ⟨7, rfl, hseven, hleast⟩⟩

end Testnet
