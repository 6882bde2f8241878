import Mathlib.Data.List.Forall2
import Mathlib.Data.List.Nodup
import Testnet.Proofs.Peering.Connect

/-!
# Sessions

Peers can be added and nodes connected in any order, again and again, and by different shapes, on
nodes that may have peers from before and need not be told apart by their names. Whatever is called,
each node only gains entries at the end of its list, and none that it has or is. A call that fails
changes nothing.
-/

namespace Testnet

namespace Node

/-- A node has become another by entries at the end of its list of peers. They are not its own name,
and each of them differs from all that stand before it. -/
structure Gained (n m : Node) (added : List String) : Prop where
  /-- Nothing but peers has changed. -/
  bare : m.bare = n.bare
  peers : m.peers = n.peers ++ added
  others : n.name ∉ added
  once : added.Nodup
  new : ∀ peer ∈ added, peer ∉ n.peers

/-- A node that has no peer twice and not itself. -/
def Tidy (n : Node) : Prop := n.peers.Nodup ∧ n.name ∉ n.peers

instance (n : Node) : Decidable n.Tidy :=
  inferInstanceAs (Decidable (n.peers.Nodup ∧ n.name ∉ n.peers))

variable {n m k : Node} {added more : List String}

theorem Gained.nothing (n : Node) : n.Gained n [] :=
  ⟨rfl, (List.append_nil _).symm, List.not_mem_nil, List.nodup_nil, nofun⟩

theorem Gained.name (h : n.Gained m added) : m.name = n.name := congrArg (·.name) h.bare

theorem Gained.trans (h : n.Gained m added) (h' : m.Gained k more) :
    n.Gained k (added ++ more) where
  bare := h'.bare.trans h.bare
  peers := by rw [h'.peers, h.peers, List.append_assoc]
  others := by
    rw [List.mem_append, not_or, ← h.name]
    exact ⟨h.name ▸ h.others, h'.others⟩
  once := by
    refine h.once.append h'.once fun peer hpeer hagain => h'.new peer hagain ?_
    rw [h.peers]
    exact List.mem_append_right _ hpeer
  new := by
    intro peer hpeer hold
    rcases List.mem_append.mp hpeer with hpeer | hpeer
    · exact h.new peer hpeer hold
    · refine h'.new peer hpeer ?_
      rw [h.peers]
      exact List.mem_append_left _ hold

theorem exists_gained_addPeer (n : Node) (peer : String) :
    ∃ added, n.Gained (n.addPeer peer) added := by
  by_cases h : n.accepts peer = true
  · obtain ⟨hname, hnew⟩ := accepts_iff.mp h
    refine ⟨[peer], bare_addPeer n peer, ?_, ?_, List.pairwise_singleton .., ?_⟩
    · rw [peers_addPeer, if_pos h]
    · exact fun hmem => hname (List.mem_singleton.mp hmem).symm
    · intro x hx
      rwa [List.mem_singleton.mp hx]
  · rw [addPeer_eq_self (Bool.not_eq_true _ ▸ h)]
    exact ⟨[], .nothing n⟩

theorem exists_gained_addPeers (n : Node) (peers : List String) :
    ∃ added, n.Gained (n.addPeers peers) added := by
  induction peers generalizing n with
  | nil => exact ⟨[], .nothing n⟩
  | cons peer rest ih =>
    obtain ⟨first, hfirst⟩ := n.exists_gained_addPeer peer
    obtain ⟨others, hothers⟩ := ih (n.addPeer peer)
    exact ⟨first ++ others, hfirst.trans hothers⟩

theorem Gained.tidy (h : n.Gained m added) (hn : n.Tidy) : m.Tidy := by
  obtain ⟨honce, hself⟩ := hn
  rw [Tidy, h.peers, h.name]
  constructor
  · exact honce.append h.once fun peer hold hpeer => h.new peer hpeer hold
  · rw [List.mem_append, not_or]
    exact ⟨hself, h.others⟩

end Node

namespace Peering

/-- The same nodes in the same order, each with what it has gained. -/
def Appended (ns ns' : List Node) : Prop :=
  List.Forall₂ (fun n m => ∃ added, n.Gained m added) ns ns'

variable {ns ns' ns'' : List Node}

theorem Appended.trans (h : Appended ns ns') (h' : Appended ns' ns'') : Appended ns ns'' := by
  induction h generalizing ns'' with
  | nil => exact h'
  | cons hfirst _ ih =>
    cases h' with
    | cons hsecond hrest =>
      obtain ⟨added, hadded⟩ := hfirst
      obtain ⟨more, hmore⟩ := hsecond
      exact .cons ⟨added ++ more, hadded.trans hmore⟩ (ih hrest)

/-- Nodes that have taken on peers, each those given to it. -/
theorem appended_of_given
    (h : ∀ i : Nat, ∃ given, ns'[i]? = ns[i]?.map (·.addPeers given)) : Appended ns ns' := by
  induction ns generalizing ns' with
  | nil =>
    obtain rfl : ns' = [] := List.ext_getElem? fun i => by
      obtain ⟨_, hi⟩ := h i
      exact hi
    exact .nil
  | cons n rest ih =>
    obtain ⟨given, hfirst⟩ := h 0
    cases ns' with
    | nil => cases hfirst
    | cons m others =>
      obtain rfl : m = n.addPeers given := Option.some.inj hfirst
      exact .cons (n.exists_gained_addPeers given) (ih fun i => h (i + 1))

theorem Appended.tidy (h : Appended ns ns') (hns : ∀ n ∈ ns, n.Tidy) : ∀ m ∈ ns', m.Tidy := by
  induction h with
  | nil => exact hns
  | cons hgained _ ih =>
    obtain ⟨added, hadded⟩ := hgained
    obtain ⟨hfirst, hrest⟩ := List.forall_mem_cons.mp hns
    exact List.forall_mem_cons.mpr ⟨hadded.tidy hfirst, ih hrest⟩

/-- What can be called on nodes to change their peers. -/
inductive Call where
  | addPeer (position : Nat) (peer : String)
  | connect (s : Shape) (producers : Nat)

/-- What a call makes of nodes. Adding a peer cannot fail. -/
def Call.on (nodes : List Node) : Call → Change Rejection Unit
  | .addPeer position peer => ⟨addPeerAt nodes position peer, .ok ()⟩
  | .connect s producers => (Peering.connect s producers nodes).value

/-- The nodes after several calls, whether or not they succeed. -/
def afterCalls (nodes : List Node) (calls : List Call) : List Node :=
  calls.foldl (fun ns call => (call.on ns).nodes) nodes

/-- One call only appends. -/
theorem appended_on (nodes : List Node) (call : Call) : Appended nodes (call.on nodes).nodes := by
  refine appended_of_given fun i => ?_
  cases call with
  | addPeer position peer =>
    show ∃ given, (addPeerAt nodes position peer)[i]? = _
    rw [getElem?_addPeerAt]
    by_cases hi : position = i
    · refine ⟨[peer], ?_⟩
      simp only [hi, if_true]
      rfl
    · refine ⟨[], ?_⟩
      simp only [hi, if_false]
      rfl
  | connect s producers =>
    obtain ⟨given, hget, _⟩ := grown_connect s producers nodes i
    exact ⟨given, hget⟩

/-- A call that fails leaves all as it was. -/
theorem on_of_error {nodes : List Node} {call : Call} {why : Rejection}
    (h : (call.on nodes).outcome = .error why) : (call.on nodes).nodes = nodes := by
  cases call with
  | addPeer _ _ => cases h
  | connect s producers => exact nodes_connect_of_error h

theorem appended_afterCalls (nodes : List Node) (calls : List Call) :
    Appended nodes (afterCalls nodes calls) := by
  induction calls generalizing nodes with
  | nil => exact appended_of_given fun i => ⟨[], (Node.map_addPeers_nil nodes[i]?).symm⟩
  | cons call rest ih => exact (appended_on nodes call).trans (ih (call.on nodes).nodes)

/-- However many calls there are, all they do is append peers, which are new to their nodes; a call
among them that fails does nothing, and lists without repetitions and without the node itself stay
so. -/
theorem calls_append_only (nodes : List Node) (calls : List Call) :
    Appended nodes (afterCalls nodes calls) ∧
    (∀ call why, (call.on (afterCalls nodes calls)).outcome = .error why →
      afterCalls nodes (calls ++ [call]) = afterCalls nodes calls) ∧
    ((∀ n ∈ nodes, n.Tidy) → ∀ n ∈ afterCalls nodes calls, n.Tidy) := by
  have happended := appended_afterCalls nodes calls
  refine ⟨happended, fun call why hfails => ?_, happended.tidy⟩
  rw [afterCalls, List.foldl_append]
  exact on_of_error hfails

/-- A ring and a peer of one's own choice, then a bridge that has no groups: it fails, and the
peers from before it stay. -/
theorem calls_append_only_of_failed_bridge :
    ∃ (nodes : List Node) (calls : List Call), (∀ n ∈ nodes, n.Tidy) ∧
      (Call.on (afterCalls nodes calls) (.connect .bridge 4)).outcome =
        .error (.emptyBridgeGroup 0 0) ∧
      (afterCalls nodes (calls ++ [.connect .bridge 4])).map (·.peers) =
        [[], ["far", "b", "bios"], ["a", "bios"]] ∧
      ∀ n ∈ afterCalls nodes calls, n.Tidy := by
  let blank : Node := ⟨0, "a", ⟨"etc"⟩, ⟨"var"⟩, [], [], ⟨0, 0⟩, false, []⟩
  let nodes : List Node := [{ blank with index := -100, name := "bios" }, blank,
    { blank with index := 1, name := "b" }]
  let calls : List Call := [.addPeer 1 "far", .connect .ring 0]
  have htidy : ∀ n ∈ nodes, n.Tidy := by decide
  have hfails : (Call.on (afterCalls nodes calls) (.connect .bridge 4)).outcome =
      .error (.emptyBridgeGroup 0 0) := by decide
  obtain ⟨_, hunchanged, hstays⟩ := calls_append_only nodes calls
  refine ⟨nodes, calls, htidy, hfails, ?_, hstays htidy⟩
  rw [hunchanged _ _ hfails]
  decide

end Peering

end Testnet
