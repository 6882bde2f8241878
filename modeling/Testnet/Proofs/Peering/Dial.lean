import Testnet.Peering.Dial
import Testnet.Proofs.Run

/-!
# What dialling leaves behind

Links are followed one after the other, but what becomes of a node depends only on the links that
start at it: their targets are added to its peers in order. Nothing but peers ever changes.
-/

namespace Testnet

namespace Node

/-- The node with several peers added one after the other. -/
def addPeers (n : Node) (peers : List String) : Node := peers.foldl addPeer n

/-- All of a node but its peers. -/
def bare (n : Node) : Node := { n with peers := [] }

theorem addPeers_append (n : Node) (first second : List String) :
    n.addPeers (first ++ second) = (n.addPeers first).addPeers second := List.foldl_append

@[simp] theorem name_addPeers (n : Node) (peers : List String) :
    (n.addPeers peers).name = n.name := by
  induction peers generalizing n with
  | nil => rfl
  | cons peer rest ih => exact (ih (n.addPeer peer)).trans (name_addPeer n peer)

@[simp] theorem bare_addPeer (n : Node) (peer : String) : (n.addPeer peer).bare = n.bare := by
  unfold addPeer
  split <;> rfl

@[simp] theorem bare_addPeers (n : Node) (peers : List String) :
    (n.addPeers peers).bare = n.bare := by
  induction peers generalizing n with
  | nil => rfl
  | cons peer rest ih => exact (ih (n.addPeer peer)).trans (bare_addPeer n peer)

@[simp] theorem isBios_addPeers (n : Node) (peers : List String) :
    (n.addPeers peers).isBios = n.isBios := by
  show (n.addPeers peers).bare.isBios = n.bare.isBios
  rw [bare_addPeers]

theorem hasPeer_iff {n : Node} {peer : String} : n.hasPeer peer = true ↔ peer ∈ n.peers := by
  simp [hasPeer]

theorem accepts_iff {n : Node} {peer : String} :
    n.accepts peer = true ↔ peer ≠ n.name ∧ peer ∉ n.peers := by
  simp [accepts, hasPeer]

theorem mem_peers_addPeer {n : Node} {peer x : String} :
    x ∈ (n.addPeer peer).peers ↔ x ∈ n.peers ∨ x = peer ∧ x ≠ n.name := by
  rw [peers_addPeer, List.mem_append]
  by_cases h : n.accepts peer = true
  · obtain ⟨hname, _⟩ := accepts_iff.mp h
    simp only [h, if_true, List.mem_singleton]
    exact or_congr_right ⟨fun hx => ⟨hx, hx ▸ hname⟩, And.left⟩
  · simp only [h, List.not_mem_nil, or_false, Bool.false_eq_true, if_false]
    refine ⟨Or.inl, fun hx => hx.elim id ?_⟩
    intro hgiven
    obtain ⟨rfl, hname⟩ := hgiven
    exact Decidable.byContradiction fun hnot => h (accepts_iff.mpr ⟨hname, hnot⟩)

/-- A node ends up with the peers that it had and those that it was given, except itself. -/
theorem mem_peers_addPeers {n : Node} {peers : List String} {x : String} :
    x ∈ (n.addPeers peers).peers ↔ x ∈ n.peers ∨ x ∈ peers ∧ x ≠ n.name := by
  induction peers generalizing n with
  | nil => simp [addPeers]
  | cons peer rest ih =>
    show x ∈ ((n.addPeer peer).addPeers rest).peers ↔ _
    rw [ih, mem_peers_addPeer, name_addPeer, List.mem_cons]
    constructor
    · intro hcase
      rcases hcase with (hx | ⟨hx, hne⟩) | ⟨hx, hne⟩
      · exact .inl hx
      · exact .inr ⟨.inl hx, hne⟩
      · exact .inr ⟨.inr hx, hne⟩
    · intro hcase
      rcases hcase with hx | ⟨hx | hx, hne⟩
      · exact .inl (.inl hx)
      · exact .inl (.inr ⟨hx, hne⟩)
      · exact .inr ⟨hx, hne⟩

/-- A peer is taken on once at most. -/
theorem nodup_peers_addPeer {n : Node} (h : n.peers.Nodup) (peer : String) :
    (n.addPeer peer).peers.Nodup := by
  rw [peers_addPeer]
  by_cases haccepts : n.accepts peer = true
  · obtain ⟨_, hnew⟩ := accepts_iff.mp haccepts
    rw [if_pos haccepts, List.nodup_append]
    refine ⟨h, List.pairwise_singleton .., fun x hx y hy heq => hnew ?_⟩
    rw [List.mem_singleton] at hy
    rwa [← hy, ← heq]
  · rw [if_neg haccepts, List.append_nil]
    exact h

theorem nodup_peers_addPeers {n : Node} (h : n.peers.Nodup) (peers : List String) :
    (n.addPeers peers).peers.Nodup := by
  induction peers generalizing n with
  | nil => exact h
  | cons peer rest ih => exact ih (nodup_peers_addPeer h peer)

/-- New names are all taken on, in order. -/
theorem addPeers_of_new {n : Node} {given : List String} (hself : n.name ∉ given)
    (hnew : (n.peers ++ given).Nodup) :
    n.addPeers given = { n with peers := n.peers ++ given } := by
  induction given generalizing n with
  | nil =>
    rw [List.append_nil]
    rfl
  | cons peer rest ih =>
    obtain ⟨hpeer, hrest⟩ := not_or.mp (mt List.mem_cons.mpr hself)
    have haccepts : n.accepts peer = true :=
      accepts_iff.mpr ⟨Ne.symm hpeer, fun hmem =>
        (List.nodup_append.mp hnew).2.2 peer hmem peer List.mem_cons_self rfl⟩
    have hadd : n.addPeer peer = { n with peers := n.peers ++ [peer] } := if_pos haccepts
    have hrestNew : (n.peers ++ [peer] ++ rest).Nodup := by rwa [List.append_assoc]
    have hlater := ih (n := { n with peers := n.peers ++ [peer] }) hrest hrestNew
    rw [List.append_assoc] at hlater
    show (n.addPeer peer).addPeers rest = _
    rw [hadd]
    exact hlater

/-- Peers that a node has, and its own name, are not taken on. -/
theorem addPeers_eq_self {n : Node} {peers : List String}
    (h : ∀ peer ∈ peers, peer ∈ n.peers ∨ peer = n.name) : n.addPeers peers = n := by
  induction peers with
  | nil => rfl
  | cons peer rest ih =>
    obtain ⟨hpeer, hrest⟩ := List.forall_mem_cons.mp h
    have hrefuses : n.accepts peer = false := by
      rw [← Bool.not_eq_true, accepts_iff]
      intro hnew
      exact hpeer.elim hnew.2 hnew.1
    show (n.addPeer peer).addPeers rest = n
    rw [addPeer_eq_self hrefuses]
    exact ih hrest

/-- Adding the same peers once more changes nothing. -/
theorem addPeers_addPeers (n : Node) (peers : List String) :
    (n.addPeers peers).addPeers peers = n.addPeers peers := by
  refine addPeers_eq_self fun peer hpeer => ?_
  rw [mem_peers_addPeers, name_addPeers]
  by_cases hname : peer = n.name
  · exact .inr hname
  · exact .inl (.inr ⟨hpeer, hname⟩)

theorem map_addPeers_nil (n? : Option Node) : n?.map (·.addPeers []) = n? := Option.map_id'

end Node

namespace Peering

open Node (map_addPeers_nil)

/-- The names that the node at a position is to dial, in the order of the links. -/
def dialled (nodes : List Node) (links : List Link) (i : Nat) : List String :=
  links.filterMap fun l => if l.source = i then nodes[l.target]?.map (·.name) else none

/-- The same for a list of nodes that dial the bios node. -/
def biosDialled (nodes : List Node) (sources : List Nat) (i : Nat) : List String :=
  if nodes.any Node.isBios then (sources.filter (· == i)).map fun _ => Node.biosName else []

theorem getElem?_addPeerAt (nodes : List Node) (position i : Nat) (peer : String) :
    (addPeerAt nodes position peer)[i]? =
      nodes[i]?.map fun n => if position = i then n.addPeer peer else n := by
  rw [addPeerAt, List.getElem?_modify]
  rfl

theorem dialled_congr {nodes nodes' : List Node} {links : List Link} {i : Nat}
    (h : ∀ j : Nat, nodes[j]?.map (·.name) = nodes'[j]?.map (·.name)) :
    dialled nodes links i = dialled nodes' links i := by
  simp only [dialled, h]

theorem getElem?_dial (nodes : List Node) (l : Link) (i : Nat) :
    (dial nodes l).value[i]? = nodes[i]?.map (·.addPeers (dialled nodes [l] i)) := by
  rw [value_dial]
  cases htarget : nodes[l.target]? with
  | none =>
    have hnone : dialled nodes [l] i = [] := by simp [dialled, htarget]
    rw [hnone]
    cases nodes[l.source]? <;> exact (map_addPeers_nil nodes[i]?).symm
  | some target =>
    by_cases hi : l.source = i
    · have hone : dialled nodes [l] i = [target.name] := by simp [dialled, htarget, hi]
      rw [hone, hi]
      cases hsource : nodes[i]? with
      | none => rw [hsource]; rfl
      | some source =>
        simp only [getElem?_addPeerAt, hsource, Option.map_some, if_true]
        rfl
    · have hnone : dialled nodes [l] i = [] := by simp [dialled, hi]
      rw [hnone]
      cases nodes[l.source]? with
      | none => exact (map_addPeers_nil nodes[i]?).symm
      | some source =>
        simp only [getElem?_addPeerAt, hi, if_false]
        rfl

/-- The node at a position after all links have been followed. -/
theorem getElem?_dialAll (nodes : List Node) (links : List Link) (i : Nat) :
    (dialAll nodes links).value[i]? = nodes[i]?.map (·.addPeers (dialled nodes links i)) := by
  unfold dialAll
  rw [Logged.value_foldlM]
  induction links generalizing nodes with
  | nil => exact (map_addPeers_nil nodes[i]?).symm
  | cons l rest ih =>
    have hnames : ∀ j : Nat, (dial nodes l).value[j]?.map (·.name) = nodes[j]?.map (·.name) := by
      intro j
      rw [getElem?_dial, Option.map_map]
      exact congrArg (Option.map · nodes[j]?) (funext fun n => n.name_addPeers _)
    have hsplit : dialled nodes (l :: rest) i = dialled nodes [l] i ++ dialled nodes rest i :=
      List.filterMap_append (l := [l])
    rw [List.foldl_cons, ih, getElem?_dial, dialled_congr hnames, Option.map_map, hsplit]
    exact congrArg (Option.map · nodes[i]?) (funext fun n => (n.addPeers_append _ _).symm)

theorem getElem?_foldl_addPeerAt (nodes : List Node) (sources : List Nat) (peer : String)
    (i : Nat) :
    (sources.foldl (fun ns s => addPeerAt ns s peer) nodes)[i]? =
      nodes[i]?.map (·.addPeers ((sources.filter (· == i)).map fun _ => peer)) := by
  induction sources generalizing nodes with
  | nil => exact (map_addPeers_nil nodes[i]?).symm
  | cons s rest ih =>
    rw [List.foldl_cons, ih, getElem?_addPeerAt, Option.map_map, List.filter_cons]
    by_cases hs : s = i
    · simp only [hs, beq_self_eq_true, if_true, List.map_cons]
      rfl
    · simp only [beq_eq_false_iff_ne.mpr hs, hs, if_false]
      rfl

/-- The node at a position after some nodes have dialled the bios node. -/
theorem getElem?_dialBios (nodes : List Node) (sources : List Nat) (i : Nat) :
    (dialBios nodes sources)[i]? =
      nodes[i]?.map (·.addPeers (biosDialled nodes sources i)) := by
  unfold dialBios biosDialled
  split
  · exact getElem?_foldl_addPeerAt nodes sources Node.biosName i
  · exact (map_addPeers_nil nodes[i]?).symm

/-- Whether there is a bios node does not depend on peers. -/
theorem any_isBios_congr {nodes nodes' : List Node}
    (h : nodes.map Node.bare = nodes'.map Node.bare) :
    nodes.any Node.isBios = nodes'.any Node.isBios := by
  have hany := congrArg (List.any · Node.isBios) h
  rw [List.any_map, List.any_map] at hany
  exact hany

theorem mem_dialled {nodes : List Node} {links : List Link} {i : Nat} {x : String} :
    x ∈ dialled nodes links i ↔
      ∃ j t, ⟨i, j⟩ ∈ links ∧ nodes[j]? = some t ∧ t.name = x := by
  simp only [dialled, List.mem_filterMap]
  constructor
  · intro hgiven
    obtain ⟨⟨s, j⟩, hl, h⟩ := hgiven
    by_cases hs : s = i
    · simp only [hs, if_true, Option.map_eq_some_iff] at h
      obtain ⟨t, ht, hx⟩ := h
      exact ⟨j, t, hs ▸ hl, ht, hx⟩
    · simp only [hs, if_false, reduceCtorEq] at h
  · intro hgiven
    obtain ⟨j, t, hl, ht, hx⟩ := hgiven
    exact ⟨⟨i, j⟩, hl, by simp [ht, hx]⟩

theorem mem_biosDialled {nodes : List Node} {sources : List Nat} {i : Nat} {x : String} :
    x ∈ biosDialled nodes sources i ↔
      nodes.any Node.isBios = true ∧ i ∈ sources ∧ x = Node.biosName := by
  unfold biosDialled
  split
  · simp only [*, List.mem_map, List.mem_filter, beq_iff_eq, true_and]
    exact ⟨fun ⟨_, ⟨hs, hi⟩, hx⟩ => ⟨hi ▸ hs, hx.symm⟩, fun ⟨hs, hx⟩ => ⟨i, ⟨hs, rfl⟩, hx.symm⟩⟩
  · simp [*]

theorem names_of_bare {ns nodes : List Node} (hns : ns.map Node.bare = nodes.map Node.bare) :
    ns.map (·.name) = nodes.map (·.name) := by
  have hnames := congrArg (List.map (·.name)) hns
  rw [List.map_map, List.map_map] at hnames
  exact hnames

/-- Nodes that have become others by taking on peers: names of nodes, or that of the bios node. -/
def Grown (ns ns' : List Node) : Prop :=
  ∀ k : Nat, ∃ given, ns'[k]? = ns[k]?.map (·.addPeers given) ∧
    ∀ peer ∈ given, peer ∈ ns.map (·.name) ∨ peer = Node.biosName

namespace Grown

variable {ns ns' ns'' : List Node}

theorem refl (ns : List Node) : Grown ns ns := fun k => ⟨[], (map_addPeers_nil ns[k]?).symm, nofun⟩

/-- Nothing but peers changes. -/
theorem bare (h : Grown ns ns') : ns'.map Node.bare = ns.map Node.bare := by
  apply List.ext_getElem?
  intro k
  obtain ⟨given, hget, _⟩ := h k
  rw [List.getElem?_map, List.getElem?_map, hget, Option.map_map]
  exact congrArg (Option.map · ns[k]?) (funext fun n => n.bare_addPeers given)

theorem names (h : Grown ns ns') : ns'.map (·.name) = ns.map (·.name) := names_of_bare h.bare

theorem trans (h : Grown ns ns') (h' : Grown ns' ns'') : Grown ns ns'' := by
  intro k
  obtain ⟨given, hget, hgiven⟩ := h k
  obtain ⟨given', hget', hgiven'⟩ := h' k
  refine ⟨given ++ given', ?_, fun peer hpeer => ?_⟩
  · rw [hget', hget, Option.map_map]
    exact congrArg (Option.map · ns[k]?) (funext fun n => (n.addPeers_append given given').symm)
  · rcases List.mem_append.mp hpeer with hpeer | hpeer
    · exact hgiven peer hpeer
    · rw [← h.names]
      exact hgiven' peer hpeer

end Grown

theorem grown_dialAll (nodes : List Node) (links : List Link) :
    Grown nodes (dialAll nodes links).value := by
  refine fun k => ⟨_, getElem?_dialAll nodes links k, fun peer hpeer => .inl ?_⟩
  obtain ⟨_, target, _, htarget, rfl⟩ := mem_dialled.mp hpeer
  exact List.mem_map_of_mem (List.mem_of_getElem? htarget)

theorem grown_dialBios (nodes : List Node) (sources : List Nat) :
    Grown nodes (dialBios nodes sources) :=
  fun k => ⟨_, getElem?_dialBios nodes sources k,
    fun _ hpeer => .inr (mem_biosDialled.mp hpeer).2.2⟩

/-- Following links changes nothing but peers. -/
theorem bare_dialAll (nodes : List Node) (links : List Link) :
    (dialAll nodes links).value.map Node.bare = nodes.map Node.bare :=
  (grown_dialAll nodes links).bare

theorem bare_dialBios (nodes : List Node) (sources : List Nat) :
    (dialBios nodes sources).map Node.bare = nodes.map Node.bare :=
  (grown_dialBios nodes sources).bare

end Peering

end Testnet
