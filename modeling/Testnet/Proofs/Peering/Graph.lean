import Testnet.Peering.Graph
import Testnet.Proofs.Peering.Connect

/-!
# Connected nodes are a graph

Whoever is dialled is a node, and no node takes itself on as a peer. So peers are names of other
nodes, whatever the shape and in whatever order the nodes dial.
-/

namespace Testnet.Peering

/-- Every peer is the name of another node. -/
def IsGraph (nodes : List Node) : Prop :=
  ∀ n ∈ nodes, ∀ peer ∈ n.peers, peer ≠ n.name ∧ peer ∈ nodes.map (·.name)

theorem checkGraph_eq_ok_iff {nodes : List Node} : checkGraph nodes = .ok () ↔ IsGraph nodes := by
  have hpeer : ∀ (names : List String) (node peer : String),
      peerFault? names node peer = none ↔ peer ≠ node ∧ peer ∈ names := by
    intro names node peer
    unfold peerFault?
    by_cases hself : peer = node
    · simp [hself]
    · by_cases hmem : peer ∈ names <;> simp [hself, hmem]
  have hfault : graphFault? nodes = none ↔ IsGraph nodes := by
    simp only [graphFault?, List.findSome?_eq_none_iff, hpeer]
    rfl
  rw [← hfault]
  unfold checkGraph
  cases graphFault? nodes <;> simp

variable {nodes ns ns' : List Node}

theorem isGraph_of_silent (h : ∀ n ∈ nodes, n.peers = []) : IsGraph nodes := by
  intro n hn peer hpeer
  rw [h n hn] at hpeer
  cases hpeer

/-- Nodes that take on peers stay a graph, if there is a bios node to dial. -/
theorem IsGraph.of_grown (h : IsGraph ns) (hgrown : Grown ns ns')
    (hbios : Node.biosName ∈ ns.map (·.name)) : IsGraph ns' := by
  intro n hn peer hpeer
  obtain ⟨k, hk⟩ := List.mem_iff_getElem?.mp hn
  obtain ⟨given, hget, hgiven⟩ := hgrown k
  rw [hget, Option.map_eq_some_iff] at hk
  obtain ⟨m, hm, rfl⟩ := hk
  rw [hgrown.names, Node.name_addPeers]
  rcases Node.mem_peers_addPeers.mp hpeer with hold | ⟨hnew, hne⟩
  · exact h m (List.mem_of_getElem? hm) peer hold
  · refine ⟨hne, ?_⟩
    rcases hgiven peer hnew with hname | rfl
    · exact hname
    · exact hbios

/-- Connecting nodes by any shape makes them a graph. -/
theorem isGraph_connect (h : Unconnected nodes) (s : Shape) (producers : Nat) :
    IsGraph (connect s producers nodes).value.nodes := by
  have hsilent : IsGraph nodes := isGraph_of_silent fun n hn => by
    obtain ⟨k, hk⟩ := List.mem_iff_getElem?.mp hn
    exact h.silent hk
  have hbios : Node.biosName ∈ nodes.map (·.name) := by
    obtain ⟨b, hb, hname⟩ := h.first
    exact hname ▸ List.mem_map_of_mem (List.mem_of_getElem? hb)
  exact hsilent.of_grown (grown_connect s producers nodes) hbios

end Testnet.Peering
