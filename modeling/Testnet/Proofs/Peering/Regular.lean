import Testnet.Proofs.Peering.Connect

/-!
# Regular nodes by themselves

Whether the regular nodes are connected without the bios node. Dialling the bios node does not
matter for it, and links that contain a line are enough.
-/

namespace Testnet

/-- The peers of a node other than the bios node. -/
def Node.regularPeers (n : Node) : List String := n.peers.filter (· != biosName)

theorem Node.regularPeers_eq {n : Node} {first last : List String}
    (hpeers : n.peers = first ++ last) (hfirst : biosName ∉ first)
    (hlast : ∀ peer ∈ last, peer = biosName) : n.regularPeers = first := by
  have hkept : first.filter (· != biosName) = first := by
    apply List.filter_eq_self.mpr
    intro peer hpeer
    exact bne_iff_ne.mpr fun heq => hfirst (heq ▸ hpeer)
  have hnone : last.filter (· != biosName) = [] := by
    apply List.filter_eq_nil_iff.mpr
    intro peer hpeer
    rw [hlast peer hpeer, bne_self_eq_false]
    exact Bool.false_ne_true
  rw [regularPeers, hpeers, List.filter_append, hkept, hnone, List.append_nil]

namespace Peering

variable {nodes ns : List Node} {sources : List Nat} {i j : Nat}

/-- All nodes but the bios node. -/
def regularNodes (nodes : List Node) : List Node := nodes.filter (!·.isBios)

/-- The regular nodes are those at their positions. -/
theorem map_regularPositions (nodes : List Node) :
    (regularPositions nodes).map (nodes[·]?) = (regularNodes nodes).map some := by
  have hall : (List.range nodes.length).map (nodes[·]?) = nodes.map some := by
    apply List.ext_getElem
    · simp
    · intro k hk _
      simp only [List.length_map, List.length_range] at hk
      simp [hk]
  have hfilter := congrArg (List.filter (Option.any (!·.isBios))) hall
  rw [List.filter_map, List.filter_map] at hfilter
  exact hfilter

theorem mem_regularNodes {a : Node} :
    a ∈ regularNodes nodes ↔ ∃ p ∈ regularPositions nodes, nodes[p]? = some a := by
  have hmem : some a ∈ (regularNodes nodes).map some ↔ a ∈ regularNodes nodes := by simp
  rw [← hmem, ← map_regularPositions, List.mem_map]

theorem length_regularPositions (nodes : List Node) :
    (regularPositions nodes).length = (regularNodes nodes).length := by
  have hlength := congrArg List.length (map_regularPositions nodes)
  rwa [List.length_map, List.length_map] at hlength

/-- The positions of the regular nodes are those after the first. -/
theorem Unconnected.regularPositions_eq (h : Unconnected nodes) :
    regularPositions nodes = List.range' 1 (nodes.length - 1) := by
  have hsorted : (regularPositions nodes).Pairwise (· < ·) := List.pairwise_lt_range.filter _
  have hsame : (regularPositions nodes).Perm (List.range' 1 (nodes.length - 1)) := by
    refine (List.perm_ext_iff_of_nodup (nodup_regularPositions nodes) List.nodup_range').mpr ?_
    intro k
    rw [h.mem_regularPositions, List.mem_range'_1]
    have hpos := h.pos
    omega
  exact hsame.eq_of_pairwise (fun a b _ _ hab hba => absurd hab (Nat.lt_asymm hba)) hsorted
    List.pairwise_lt_range'

/-- A position stands once. -/
theorem filter_beq_of_nodup {positions : List Nat} (h : positions.Nodup) (p : Nat) :
    positions.filter (· == p) = if p ∈ positions then [p] else [] := by
  rw [List.filter_beq, h.count]
  split <;> rfl

theorem flatMap_ite {α : Type} (positions : List Nat) (p : Nat) (g : Nat → List α) :
    (positions.flatMap fun k => if k == p then g k else []) =
      (positions.filter (· == p)).flatMap g := by
  induction positions with
  | nil => rfl
  | cons k rest ih =>
    rw [List.flatMap_cons, List.filter_cons, ih]
    split <;> rfl

/-- There is a way between any two regular nodes that does not need the bios node. -/
def RegularConnected (nodes : List Node) : Prop :=
  ∀ i j, i ≠ 0 → i < nodes.length → j ≠ 0 → j < nodes.length → Reaches nodes (· ≠ 0) i j

/-- Whether the regular nodes are connected does not depend on who dials the bios node. -/
theorem regularConnected_dialBios_iff (h : Unconnected nodes)
    (hns : ns.map Node.bare = nodes.map Node.bare) :
    RegularConnected (dialBios ns sources) ↔ RegularConnected ns := by
  have hjoined : ∀ a b, a ≠ 0 → b ≠ 0 → (Joined (dialBios ns sources) a b ↔ Joined ns a b) := by
    intro a b ha hb
    simp only [Joined, h.lists_dialBios_iff hns, ha, hb, and_false, or_false]
  have hlength := length_of_bare (bare_dialBios ns sources)
  unfold RegularConnected
  rw [hlength]
  refine forall₂_congr fun i j => ?_
  refine forall₄_congr fun _ _ _ _ => ⟨?_, ?_⟩
  · exact Reaches.imp fun a b ha hb => (hjoined a b ha hb).mp
  · exact Reaches.imp fun a b ha hb => (hjoined a b ha hb).mpr

/-- A line links each position to the one after it. -/
theorem mem_lineLinks {positions : List Nat} : ⟨i, j⟩ ∈ lineLinks positions ↔
    ∃ k : Nat, positions[k]? = some i ∧ positions[k + 1]? = some j := by
  rw [List.mem_iff_getElem?]
  refine exists_congr fun k => ?_
  rw [lineLinks, List.getElem?_zipWith_eq_some]
  simp only [List.getElem?_tail, Link.mk.injEq]
  constructor
  · intro hgiven
    obtain ⟨_, _, hi, hj, rfl, rfl⟩ := hgiven
    exact ⟨hi, hj⟩
  · intro hgiven
    obtain ⟨hi, hj⟩ := hgiven
    exact ⟨i, j, hi, hj, rfl, rfl⟩

/-- Links that contain a line connect the regular nodes. -/
theorem regularConnected_of_line (h : Unconnected nodes) {links : List Link}
    (hlinks : lineLinks (regularPositions nodes) ⊆ links) :
    RegularConnected (dialAll nodes links).value := by
  have hnext : ∀ k, k ≠ 0 → k + 1 < nodes.length →
      Joined (dialAll nodes links).value k (k + 1) := by
    intro k hk hlt
    have hlink : ⟨k, k + 1⟩ ∈ links := by
      refine hlinks (mem_lineLinks.mpr ⟨k - 1, ?_⟩)
      rw [h.regularPositions_eq, List.getElem?_range' (by omega), List.getElem?_range' (by omega)]
      simp only [Option.some.injEq]
      omega
    exact .inl ((lists_dialAll_iff h.distinct).mpr (.inr ⟨by omega, by omega, hlt, hlink⟩))
  have hfirst : ∀ k, k ≠ 0 → k < nodes.length →
      Reaches (dialAll nodes links).value (· ≠ 0) 1 k := by
    intro k hk hlt
    induction k with
    | zero => exact absurd rfl hk
    | succ k ih =>
      by_cases hzero : k = 0
      · subst hzero
        exact .here hk
      · exact (ih hzero (by omega)).step hk (hnext k hzero hlt)
  intro i j hi hilt hj hjlt
  rw [length_of_bare (bare_dialAll nodes links)] at hilt hjlt
  exact (hfirst i hi hilt).symm.trans (hfirst j hj hjlt)

theorem lineLinks_subset_meshLinks {positions : List Nat} (h : positions.Nodup) :
    lineLinks positions ⊆ meshLinks positions := by
  intro l hl
  obtain ⟨k, hsource, htarget⟩ := mem_lineLinks.mp hl
  have hne : l.source ≠ l.target := by
    intro heq
    rw [heq, ← htarget] at hsource
    have hk := (List.getElem?_eq_some_iff.mp htarget).1
    have hsame := (List.getElem?_inj (by omega) h).mp hsource
    omega
  exact mem_meshLinks.mpr ⟨List.mem_of_getElem? hsource, List.mem_of_getElem? htarget, hne⟩

end Peering

end Testnet
