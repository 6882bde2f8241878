import Testnet.Peering.Bridge
import Testnet.Proofs.Peering.Reach

/-!
# What bridges keep apart

The groups of a bridge part the regular nodes, and its links join no node of one group with a node
of the other. So every way between the groups, and every way to the bios node, goes through a
bridge; with the bridges in place there is a way from everywhere to everywhere.
-/

namespace Testnet.Peering

namespace Groups

/-- All positions in the groups. -/
def all (g : Groups) : List Nat := g.one ++ g.two ++ g.bridges

theorem mem_all {g : Groups} {i : Nat} : i ∈ g.all ↔ i ∈ g.one ∨ i ∈ g.two ∨ i ∈ g.bridges := by
  simp [all]

theorem mem_members {g : Groups} {i : Nat} : i ∈ g.members ↔ i ∈ g.one ∨ i ∈ g.two :=
  List.mem_append

/-- A node is put at the end of one group. -/
theorem place_eq_ok {half : List String} {g g' : Groups} {position : Nat} {n : Node}
    (h : g.place half position n = .ok g') :
    g' = { g with one := g.one ++ [position] } ∨ g' = { g with two := g.two ++ [position] } ∨
      g' = { g with bridges := g.bridges ++ [position] } := by
  simp only [place] at h
  split at h
  · cases h
    exact .inr (.inr rfl)
  split at h
  · cases h
  split at h
  · cases h
    exact .inl rfl
  · cases h
    exact .inr (.inl rfl)

theorem all_place {half : List String} {g g' : Groups} {position : Nat} {n : Node}
    (h : g.place half position n = .ok g') : (g.all ++ [position]).Perm g'.all := by
  apply List.perm_iff_count.mpr
  intro i
  rcases place_eq_ok h with rfl | rfl | rfl
  all_goals
    simp only [all, List.count_append]
    omega

end Groups

/-- A node takes its place by its position in a list. -/
def placeAt (nodes : List Node) (half : List String) (g : Groups) (i : Nat) :
    Except Rejection Groups :=
  match nodes[i]? with
  | some n => g.place half i n
  | none => .ok g

theorem all_foldlM_placeAt {nodes : List Node} {half : List String} {positions : List Nat}
    {g g' : Groups} (hpositions : ∀ i ∈ positions, i < nodes.length)
    (h : positions.foldlM (placeAt nodes half) g = .ok g') :
    (g.all ++ positions).Perm g'.all := by
  induction positions generalizing g with
  | nil =>
    cases h
    rw [List.append_nil]
  | cons i rest ih =>
    rw [List.foldlM_cons] at h
    obtain ⟨mid, hmid, hrest⟩ := bind_eq_ok_iff.mp h
    have hi : i < nodes.length := hpositions i (List.mem_cons_self ..)
    rw [placeAt, List.getElem?_eq_getElem hi] at hmid
    have hfirst := Groups.all_place hmid
    have htail := ih (fun j hj => hpositions j (List.mem_cons_of_mem i hj)) hrest
    rw [← List.singleton_append, ← List.append_assoc]
    exact (hfirst.append_right rest).trans htail

/-- A position becomes a bridge exactly if its node owns nothing. -/
theorem mem_bridges_place {half : List String} {g g' : Groups} {position : Nat} {n : Node}
    (h : g.place half position n = .ok g') {i : Nat} :
    i ∈ g'.bridges ↔ i ∈ g.bridges ∨ i = position ∧ owned n = [] := by
  simp only [Groups.place] at h
  split at h
  case isTrue hnone =>
    cases h
    rw [List.isEmpty_iff] at hnone
    simp [hnone]
  case isFalse hsome =>
    rw [List.isEmpty_iff] at hsome
    split at h
    · cases h
    split at h
    · cases h
      simp [hsome]
    · cases h
      simp [hsome]

theorem mem_bridges_foldlM_placeAt {nodes : List Node} {half : List String}
    {positions : List Nat} {g g' : Groups} (h : positions.foldlM (placeAt nodes half) g = .ok g')
    {i : Nat} : i ∈ g'.bridges ↔
      i ∈ g.bridges ∨ i ∈ positions ∧ ∃ n, nodes[i]? = some n ∧ owned n = [] := by
  induction positions generalizing g with
  | nil =>
    cases h
    simp
  | cons position rest ih =>
    rw [List.foldlM_cons] at h
    obtain ⟨mid, hmid, hrest⟩ := bind_eq_ok_iff.mp h
    have hplace : i ∈ mid.bridges ↔
        i ∈ g.bridges ∨ i = position ∧ ∃ n, nodes[i]? = some n ∧ owned n = [] := by
      unfold placeAt at hmid
      split at hmid
      case h_1 n hn =>
        rw [mem_bridges_place hmid]
        refine or_congr_right (and_congr_right fun hi => ?_)
        subst hi
        simp [hn]
      case h_2 hnone =>
        cases hmid
        refine ⟨Or.inl, fun hcase => hcase.elim id ?_⟩
        intro hgiven
        obtain ⟨rfl, n, hn, _⟩ := hgiven
        rw [hnone] at hn
        cases hn
    rw [ih hrest, hplace, List.mem_cons, or_and_right, or_assoc]

/-- The groups are not empty and have every regular position once. -/
theorem classify_eq_ok {nodes : List Node} {producers : Nat} {g : Groups}
    (h : classify nodes producers = .ok g) :
    (regularPositions nodes).Perm g.all ∧ g.one ≠ [] ∧ g.two ≠ [] ∧ g.bridges ≠ [] := by
  obtain ⟨g', hfold, hlast⟩ := bind_eq_ok_iff.mp h
  have hpositions : ∀ i ∈ regularPositions nodes, i < nodes.length := by
    intro i hi
    obtain ⟨n, hn, _⟩ := mem_regularPositions.mp hi
    exact (List.getElem?_eq_some_iff.mp hn).1
  have hall := all_foldlM_placeAt hpositions hfold
  split at hlast
  · cases hlast
  split at hlast
  · cases hlast
  cases hlast
  simp_all [Groups.empty, Groups.all]

/-- The bridges are the regular nodes that own nothing. -/
theorem mem_bridges_iff {nodes : List Node} {producers : Nat} {g : Groups}
    (h : classify nodes producers = .ok g) {i : Nat} :
    i ∈ g.bridges ↔ ∃ n, nodes[i]? = some n ∧ n.isBios = false ∧ owned n = [] := by
  obtain ⟨g', hfold, hlast⟩ := bind_eq_ok_iff.mp h
  have hg : g' = g := by
    split at hlast
    · cases hlast
    split at hlast
    · cases hlast
    exact Except.ok.inj hlast
  have hbridges : i ∈ g'.bridges ↔ i ∈ Groups.empty.bridges ∨
      i ∈ regularPositions nodes ∧ ∃ n, nodes[i]? = some n ∧ owned n = [] :=
    mem_bridges_foldlM_placeAt hfold
  have hnone : i ∉ Groups.empty.bridges := List.not_mem_nil
  rw [← hg, hbridges, mem_regularPositions]
  constructor
  · intro hcase
    obtain ⟨⟨n, hn, hbios⟩, m, hm, howned⟩ := hcase.resolve_left hnone
    rw [hn] at hm
    cases hm
    exact ⟨n, hn, hbios, howned⟩
  · intro hgiven
    obtain ⟨n, hn, hbios, howned⟩ := hgiven
    exact .inr ⟨⟨n, hn, hbios⟩, n, hn, howned⟩

/-- Positions of regular nodes do not depend on peers. -/
theorem regularPositions_congr {nodes nodes' : List Node}
    (h : nodes.map Node.bare = nodes'.map Node.bare) :
    regularPositions nodes = regularPositions nodes' := by
  have hlength := length_of_bare h
  have hany : ∀ i : Nat, nodes[i]?.any (!·.isBios) = nodes'[i]?.any (!·.isBios) := by
    intro i
    have hi := congrArg (fun l => (l[i]?).any (!·.isBios)) h
    simp only [List.getElem?_map, Option.any_map] at hi
    exact hi
  simp only [regularPositions, hlength, hany]

/-- Grouping does not depend on peers. -/
theorem classify_congr {nodes nodes' : List Node} (producers : Nat)
    (h : nodes.map Node.bare = nodes'.map Node.bare) :
    classify nodes producers = classify nodes' producers := by
  have hplace : placeAt nodes = placeAt nodes' := by
    funext half g i
    have hi := congrArg (fun l : List Node => l[i]?) h
    simp only [List.getElem?_map] at hi
    unfold placeAt
    cases hn : nodes[i]? with
    | none =>
      rw [hn, Option.map_none, eq_comm, Option.map_eq_none_iff] at hi
      rw [hi]
    | some n =>
      rw [hn, Option.map_some, eq_comm, Option.map_eq_some_iff] at hi
      obtain ⟨n', hn', hbare⟩ := hi
      rw [hn']
      show g.place half i n.bare = g.place half i n'.bare
      rw [hbare]
  show (List.foldlM (placeAt nodes _) _ _ >>= _) = (List.foldlM (placeAt nodes' _) _ _ >>= _)
  rw [hplace, regularPositions_congr h]

theorem mem_meshLinks {positions : List Nat} {i j : Nat} :
    ⟨i, j⟩ ∈ meshLinks positions ↔ i ∈ positions ∧ j ∈ positions ∧ i ≠ j := by
  simp only [meshLinks, List.mem_flatMap, List.mem_map, List.mem_filter, bne_iff_ne, ne_eq,
    Link.mk.injEq]
  constructor
  · intro hgiven
    obtain ⟨_, hi, _, ⟨hj, hne⟩, rfl, rfl⟩ := hgiven
    exact ⟨hi, hj, fun h => hne h.symm⟩
  · intro hgiven
    obtain ⟨hi, hj, hne⟩ := hgiven
    exact ⟨i, hi, j, ⟨hj, fun h => hne h.symm⟩, rfl, rfl⟩

theorem mem_bridgeLinks {g : Groups} {i j : Nat} :
    ⟨i, j⟩ ∈ bridgeLinks g ↔
      (i ∈ g.one ∧ j ∈ g.one ∧ i ≠ j) ∨ (i ∈ g.two ∧ j ∈ g.two ∧ i ≠ j) ∨
      (i ∈ g.members ∧ j ∈ g.bridges) ∨ (i ∈ g.bridges ∧ j ∈ g.members) := by
  simp only [bridgeLinks, List.mem_append, mem_meshLinks, List.mem_flatMap, List.mem_cons,
    List.not_mem_nil, or_false, Link.mk.injEq, or_assoc]
  refine or_congr_right (or_congr_right ?_)
  constructor
  · intro hcase
    rcases hcase with ⟨m, hm, b, hb, ⟨rfl, rfl⟩ | ⟨rfl, rfl⟩⟩
    · exact .inl ⟨hm, hb⟩
    · exact .inr ⟨hb, hm⟩
  · intro hcase
    rcases hcase with ⟨hm, hb⟩ | ⟨hb, hm⟩
    · exact ⟨i, hm, j, hb, .inl ⟨rfl, rfl⟩⟩
    · exact ⟨j, hm, i, hb, .inr ⟨rfl, rfl⟩⟩

/-- What a bridge promises about a list of nodes and its groups: who lists whom, and what is left
of the ways through the network when the bridges are taken away. -/
structure Isolates (nodes : List Node) (g : Groups) : Prop where
  /-- Every regular node is in exactly one of the groups. -/
  parts : (regularPositions nodes).Perm (g.one ++ g.two ++ g.bridges)
  nonempty : g.one ≠ [] ∧ g.two ≠ [] ∧ g.bridges ≠ []
  /-- Names tell the nodes apart, so a peer is one node. -/
  names : (nodes.map (·.name)).Nodup
  /-- The bios node comes first and dials nobody. -/
  bios : ∃ b, nodes[0]? = some b ∧ b.name = Node.biosName ∧ b.peers = []
  isBios_iff : ∀ i b, nodes[i]? = some b → (b.isBios = true ↔ i = 0)
  apart : ∀ i ∈ g.one, ∀ j ∈ g.two, ¬ Joined nodes i j
  bridged : ∀ i ∈ g.one ++ g.two, ∀ j ∈ g.bridges, Lists nodes i j ∧ Lists nodes j i
  dialBios : ∀ i ∈ regularPositions nodes, Lists nodes i 0 ↔ i ∈ g.bridges
  reach_one : ∀ i ∈ g.one, ∀ j, Reaches nodes (· ∉ g.bridges) i j ↔ j ∈ g.one
  reach_two : ∀ i ∈ g.two, ∀ j, Reaches nodes (· ∉ g.bridges) i j ↔ j ∈ g.two
  reach_bios : ∀ j, Reaches nodes (· ∉ g.bridges) 0 j ↔ j = 0
  connected : ∀ i j, i < nodes.length → j < nodes.length → Reaches nodes (fun _ => True) i j

section Bridged

variable {nodes : List Node} {g : Groups}

/-- The nodes that a bridge leaves behind. -/
def bridged (nodes : List Node) (g : Groups) : List Node := linked nodes (bridgeLinks g) g.bridges

theorem mem_all_iff (h : Unconnected nodes) (hparts : (regularPositions nodes).Perm g.all)
    {i : Nat} : i ∈ g.all ↔ i ≠ 0 ∧ i < nodes.length := by
  rw [← hparts.mem_iff, h.mem_regularPositions]

/-- The bios node is in no group. -/
theorem zero_not_mem (h : Unconnected nodes) (hparts : (regularPositions nodes).Perm g.all) :
    0 ∉ g.one ∧ 0 ∉ g.two ∧ 0 ∉ g.bridges := by
  have hall : 0 ∉ g.all := fun hmem => ((mem_all_iff h hparts).mp hmem).1 rfl
  rwa [Groups.mem_all, not_or, not_or] at hall

/-- No position has two parts. -/
theorem parts_disjoint (hparts : (regularPositions nodes).Perm g.all) {i : Nat} :
    (i ∈ g.one → i ∉ g.two ∧ i ∉ g.bridges) ∧ (i ∈ g.two → i ∉ g.bridges) := by
  have hnodup : (g.one ++ g.two ++ g.bridges).Nodup :=
    hparts.nodup (nodup_regularPositions nodes)
  rw [List.nodup_append, List.nodup_append] at hnodup
  obtain ⟨⟨_, _, htwo⟩, _, hbridges⟩ := hnodup
  refine ⟨fun hi => ⟨fun hj => htwo i hi i hj rfl, fun hj => ?_⟩, fun hi hj => ?_⟩
  · exact hbridges i (List.mem_append_left _ hi) i hj rfl
  · exact hbridges i (List.mem_append_right _ hi) i hj rfl

/-- Who lists whom after bridging, by the groups alone. -/
theorem lists_bridged_iff (h : Unconnected nodes)
    (hparts : (regularPositions nodes).Perm g.all) {i j : Nat} :
    Lists (bridged nodes g) i j ↔
      (i ∈ g.one ∧ j ∈ g.one ∧ i ≠ j) ∨ (i ∈ g.two ∧ j ∈ g.two ∧ i ≠ j) ∨
      (i ∈ g.members ∧ j ∈ g.bridges) ∨ (i ∈ g.bridges ∧ (j ∈ g.members ∨ j = 0)) := by
  have hall : ∀ {k}, k ∈ g.one ∨ k ∈ g.two ∨ k ∈ g.bridges → k ≠ 0 ∧ k < nodes.length :=
    fun hk => (mem_all_iff h hparts).mp (Groups.mem_all.mpr hk)
  have hzero := h.pos
  have hapart : ∀ {k}, k ∈ g.members → k ∉ g.bridges := fun hk =>
    (Groups.mem_members.mp hk).elim (fun hk => ((parts_disjoint hparts).1 hk).2)
      (parts_disjoint hparts).2
  have hmembers : ∀ {k}, k ∈ g.members → k ≠ 0 ∧ k < nodes.length := fun hk =>
    hall ((Groups.mem_members.mp hk).imp_right Or.inl)
  unfold bridged
  rw [lists_linked_iff h, mem_bridgeLinks]
  constructor
  · intro hcase
    rcases hcase with ⟨_, _, _, (hone | htwo | hout | ⟨hi, hj⟩) | ⟨hi, hj⟩⟩
    · exact .inl hone
    · exact .inr (.inl htwo)
    · exact .inr (.inr (.inl hout))
    · exact .inr (.inr (.inr ⟨hi, .inl hj⟩))
    · exact .inr (.inr (.inr ⟨hi, .inr hj⟩))
  · intro hcase
    rcases hcase with ⟨hi, hj, hne⟩ | ⟨hi, hj, hne⟩ | ⟨hi, hj⟩ | ⟨hi, hj | rfl⟩
    · exact ⟨(hall (.inl hi)).2, (hall (.inl hj)).2, hne, .inl (.inl ⟨hi, hj, hne⟩)⟩
    · exact ⟨(hall (.inr (.inl hi))).2, (hall (.inr (.inl hj))).2, hne,
        .inl (.inr (.inl ⟨hi, hj, hne⟩))⟩
    · refine ⟨(hmembers hi).2, (hall (.inr (.inr hj))).2, ?_, .inl (.inr (.inr (.inl ⟨hi, hj⟩)))⟩
      rintro rfl
      exact hapart hi hj
    · refine ⟨(hall (.inr (.inr hi))).2, (hmembers hj).2, ?_, .inl (.inr (.inr (.inr ⟨hi, hj⟩)))⟩
      rintro rfl
      exact hapart hj hi
    · exact ⟨(hall (.inr (.inr hi))).2, hzero, (hall (.inr (.inr hi))).1, .inr ⟨hi, rfl⟩⟩

/-- A set of kept positions that are joined with each other and with no other kept position is
what a way from any of them covers. -/
theorem reaches_iff_of_island {kept : Nat → Prop} {island : List Nat}
    (hkept : ∀ i ∈ island, kept i)
    (hjoined : ∀ i ∈ island, ∀ j, kept j → (Joined nodes i j ↔ j ∈ island ∧ i ≠ j))
    {i : Nat} (hi : i ∈ island) (j : Nat) : Reaches nodes kept i j ↔ j ∈ island := by
  constructor
  · intro h
    exact h.mem_of_closed (fun a b ha hb hab => ((hjoined a ha b hb).mp hab).1) hi
  · intro hj
    by_cases hij : i = j
    · rw [hij]
      exact .here (hkept j hj)
    · exact .of_joined (hkept i hi) (hkept j hj) ((hjoined i hi j (hkept j hj)).mpr ⟨hj, hij⟩)

theorem joined_one_iff (h : Unconnected nodes) (hparts : (regularPositions nodes).Perm g.all)
    {i j : Nat} (hi : i ∈ g.one) (hj : j ∉ g.bridges) :
    Joined (bridged nodes g) i j ↔ j ∈ g.one ∧ i ≠ j := by
  have hdi := @parts_disjoint nodes g hparts i
  have hdj := @parts_disjoint nodes g hparts j
  have hzero := (mem_all_iff h hparts).mp (Groups.mem_all.mpr (.inl hi))
  simp only [Joined, lists_bridged_iff h hparts, Groups.mem_members]
  grind

theorem joined_two_iff (h : Unconnected nodes) (hparts : (regularPositions nodes).Perm g.all)
    {i j : Nat} (hi : i ∈ g.two) (hj : j ∉ g.bridges) :
    Joined (bridged nodes g) i j ↔ j ∈ g.two ∧ i ≠ j := by
  have hdi := @parts_disjoint nodes g hparts i
  have hdj := @parts_disjoint nodes g hparts j
  have hzero := (mem_all_iff h hparts).mp (Groups.mem_all.mpr (.inr (.inl hi)))
  simp only [Joined, lists_bridged_iff h hparts, Groups.mem_members]
  grind

/-- The bios node is joined with bridges only. -/
theorem joined_bios_iff (h : Unconnected nodes) (hparts : (regularPositions nodes).Perm g.all)
    {j : Nat} : Joined (bridged nodes g) 0 j ↔ j ∈ g.bridges := by
  have hzero := zero_not_mem h hparts
  simp only [Joined, lists_bridged_iff h hparts, Groups.mem_members]
  grind

/-- As long as the bios node and some bridge are kept, everything kept reaches that bridge. -/
theorem reaches_bridge (h : Unconnected nodes) (hparts : (regularPositions nodes).Perm g.all)
    {kept : Nat → Prop} (hbios : kept 0) {b : Nat} (hb : b ∈ g.bridges) (hkept : kept b) {i : Nat}
    (hi : i < nodes.length) (hikept : kept i) : Reaches (bridged nodes g) kept i b := by
  have hmember : i ∈ g.members → Reaches (bridged nodes g) kept i b := fun hmem =>
    .of_joined hikept hkept (.inl ((lists_bridged_iff h hparts).mpr (.inr (.inr (.inl ⟨hmem, hb⟩)))))
  by_cases hzero : i = 0
  · subst hzero
    exact .of_joined hbios hkept ((joined_bios_iff h hparts).mpr hb)
  obtain hone | htwo | hbridge :=
    Groups.mem_all.mp ((mem_all_iff h hparts).mpr ⟨hzero, hi⟩)
  · exact hmember (Groups.mem_members.mpr (.inl hone))
  · exact hmember (Groups.mem_members.mpr (.inr htwo))
  · -- One bridge reaches another through the bios node.
    have hdown : Joined (bridged nodes g) i 0 := ((joined_bios_iff h hparts).mpr hbridge).symm
    exact (Reaches.of_joined hikept hbios hdown).step hkept ((joined_bios_iff h hparts).mpr hb)

/-- Bridging leaves the bios node without peers. -/
theorem exists_bios_bridged (h : Unconnected nodes) (hparts : (regularPositions nodes).Perm g.all) :
    ∃ b, (bridged nodes g)[0]? = some b ∧ b.name = Node.biosName ∧ b.peers = [] := by
  obtain ⟨hone, htwo, hbridges⟩ := zero_not_mem h hparts
  obtain ⟨b, hb, hname⟩ := h.first
  refine ⟨_, (getElem?_linked 0).trans (congrArg _ hb), (Node.name_addPeers b _).trans hname, ?_⟩
  apply List.eq_nil_iff_forall_not_mem.mpr
  intro x hx
  rw [Node.mem_peers_addPeers, h.silent hb, List.mem_append, mem_dialled, mem_biosDialled] at hx
  rcases hx with hx | ⟨⟨j, t, hl, _⟩ | ⟨_, hs, _⟩, _⟩
  · cases hx
  · rw [mem_bridgeLinks, Groups.mem_members] at hl
    rcases hl with ⟨hi, _⟩ | ⟨hi, _⟩ | ⟨hi | hi, _⟩ | ⟨hi, _⟩
    · exact hone hi
    · exact htwo hi
    · exact hone hi
    · exact htwo hi
    · exact hbridges hi
  · exact hbridges hs

/-- Bridging isolates the groups of any list of nodes without peers. -/
theorem isolates_bridged (h : Unconnected nodes) {producers : Nat}
    (hg : classify nodes producers = .ok g) : Isolates (bridged nodes g) g := by
  obtain ⟨hparts, hone, htwo, hbridges⟩ := classify_eq_ok hg
  have hbare : (bridged nodes g).map Node.bare = nodes.map Node.bare := bare_linked
  obtain ⟨hone₀, htwo₀, hbridges₀⟩ := zero_not_mem h hparts
  constructor
  case parts =>
    rw [regularPositions_congr hbare]
    exact hparts
  case nonempty => exact ⟨hone, htwo, hbridges⟩
  case names => exact names_of_bare hbare ▸ h.nodup_names
  case bios => exact exists_bios_bridged h hparts
  case isBios_iff =>
    intro i b hb
    rw [bridged, getElem?_linked, Option.map_eq_some_iff] at hb
    obtain ⟨a, ha, rfl⟩ := hb
    rw [Node.isBios_addPeers]
    exact h.bios ha
  case apart =>
    intro i hi j hj hjoined
    have hj' := ((joined_one_iff h hparts hi ((parts_disjoint hparts).2 hj)).mp hjoined).1
    exact ((parts_disjoint hparts).1 hj').1 hj
  case bridged =>
    intro i hi j hj
    rw [lists_bridged_iff h hparts, lists_bridged_iff h hparts]
    exact ⟨.inr (.inr (.inl ⟨hi, hj⟩)), .inr (.inr (.inr ⟨hj, .inl hi⟩))⟩
  case dialBios =>
    intro i hi
    rw [lists_bridged_iff h hparts]
    simp [hone₀, htwo₀, hbridges₀]
  case reach_one =>
    intro i hi
    exact reaches_iff_of_island (fun k hk => ((parts_disjoint hparts).1 hk).2)
      (fun k hk j hj => joined_one_iff h hparts hk hj) hi
  case reach_two =>
    intro i hi
    exact reaches_iff_of_island (fun k hk => (parts_disjoint hparts).2 hk)
      (fun k hk j hj => joined_two_iff h hparts hk hj) hi
  case reach_bios =>
    intro j
    rw [← List.mem_singleton]
    refine reaches_iff_of_island (fun k hk => ?_) (fun k hk j hj => ?_)
      (List.mem_singleton_self 0) j
    · rw [List.mem_singleton.mp hk]
      exact hbridges₀
    · rw [List.mem_singleton.mp hk, joined_bios_iff h hparts, List.mem_singleton]
      exact ⟨fun hk' => absurd hk' hj, fun ⟨hj0, hne⟩ => absurd hj0.symm hne⟩
  case connected =>
    intro i j hi hj
    rw [bridged, length_linked] at hi hj
    obtain ⟨b, hb⟩ := List.exists_mem_of_ne_nil _ hbridges
    have hall : ∀ k, k < nodes.length → Reaches (bridged nodes g) (fun _ => True) k b :=
      fun k hk => reaches_bridge h hparts trivial hb trivial hk trivial
    exact (hall i hi).trans (hall j hj).symm

end Bridged

end Testnet.Peering
