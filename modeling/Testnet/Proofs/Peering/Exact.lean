import Mathlib.Data.List.Rotate
import Testnet.Proofs.Generated
import Testnet.Proofs.Identity
import Testnet.Proofs.Peering.Regular

/-!
# Lines, rings and meshes exactly

Which peers these shapes give to the nodes of a factory, and in which order. Seen from a regular
node it is a matter of ordinals alone, and what the shapes are named for is read off that.
-/

namespace Testnet.Peering

/-- Ordinals of the regular nodes that number `i` of `n` is to dial, in order. -/
def ahead (s : Shape) (n i : Nat) : List Nat :=
  match s with
  | .line => if i + 1 < n then [i + 1] else []
  | .ring => if 2 ≤ n then [(i + 1) % n] else []
  | .mesh => (List.range n).filter (· != i)
  | _ => []

/-- The peers of the node at a position when `n` regular nodes follow the bios node. -/
def drawnPeers (s : Shape) (n : Nat) : Nat → List String
  | 0 => []
  | i + 1 => (ahead s n i).map Node.regularName ++ [Node.biosName]

/-- The links of a shape in which they do not depend on the peers there are. -/
def fixedLinks (s : Shape) (positions : List Nat) : List Link :=
  match s with
  | .line => lineLinks positions
  | .ring => ringLinks positions
  | .mesh => meshLinks positions
  | _ => []

/-- Where the links from a position lead. -/
def targets (links : List Link) (p : Nat) : List Nat :=
  (links.filter (·.source == p)).map (·.target)

theorem targets_append (first second : List Link) (p : Nat) :
    targets (first ++ second) p = targets first p ++ targets second p := by
  simp only [targets, List.filter_append, List.map_append]

theorem dialled_eq (nodes : List Node) (links : List Link) (p : Nat) :
    dialled nodes links p = (targets links p).filterMap fun j => nodes[j]?.map (·.name) := by
  rw [targets, List.filterMap_map, List.filterMap_filter]
  simp only [dialled, beq_iff_eq, Function.comp_apply]

theorem lineLinks_range' (s n : Nat) :
    lineLinks (List.range' s n) = (List.range' s (n - 1)).map fun k => ⟨k, k + 1⟩ := by
  apply List.ext_getElem
  · simp [lineLinks]
  · intro k _ _
    simp [lineLinks]
    omega

theorem ringLinks_range' (n : Nat) : ringLinks (List.range' 1 n) =
    lineLinks (List.range' 1 n) ++ if 2 ≤ n then [⟨n, 1⟩] else [] := by
  match n with
  | 0 => rfl
  | 1 => rfl
  | n + 2 =>
    have hlast : ∀ h, (List.range' 2 (n + 1)).getLast h = n + 2 := by
      intro h
      rw [List.getLast_range']
      omega
    have hclosed : ringLinks (List.range' 1 (n + 2)) = lineLinks (List.range' 1 (n + 2)) ++
        [⟨(List.range' 2 (n + 1)).getLast (by simp), 1⟩] := rfl
    rw [hclosed, hlast, if_pos (Nat.le_add_left 2 n)]

theorem targets_lineLinks (n p : Nat) : targets (lineLinks (List.range' 1 n)) p =
    if 0 < p ∧ p < n then [p + 1] else [] := by
  rw [targets, lineLinks_range', List.filter_map, List.map_map]
  show ((List.range' 1 (n - 1)).filter (· == p)).map _ = _
  rw [filter_beq_of_nodup List.nodup_range']
  have hiff : p ∈ List.range' 1 (n - 1) ↔ 0 < p ∧ p < n := by
    rw [List.mem_range'_1]
    omega
  by_cases h : 0 < p ∧ p < n
  · rw [if_pos (hiff.mpr h), if_pos h]
    rfl
  · rw [if_neg (mt hiff.mp h), if_neg h]
    rfl

theorem targets_meshLinks {positions : List Nat} (h : positions.Nodup) (p : Nat) :
    targets (meshLinks positions) p =
      if p ∈ positions then positions.filter (· != p) else [] := by
  have hone : ∀ k : Nat, targets ((positions.filter (· != k)).map fun t => ⟨k, t⟩) p =
      if k == p then positions.filter (· != k) else [] := by
    intro k
    rw [targets, List.filter_map, List.map_map]
    cases hk : k == p <;> simp [Function.comp_def, hk]
  have hall : targets (meshLinks positions) p =
      positions.flatMap fun k => if k == p then positions.filter (· != k) else [] := by
    simp only [← hone, targets, meshLinks, List.filter_flatMap, List.map_flatMap]
  rw [hall, flatMap_ite, filter_beq_of_nodup h]
  split
  · exact List.flatMap_singleton _ p
  · rfl

/-- Ordinals are positions after that of the bios node. -/
theorem filter_range'_one (n i : Nat) : (List.range' 1 n).filter (· != i + 1) =
    ((List.range n).filter (· != i)).map (· + 1) := by
  have hshift : List.range' 1 n = (List.range n).map (· + 1) := by
    rw [List.range'_eq_map_range]
    exact List.map_congr_left fun k _ => Nat.add_comm 1 k
  have hne : ∀ k, (k + 1 != i + 1) = (k != i) := fun k => by simp [bne]
  rw [hshift, List.filter_map]
  exact congrArg _ (List.filter_congr fun k _ => hne k)

theorem targets_fixedLinks (s : Shape) {n i : Nat} (hi : i < n) :
    targets (fixedLinks s (List.range' 1 n)) (i + 1) = (ahead s n i).map (· + 1) := by
  cases s with
  | line =>
    show targets (lineLinks (List.range' 1 n)) (i + 1) = (if i + 1 < n then [i + 1] else []).map _
    rw [targets_lineLinks]
    by_cases h : i + 1 < n
    · rw [if_pos ⟨Nat.succ_pos i, h⟩, if_pos h]
      rfl
    · rw [if_neg fun hboth => h hboth.2, if_neg h]
      rfl
  | ring =>
    show targets (ringLinks (List.range' 1 n)) (i + 1) =
      (if 2 ≤ n then [(i + 1) % n] else []).map _
    rw [ringLinks_range', targets_append, targets_lineLinks]
    by_cases hn : 2 ≤ n
    · by_cases h : i + 1 < n
      · simp [targets, hn, h, Nat.mod_eq_of_lt h, (Nat.ne_of_lt h).symm]
      · obtain rfl : n = i + 1 := by omega
        simp [targets, hn]
    · obtain rfl : n = 1 := by omega
      simp [targets, hn]
  | mesh =>
    have hmem : i + 1 ∈ List.range' 1 n := List.mem_range'_1.mpr (by omega)
    show targets (meshLinks (List.range' 1 n)) (i + 1) = ((List.range n).filter (· != i)).map _
    rw [targets_meshLinks List.nodup_range', if_pos hmem, filter_range'_one]
  | _ => rfl

theorem targets_fixedLinks_zero (s : Shape) (n : Nat) :
    targets (fixedLinks s (List.range' 1 n)) 0 = [] := by
  cases s with
  | line =>
    show targets (lineLinks (List.range' 1 n)) 0 = []
    rw [targets_lineLinks, if_neg (by omega)]
  | ring =>
    show targets (ringLinks (List.range' 1 n)) 0 = []
    rw [ringLinks_range', targets_append, targets_lineLinks]
    by_cases hn : 2 ≤ n
    · have hne : n ≠ 0 := by omega
      simp [targets, hn, hne]
    · simp [targets, hn]
  | mesh =>
    show targets (meshLinks (List.range' 1 n)) 0 = []
    rw [targets_meshLinks List.nodup_range', if_neg (by simp)]
  | _ => rfl

/-- A node dials others of the `n` only. -/
theorem mem_ahead {s : Shape} {n i j : Nat} (hi : i < n) (h : j ∈ ahead s n i) : j < n ∧ j ≠ i := by
  cases s with
  | line =>
    simp only [ahead] at h
    split at h
    · rw [List.mem_singleton.mp h]
      omega
    · cases h
  | ring =>
    simp only [ahead] at h
    split at h
    · rw [List.mem_singleton.mp h]
      by_cases hlast : i + 1 < n
      · rw [Nat.mod_eq_of_lt hlast]
        omega
      · obtain rfl : n = i + 1 := by omega
        rw [Nat.mod_self]
        omega
    · cases h
  | mesh => simpa [ahead] using h
  | _ => cases h

theorem nodup_ahead (s : Shape) (n i : Nat) : (ahead s n i).Nodup := by
  cases s with
  | line =>
    simp only [ahead]
    split <;> simp
  | ring =>
    simp only [ahead]
    split <;> simp
  | mesh => exact List.nodup_range.filter _
  | _ => exact List.nodup_nil

section Drawn

variable {f : Factory} {a : Allocator} {s : Shape} {n i : Nat}

/-- The node at a position with the peers of a shape. -/
def drawnAt (f : Factory) (a : Allocator) (s : Shape) (n p : Nat) : Node :=
  { f.nodeAt a p with peers := drawnPeers s n p }

def drawn (f : Factory) (a : Allocator) (s : Shape) (n : Nat) : List Node :=
  (List.range (n + 1)).map (drawnAt f a s n)

theorem connect_eq_linked (hs : s ∈ [Shape.line, .ring, .mesh]) (producers : Nat)
    (nodes : List Node) : (connect s producers nodes).value =
      ⟨linked nodes (fixedLinks s (regularPositions nodes)) (regularPositions nodes), .ok ()⟩ := by
  simp only [List.mem_cons, List.not_mem_nil, or_false] at hs
  rcases hs with rfl | rfl | rfl <;> exact connect_of_dialsBios rfl producers nodes

/-- What the node at a position is given to dial. -/
theorem given_made {p : Nat} (hp : p < n + 1) :
    dialled (f.made a (n + 1)) (fixedLinks s (List.range' 1 n)) p ++
      (if p ∈ List.range' 1 n then [Node.biosName] else []) = drawnPeers s n p := by
  cases p with
  | zero =>
    rw [dialled_eq, targets_fixedLinks_zero]
    simp [drawnPeers]
  | succ i =>
    have hi : i < n := Nat.lt_of_succ_lt_succ hp
    have hmem : i + 1 ∈ List.range' 1 n := List.mem_range'_1.mpr (by omega)
    have hnames : dialled (f.made a (n + 1)) (fixedLinks s (List.range' 1 n)) (i + 1) =
        (ahead s n i).map Node.regularName := by
      rw [dialled_eq, targets_fixedLinks s hi, List.filterMap_map, ← List.filterMap_eq_map]
      apply List.filterMap_congr
      intro j hj
      have hlt := (mem_ahead hi hj).1
      simp only [Function.comp_apply, Factory.getElem?_made, if_pos (Nat.succ_lt_succ hlt)]
      rfl
    rw [hnames, if_pos hmem]
    rfl

theorem nodup_drawnPeers (s : Shape) (n p : Nat) : (drawnPeers s n p).Nodup := by
  cases p with
  | zero => exact List.nodup_nil
  | succ i =>
    have hregular : ((ahead s n i).map Node.regularName).Nodup :=
      (nodup_ahead s n i).map fun _ _ => Node.regularName_injective
    have hlonger := hregular.concat (Node.biosName_notMem_map _)
    rwa [List.concat_eq_append] at hlonger

theorem name_notMem_drawnPeers {p : Nat} (hp : p < n + 1) :
    (f.nodeAt a p).name ∉ drawnPeers s n p := by
  cases p with
  | zero => exact List.not_mem_nil
  | succ i =>
    intro h
    rcases List.mem_append.mp h with h | h
    · obtain ⟨j, hj, hname⟩ := List.mem_map.mp h
      exact (mem_ahead (Nat.lt_of_succ_lt_succ hp) hj).2 (Node.regularName_injective hname)
    · exact Node.regularName_ne_biosName i (List.mem_singleton.mp h)

theorem addPeers_drawnPeers {p : Nat} (hp : p < n + 1) :
    (f.nodeAt a p).addPeers (drawnPeers s n p) = drawnAt f a s n p := by
  have hnew : ((f.nodeAt a p).peers ++ drawnPeers s n p).Nodup := by
    rw [Factory.peers_nodeAt]
    exact nodup_drawnPeers s n p
  have hadded := Node.addPeers_of_new (name_notMem_drawnPeers hp) hnew
  rwa [Factory.peers_nodeAt] at hadded

/-- Connecting draws the shape. -/
theorem connect_made (hs : s ∈ [Shape.line, .ring, .mesh]) (hroom : a.Room n) (producers : Nat) :
    (connect s producers (f.made a (n + 1))).value = ⟨drawn f a s n, .ok ()⟩ := by
  have hfresh : Unconnected (f.made a (n + 1)) := Factory.unconnected_made n.succ_pos hroom
  have hpositions : regularPositions (f.made a (n + 1)) = List.range' 1 n := by
    rw [hfresh.regularPositions_eq, Factory.length_made, Nat.add_sub_cancel]
  have hbios : (dialAll (f.made a (n + 1)) (fixedLinks s (List.range' 1 n))).value.any Node.isBios
      = true := (any_isBios_congr (bare_dialAll _ _)).trans hfresh.any_isBios
  rw [connect_eq_linked hs, hpositions]
  refine congrArg (Change.mk · _) (List.ext_getElem? fun p => ?_)
  rw [getElem?_linked, Factory.getElem?_made, drawn, List.getElem?_map, biosDialled, if_pos hbios,
    filter_beq_of_nodup List.nodup_range']
  by_cases hp : p < n + 1
  · rw [if_pos hp, List.getElem?_range hp, Option.map_some, Option.map_some,
      ← addPeers_drawnPeers hp, ← given_made hp]
    split <;> rfl
  · rw [if_neg hp, List.getElem?_eq_none (by rw [List.length_range]; omega)]
    rfl

theorem name_drawn : (drawn f a s n).map (·.name) =
    Node.biosName :: (List.range n).map Node.regularName := by
  rw [drawn, List.map_map, List.range_succ_eq_map, List.map_cons, List.map_map]
  rfl

/-- The regular nodes of a shape. -/
theorem regularNodes_drawn (hroom : a.Room n) : regularNodes (drawn f a s n) =
    (List.range n).map fun i => drawnAt f a s n (i + 1) := by
  have hlimit : Counter.portLimit = 65536 := rfl
  have hports := hroom.lt_portLimit
  rw [regularNodes, drawn, List.range_succ_eq_map, List.map_cons, List.map_map]
  show ((List.range n).map _).filter _ = _
  apply List.filter_eq_self.mpr
  intro m hm
  obtain ⟨i, hi, rfl⟩ := List.mem_map.mp hm
  have hlt := List.mem_range.mp hi
  show (!(f.nodeAt a (i + 1)).isBios) = true
  rw [Factory.isBios_nodeAt (by omega)]
  rfl

/-- The peers of a regular node but the bios node are those ahead. -/
theorem regularPeers_drawnAt :
    (drawnAt f a s n (i + 1)).regularPeers = (ahead s n i).map Node.regularName :=
  Node.regularPeers_eq rfl (Node.biosName_notMem_map _) fun _ => List.mem_singleton.mp

end Drawn

/-- The pairs of regular nodes of which the first lists the second. -/
def regularEdges (nodes : List Node) : List (String × String) :=
  (regularNodes nodes).flatMap fun n => n.regularPeers.map fun peer => (n.name, peer)

/-- The name that the node of a name has first among its peers. -/
def firstPeer? (nodes : List Node) (name : String) : Option String :=
  (nodes.find? (·.name == name)).bind (·.peers.head?)

/-- The names that following first peers leads through, the start in front. -/
def tour (nodes : List Node) : Nat → String → List String
  | 0, name => [name]
  | steps + 1, name =>
    name ::
      match firstPeer? nodes name with
      | some next => tour nodes steps next
      | none => []

section Drawn

variable {f : Factory} {a : Allocator} {s : Shape} {n i : Nat}

theorem regularEdges_drawn (hroom : a.Room n) : regularEdges (drawn f a s n) =
    (List.range n).flatMap fun i =>
      (ahead s n i).map fun j => (Node.regularName i, Node.regularName j) := by
  rw [regularEdges, regularNodes_drawn hroom, List.flatMap_map]
  apply List.flatMap_congr
  intro i _
  rw [regularPeers_drawnAt, List.map_map]
  rfl

theorem firstPeer?_drawn_ring (hn : 2 ≤ n) (hi : i < n) :
    firstPeer? (drawn f a .ring n) (Node.regularName i) =
      some (Node.regularName ((i + 1) % n)) := by
  have hnames : ((drawn f a .ring n).map (·.name)).Nodup := by
    rw [name_drawn]
    exact List.nodup_cons.mpr ⟨Node.biosName_notMem_map _,
      List.nodup_range.map fun _ _ => Node.regularName_injective⟩
  have hmem : drawnAt f a .ring n (i + 1) ∈ drawn f a .ring n :=
    List.mem_map.mpr ⟨i + 1, List.mem_range.mpr (Nat.succ_lt_succ hi), rfl⟩
  have hfound : (drawn f a .ring n).find? (·.name == Node.regularName i) =
      some (drawnAt f a .ring n (i + 1)) := find?_of_nodup hnames hmem
  rw [firstPeer?, hfound]
  show (drawnPeers .ring n (i + 1)).head? = _
  simp [drawnPeers, ahead, hn]

/-- Each step leads to the next ordinal, around the ring. -/
theorem tour_drawn_ring (hn : 2 ≤ n) (hi : i < n) (steps : Nat) :
    tour (drawn f a .ring n) steps (Node.regularName i) =
      (List.range (steps + 1)).map fun k => Node.regularName ((i + k) % n) := by
  induction steps generalizing i with
  | zero => simp [tour, Nat.mod_eq_of_lt hi]
  | succ steps ih =>
    have hnext : (i + 1) % n < n := Nat.mod_lt _ (by omega)
    rw [tour, firstPeer?_drawn_ring hn hi]
    dsimp only
    rw [ih hnext, List.range_succ_eq_map (n := steps + 1), List.map_cons, List.map_map]
    refine List.cons_eq_cons.mpr ⟨?_, List.map_congr_left fun k _ => ?_⟩
    · rw [Nat.add_zero, Nat.mod_eq_of_lt hi]
    · simp only [Function.comp_apply, Nat.mod_add_mod, Nat.add_assoc, Nat.add_comm 1 k]

/-- Going once around from any ordinal meets each. -/
theorem perm_around (n i : Nat) :
    ((List.range n).map fun k => (i + k) % n).Perm (List.range n) := by
  have hrotated : ((List.range n).map fun k => (i + k) % n) = (List.range n).rotate i := by
    apply List.ext_getElem
    · simp
    · intro k _ _
      simp [List.getElem_rotate, Nat.add_comm]
  rw [hrotated]
  exact List.rotate_perm _ i

theorem tour_ring (hn : 2 ≤ n) (hi : i < n) : ∃ round,
    tour (drawn f a .ring n) n (Node.regularName i) = round ++ [Node.regularName i] ∧
    round.Perm ((List.range n).map Node.regularName) := by
  refine ⟨((List.range n).map fun k => (i + k) % n).map Node.regularName, ?_,
    (perm_around n i).map _⟩
  rw [tour_drawn_ring hn hi, List.range_succ, List.map_append, List.map_map]
  simp [Nat.mod_eq_of_lt hi]

theorem regularEdges_line (hroom : a.Room n) : regularEdges (drawn f a .line n) =
    (List.range (n - 1)).map fun i => (Node.regularName i, Node.regularName (i + 1)) := by
  rw [regularEdges_drawn hroom]
  cases n with
  | zero => rfl
  | succ n =>
    have hlast : ahead .line (n + 1) n = [] := if_neg (by omega)
    rw [List.range_succ, List.flatMap_append, List.flatMap_singleton, hlast, List.map_nil,
      List.append_nil, List.map_eq_flatMap]
    apply List.flatMap_congr
    intro i hi
    have hnext : ahead .line (n + 1) i = [i + 1] :=
      if_pos (Nat.succ_lt_succ (List.mem_range.mp hi))
    rw [hnext]
    rfl

theorem length_regularPeers_mesh (hroom : a.Room n) {m : Node} (hm : m ∈ drawn f a .mesh n)
    (hbios : m.isBios = false) : m.regularPeers.length = n - 1 := by
  have hregular : m ∈ regularNodes (drawn f a .mesh n) :=
    List.mem_filter.mpr ⟨hm, by rw [hbios]; rfl⟩
  rw [regularNodes_drawn hroom] at hregular
  obtain ⟨i, hi, rfl⟩ := List.mem_map.mp hregular
  have herase : (List.range n).erase i = ahead .mesh n i := List.nodup_range.erase_eq_filter i
  rw [regularPeers_drawnAt, List.length_map, ← herase, List.length_erase_of_mem hi,
    List.length_range]

end Drawn

/-- What lines, rings and meshes of the nodes of a factory are: all that changes are peers, which
are given by ordinals. A line joins neighbours only, going around a ring meets each regular node
once before it is back, and each regular node of a mesh has all others. -/
theorem connect_exact (f : Factory) (a : Allocator) (n producers : Nat) (s : Shape)
    (nodes : List Node) (hs : s ∈ [Shape.line, .ring, .mesh])
    (hnodes : (f.createAll (n + 1) a).value = .ok nodes) :
    ∃ ns, (connect s producers nodes).value = ⟨ns, .ok ()⟩ ∧
      ns = nodes.mapIdx (fun p m => { m with peers := drawnPeers s n p }) ∧
      ns.map (·.name) = Node.biosName :: (List.range n).map Node.regularName ∧
      (s = .line → regularEdges ns =
        (List.range (n - 1)).map fun i => (Node.regularName i, Node.regularName (i + 1))) ∧
      (s = .ring → 2 ≤ n → ∀ i < n, ∃ round,
        tour ns n (Node.regularName i) = round ++ [Node.regularName i] ∧
        round.Perm ((List.range n).map Node.regularName)) ∧
      (s = .mesh → ∀ m ∈ ns, m.isBios = false → m.regularPeers.length = n - 1) := by
  obtain ⟨hroom, rfl⟩ := Factory.createAll_eq_ok_iff.mp hnodes
  refine ⟨drawn f a s n, connect_made hs hroom producers, ?_, name_drawn, ?_, ?_, ?_⟩
  · apply List.ext_getElem
    · simp [drawn]
    · intro p _ _
      simp [drawn, Factory.made, drawnAt]
  · rintro rfl
    exact regularEdges_line hroom
  · rintro rfl hn i hi
    exact tour_ring hn hi
  · rintro rfl m hm hbios
    exact length_regularPeers_mesh hroom hm hbios

/-- Around a ring of three, from the second node. -/
theorem connect_exact_of_three : ∃ (f : Factory) (nodes ns : List Node),
    (f.createAll 4 .standard).value = .ok nodes ∧ (connect .ring 0 nodes).value = ⟨ns, .ok ()⟩ ∧
      tour ns 3 "node_01" = ["node_01", "node_02", "node_00", "node_01"] := by
  let f : Factory := ⟨⟨"etc"⟩, ⟨"data"⟩, 4, 0⟩
  have hroom : Allocator.standard.Room 3 := by
    unfold Allocator.Room Counter.Room
    decide
  have hnodes := (Factory.createAll_eq_ok_iff (f := f) (n := 4)).mpr ⟨hroom, rfl⟩
  have hring : Shape.ring ∈ [Shape.line, .ring, .mesh] := by decide
  obtain ⟨ns, hconnect, hns, _⟩ := connect_exact f .standard 3 0 .ring _ hring hnodes
  refine ⟨f, _, ns, hnodes, hconnect, ?_⟩
  rw [hns]
  decide +kernel

end Testnet.Peering
