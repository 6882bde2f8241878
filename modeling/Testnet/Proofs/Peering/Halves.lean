import Mathlib.Data.List.Nodup
import Testnet.Proofs.Generated
import Testnet.Proofs.Peering.Regular
import Testnet.Proofs.Shape
import Testnet.Proofs.SharedAccounts

/-!
# Bridges over the middle

A bridge parts the accounts by ordinal, while binding deals them out in blocks, the first of which
may be longer than the others. The two meet exactly if a block begins in the middle. Each node has
its place by where its block lies, so the nodes are grouped in the order in which they stand.
-/

namespace Testnet

namespace Plan

variable {p : Plan} {m : Nat}

/-- The size of the first half of the accounts. -/
def half (p : Plan) : Nat := (p.producers + 1) / 2

/-- The accounts come apart in the middle behind so many producing nodes. -/
def PartsAt (p : Plan) (m : Nat) : Prop :=
  1 ≤ m ∧ m < p.producingRegular ∧
    m * (p.producers / p.producingRegular) + min m (p.producers % p.producingRegular) =
      (p.producers + 1) / 2

theorem partsAt_iff :
    p.PartsAt m ↔ 1 ≤ m ∧ m < p.producingRegular ∧ p.blockStart m = p.half := by
  refine and_congr_right fun _ => and_congr_right fun hm => ?_
  rw [blockStart, perNode, leftOver, if_neg (by omega)]
  rfl

/-- The block in which the second half begins either begins with it or lies across the middle. -/
theorem half_cases (h : p.check = .ok ()) (hparted : 2 ≤ p.producingRegular) :
    ∃ j < p.producingRegular, p.half < p.blockStart (j + 1) ∧
      (p.PartsAt j ∨ p.blockStart j < p.half ∧ ¬ ∃ m, p.PartsAt m) := by
  obtain ⟨_, _, _, _, hfew⟩ := check_eq_ok_iff.mp h
  have hproducing : p.producingRegular = p.producerNodes - 1 := rfl
  have hall := blockStart_producingRegular h
  have hsize := hfew (by omega)
  have hhalf : p.half = (p.producers + 1) / 2 := rfl
  obtain ⟨j, hj, hmem⟩ := exists_mem_block (show p.half < p.blockStart p.producingRegular by omega)
  obtain ⟨hlow, hhigh⟩ := mem_block_iff.mp hmem
  refine ⟨j, hj, hhigh, ?_⟩
  rcases Nat.lt_or_eq_of_le hlow with hlt | heq
  · refine .inr ⟨hlt, fun hgiven => ?_⟩
    obtain ⟨m, hm⟩ := hgiven
    obtain ⟨_, hmk, hstart⟩ := partsAt_iff.mp hm
    have hnext := blockStart_lt h hmk
    have hsame := block_disjoint hmem (mem_block_iff.mpr ⟨by omega, hstart ▸ hnext⟩)
    rw [hsame] at hlt
    omega
  · refine .inl (partsAt_iff.mpr ⟨?_, hj, heq⟩)
    cases j with
    | zero =>
      rw [blockStart_zero] at heq
      omega
    | succ j => omega

end Plan

namespace Peering

open Plan

/-- How many of the accounts with some ordinals a node holds. -/
def held (n : Node) (ordinals : List Nat) : Nat :=
  ordinals.countP fun o => n.producers.contains (Account.name .exclusive o)

/-- The ordinals of the accounts of the first half, the larger one if they are odd. -/
def lower (plan : Plan) : List Nat := List.range plan.half

def upper (plan : Plan) : List Nat := List.range' plan.half (plan.producers - plan.half)

section Halves

variable {plan : Plan} {o : Nat}

theorem half_le (plan : Plan) : plan.half ≤ plan.producers := by
  unfold half
  omega

theorem nodup_lower (plan : Plan) : (lower plan).Nodup := List.nodup_range

theorem nodup_upper (plan : Plan) : (upper plan).Nodup := List.nodup_range'

theorem mem_lower : o ∈ lower plan ↔ o < plan.half := List.mem_range

theorem mem_upper : o ∈ upper plan ↔ plan.half ≤ o ∧ o < plan.producers := by
  have hle := half_le plan
  rw [upper, List.mem_range'_1]
  omega

theorem lt_producers_of_mem_lower (h : o ∈ lower plan) : o < plan.producers :=
  Nat.lt_of_lt_of_le (mem_lower.mp h) (half_le plan)

theorem lt_producers_of_mem_upper (h : o ∈ upper plan) : o < plan.producers := (mem_upper.mp h).2

end Halves

/-- Of two lists as many stand in the other one. -/
theorem length_filter_mem_comm {l l' : List Nat} (h : l.Nodup) (h' : l'.Nodup) :
    (l.filter (· ∈ l')).length = (l'.filter (· ∈ l)).length := by
  apply List.Perm.length_eq
  apply (List.perm_ext_iff_of_nodup (h.filter _) (h'.filter _)).mpr
  intro o
  simp only [List.mem_filter, decide_eq_true_eq]
  exact and_comm

section Place

variable {plan : Plan} {n : Node} {ordinals : List Nat}

/-- A node that holds just the accounts of some ordinals alone. -/
structure Owns (plan : Plan) (n : Node) (ordinals : List Nat) : Prop where
  few : plan.producers < Account.ordinalLimit
  owned_eq : owned n = ordinals.map (Account.name .exclusive)
  once : ordinals.Nodup
  lt : ∀ o ∈ ordinals, o < plan.producers

theorem contains_firstHalf {o : Nat} (hfew : plan.producers < Account.ordinalLimit)
    (ho : o < plan.producers) :
    (firstHalf plan.producers).contains (Account.name .exclusive o) = decide (o < plan.half) := by
  have hle := half_le plan
  have hhalf : plan.half = (plan.producers + 1) / 2 := rfl
  rw [Bool.eq_iff_iff, List.contains_iff_mem, decide_eq_true_iff, firstHalf, List.mem_map]
  constructor
  · intro hgiven
    obtain ⟨i, hi, hname⟩ := hgiven
    have hlt := List.mem_range.mp hi
    rw [Nat.mod_eq_of_lt (by omega)] at hname
    obtain ⟨_, rfl⟩ := Account.name_injective (by omega) (by omega) hname
    rwa [hhalf]
  · intro hlt
    refine ⟨o, List.mem_range.mpr (by omega), ?_⟩
    rw [Nat.mod_eq_of_lt (by omega)]

theorem Owns.held_eq (h : Owns plan n ordinals) {others : List Nat} (hothers : others.Nodup)
    (hlt : ∀ o ∈ others, o < plan.producers) :
    held n others = (ordinals.filter (· ∈ others)).length := by
  rw [length_filter_mem_comm h.once hothers, held, List.countP_eq_length_filter]
  refine congrArg _ (List.filter_congr fun o ho => ?_)
  have hfew := h.few
  have hmem := hlt o ho
  rw [Bool.eq_iff_iff, List.contains_iff_mem, decide_eq_true_iff, ← name_mem_owned_iff, h.owned_eq,
    List.mem_map]
  constructor
  · intro hgiven
    obtain ⟨o', ho', hname⟩ := hgiven
    have hmem' := h.lt o' ho'
    obtain ⟨_, rfl⟩ := Account.name_injective (by omega) (by omega) hname
    exact ho'
  · exact fun hin => ⟨o, hin, rfl⟩

theorem Owns.held_pos_iff (h : Owns plan n ordinals) {others : List Nat} (hothers : others.Nodup)
    (hlt : ∀ o ∈ others, o < plan.producers) :
    0 < held n others ↔ ∃ o ∈ ordinals, o ∈ others := by
  rw [h.held_eq hothers hlt, List.length_pos_iff_exists_mem]
  simp only [List.mem_filter, decide_eq_true_eq]

theorem Owns.held_lower (h : Owns plan n ordinals) :
    held n (lower plan) = (ordinals.filter (· < plan.half)).length := by
  rw [h.held_eq (nodup_lower plan) fun _ => lt_producers_of_mem_lower]
  simp only [mem_lower]

theorem Owns.held_upper (h : Owns plan n ordinals) :
    held n (upper plan) = ordinals.length - (ordinals.filter (· < plan.half)).length := by
  rw [h.held_eq (nodup_upper plan) fun _ => lt_producers_of_mem_upper]
  have hsplit := List.length_eq_countP_add_countP (· < plan.half) (l := ordinals)
  have hrest : ordinals.filter (· ∈ upper plan) =
      ordinals.filter fun o => decide ¬ decide (o < plan.half) = true := by
    apply List.filter_congr
    intro o ho
    have hlt := h.lt o ho
    rw [Bool.eq_iff_iff, decide_eq_true_iff, decide_eq_true_iff, decide_eq_true_iff, mem_upper]
    omega
  rw [hrest, ← List.countP_eq_length_filter, ← List.countP_eq_length_filter]
  omega

/-- The sides on which a node holds accounts decide its place. -/
theorem Owns.place_eq (h : Owns plan n ordinals) (g : Groups) (p : Nat) :
    g.place (firstHalf plan.producers) p n =
      if ordinals = [] then .ok { g with bridges := g.bridges ++ [p] }
      else if 0 < held n (lower plan) ∧ 0 < held n (upper plan) then
        .error (.straddlingProducers n.name (held n (lower plan)) (held n (upper plan)))
      else if 0 < held n (lower plan) then .ok { g with one := g.one ++ [p] }
      else .ok { g with two := g.two ++ [p] } := by
  have hinOne : ((owned n).filter (firstHalf plan.producers).contains).length =
      held n (lower plan) := by
    rw [h.held_lower, h.owned_eq, List.filter_map, List.length_map]
    refine congrArg _ (List.filter_congr fun o ho => ?_)
    exact contains_firstHalf h.few (h.lt o ho)
  have hinTwo : (owned n).length - held n (lower plan) = held n (upper plan) := by
    rw [h.held_upper, h.held_lower, h.owned_eq, List.length_map]
  have hempty : (owned n).isEmpty = true ↔ ordinals = [] := by
    rw [h.owned_eq, List.isEmpty_iff, List.map_eq_nil_iff]
  unfold Groups.place
  simp only [hinOne, hinTwo, hempty]

end Place

/-- The parts that a node can have in a bridge. -/
inductive Side where
  | one
  | two
  | bridge

/-- Groups with more positions at the end of one of them. -/
def Groups.add (g : Groups) (side : Side) (positions : List Nat) : Groups :=
  match side with
  | .one => { g with one := g.one ++ positions }
  | .two => { g with two := g.two ++ positions }
  | .bridge => { g with bridges := g.bridges ++ positions }

/-- Nodes that all have the same part are put there in order. -/
theorem foldlM_placeAt {nodes : List Node} {half : List String} {side : Side}
    {positions : List Nat} {g : Groups}
    (h : ∀ i ∈ positions, ∀ g, placeAt nodes half g i = .ok (g.add side [i])) :
    positions.foldlM (placeAt nodes half) g = .ok (g.add side positions) := by
  induction positions generalizing g with
  | nil => cases side <;> simp [Groups.add, pure, Except.pure]
  | cons i rest ih =>
    obtain ⟨hi, hrest⟩ := List.forall_mem_cons.mp h
    have hadd : (g.add side [i]).add side rest = g.add side (i :: rest) := by
      cases side <;> simp [Groups.add]
    rw [List.foldlM_cons, hi, ok_bind, ih hrest, hadd]

/-- Nodes as they are when a plan that allows for a bridge has been bound. -/
structure Served (plan : Plan) (nodes : List Node) : Prop where
  check : plan.check = .ok ()
  parted : 2 ≤ plan.producingRegular
  spare : plan.producerNodes < plan.totalNodes
  length_eq : nodes.length = plan.totalNodes
  positions_eq : regularPositions nodes = List.range' 1 (plan.totalNodes - 1)
  owns : ∀ (j : Nat) n, nodes[j + 1]? = some n →
    Owns plan n (if j < plan.producingRegular then plan.block j else [])

/-- The groups when the accounts come apart behind `m` producing nodes. -/
def halves (plan : Plan) (m : Nat) : Groups where
  one := List.range' 1 m
  two := List.range' (m + 1) (plan.producingRegular - m)
  bridges := List.range' (plan.producingRegular + 1) (plan.totalNodes - 1 - plan.producingRegular)

theorem range'_eq_append {start len total : Nat} (h : len ≤ total) :
    List.range' start total =
      List.range' start len ++ List.range' (len + start) (total - len) := by
  rw [Nat.add_comm len, List.range'_append_1, Nat.add_sub_cancel' h]

namespace Served

variable {plan : Plan} {nodes : List Node} {n : Node} {j m : Nat} {g : Groups}

theorem owns_block (h : Served plan nodes) (hj : j < plan.producingRegular)
    (hn : nodes[j + 1]? = some n) : Owns plan n (plan.block j) := by
  have howns := h.owns j n hn
  rwa [if_pos hj] at howns

theorem held_lower_pos_iff (h : Served plan nodes) (hj : j < plan.producingRegular)
    (hn : nodes[j + 1]? = some n) : 0 < held n (lower plan) ↔ plan.blockStart j < plan.half := by
  have hblock := blockStart_lt h.check hj
  rw [(h.owns_block hj hn).held_pos_iff (nodup_lower plan) fun _ => lt_producers_of_mem_lower]
  simp only [mem_block_iff, mem_lower]
  constructor
  · intro hgiven
    obtain ⟨o, ⟨hlow, _⟩, ho⟩ := hgiven
    omega
  · exact fun hlt => ⟨plan.blockStart j, ⟨Nat.le_refl _, hblock⟩, hlt⟩

theorem held_upper_pos_iff (h : Served plan nodes) (hj : j < plan.producingRegular)
    (hn : nodes[j + 1]? = some n) :
    0 < held n (upper plan) ↔ plan.half < plan.blockStart (j + 1) := by
  have hblock := blockStart_lt h.check hj
  have hend : plan.blockStart (j + 1) ≤ plan.producers := by
    rw [← blockStart_producingRegular h.check]
    exact blockStart_mono hj
  rw [(h.owns_block hj hn).held_pos_iff (nodup_upper plan) fun _ => lt_producers_of_mem_upper]
  simp only [mem_block_iff, mem_upper]
  constructor
  · intro hgiven
    obtain ⟨o, ⟨_, hhigh⟩, ho, _⟩ := hgiven
    omega
  · intro hlt
    exact ⟨plan.blockStart (j + 1) - 1, ⟨by omega, by omega⟩, by omega, by omega⟩

/-- The place of a producing node is a matter of its block. -/
theorem placeAt_producing (h : Served plan nodes) (hj : j < plan.producingRegular)
    (hn : nodes[j + 1]? = some n) :
    placeAt nodes (firstHalf plan.producers) g (j + 1) =
      if plan.blockStart j < plan.half ∧ plan.half < plan.blockStart (j + 1) then
        .error (.straddlingProducers n.name (held n (lower plan)) (held n (upper plan)))
      else if plan.blockStart j < plan.half then .ok (g.add .one [j + 1])
      else .ok (g.add .two [j + 1]) := by
  have hblock := blockStart_lt h.check hj
  have hsome : plan.block j ≠ [] := List.ne_nil_of_mem (mem_block_iff.mpr ⟨Nat.le_refl _, hblock⟩)
  rw [placeAt, hn]
  dsimp only
  rw [(h.owns_block hj hn).place_eq, if_neg hsome]
  simp only [h.held_lower_pos_iff hj hn, h.held_upper_pos_iff hj hn]
  rfl

theorem placeAt_spare (h : Served plan nodes) (hj : plan.producingRegular ≤ j)
    (hn : nodes[j + 1]? = some n) :
    placeAt nodes (firstHalf plan.producers) g (j + 1) = .ok (g.add .bridge [j + 1]) := by
  have howns := h.owns j n hn
  rw [if_neg (Nat.not_lt.mpr hj)] at howns
  rw [placeAt, hn]
  dsimp only
  rw [howns.place_eq, if_pos rfl]
  rfl

theorem producingRegular_lt (h : Served plan nodes) :
    plan.producingRegular + 1 < plan.totalNodes := by
  have hproducing : plan.producingRegular = plan.producerNodes - 1 := rfl
  have hparted := h.parted
  have hspare := h.spare
  omega

theorem exists_node (h : Served plan nodes) (hj : j + 1 < plan.totalNodes) :
    ∃ n, nodes[j + 1]? = some n := ⟨_, List.getElem?_eq_getElem (h.length_eq ▸ hj)⟩

/-- Nodes with blocks up to the middle go to the first group. -/
theorem foldlM_front (h : Served plan nodes) (hm : m ≤ plan.producingRegular)
    (hhalf : plan.blockStart m ≤ plan.half) :
    (List.range' 1 m).foldlM (placeAt nodes (firstHalf plan.producers)) g =
      .ok (g.add .one (List.range' 1 m)) := by
  apply foldlM_placeAt
  intro i hi g
  obtain ⟨j, rfl⟩ : ∃ j, i = j + 1 := ⟨i - 1, by have := (List.mem_range'_1.mp hi).1; omega⟩
  have hj : j < m := by have := (List.mem_range'_1.mp hi).2; omega
  have htotal := h.producingRegular_lt
  obtain ⟨n, hn⟩ := h.exists_node (show j + 1 < plan.totalNodes by omega)
  have hblock := blockStart_lt h.check (Nat.lt_of_lt_of_le hj hm)
  have hend := @blockStart_mono plan (j + 1) m hj
  rw [h.placeAt_producing (Nat.lt_of_lt_of_le hj hm) hn, if_neg (by omega), if_pos (by omega)]

/-- Nodes with blocks from the middle on go to the second group. -/
theorem foldlM_back (h : Served plan nodes) (hhalf : plan.half ≤ plan.blockStart m) :
    (List.range' (m + 1) (plan.producingRegular - m)).foldlM
        (placeAt nodes (firstHalf plan.producers)) g =
      .ok (g.add .two (List.range' (m + 1) (plan.producingRegular - m))) := by
  apply foldlM_placeAt
  intro i hi g
  obtain ⟨hlow, hhigh⟩ := List.mem_range'_1.mp hi
  obtain ⟨j, rfl⟩ : ∃ j, i = j + 1 := ⟨i - 1, by omega⟩
  have htotal := h.producingRegular_lt
  obtain ⟨n, hn⟩ := h.exists_node (show j + 1 < plan.totalNodes by omega)
  have hstart := @blockStart_mono plan m j (by omega)
  rw [h.placeAt_producing (by omega) hn, if_neg (by omega), if_neg (by omega)]

/-- Nodes without blocks are the bridges. -/
theorem foldlM_spare (h : Served plan nodes) :
    (List.range' (plan.producingRegular + 1) (plan.totalNodes - 1 - plan.producingRegular)).foldlM
        (placeAt nodes (firstHalf plan.producers)) g =
      .ok (g.add .bridge (List.range' (plan.producingRegular + 1)
        (plan.totalNodes - 1 - plan.producingRegular))) := by
  apply foldlM_placeAt
  intro i hi g
  obtain ⟨hlow, hhigh⟩ := List.mem_range'_1.mp hi
  obtain ⟨j, rfl⟩ : ∃ j, i = j + 1 := ⟨i - 1, by omega⟩
  obtain ⟨n, hn⟩ := h.exists_node (show j + 1 < plan.totalNodes by omega)
  exact h.placeAt_spare (by omega) hn

theorem classify_of_partsAt (h : Served plan nodes) (hm : plan.PartsAt m) :
    classify nodes plan.producers = .ok (halves plan m) := by
  obtain ⟨hpos, hlt, hstart⟩ := partsAt_iff.mp hm
  have htotal := h.producingRegular_lt
  have hsplit : List.range' 1 (plan.totalNodes - 1) = List.range' 1 m ++
      (List.range' (m + 1) (plan.producingRegular - m) ++
        List.range' (plan.producingRegular + 1)
          (plan.totalNodes - 1 - plan.producingRegular)) := by
    rw [← List.append_assoc, ← range'_eq_append (Nat.le_of_lt hlt)]
    exact range'_eq_append (by omega)
  have hfold : (regularPositions nodes).foldlM (placeAt nodes (firstHalf plan.producers)) .empty =
      .ok (halves plan m) := by
    rw [h.positions_eq, hsplit, List.foldlM_append, h.foldlM_front (Nat.le_of_lt hlt) (by omega),
      ok_bind, List.foldlM_append, h.foldlM_back (by omega), ok_bind, h.foldlM_spare]
    rfl
  refine bind_eq_ok_iff.mpr ⟨_, hfold, ?_⟩
  have hone : (halves plan m).one ≠ [] := by simp [halves]; omega
  have htwo : (halves plan m).two ≠ [] := by simp [halves]; omega
  have hbridges : (halves plan m).bridges ≠ [] := by simp [halves]; omega
  simp [List.isEmpty_iff, hone, htwo, hbridges]

theorem classify_of_across (h : Served plan nodes) (hj : j < plan.producingRegular)
    (hlow : plan.blockStart j < plan.half) (hhigh : plan.half < plan.blockStart (j + 1))
    (hn : nodes[j + 1]? = some n) : classify nodes plan.producers =
      .error (.straddlingProducers n.name (held n (lower plan)) (held n (upper plan))) := by
  have htotal := h.producingRegular_lt
  obtain ⟨rest, hrest⟩ : ∃ rest, plan.totalNodes - 1 - j = rest + 1 :=
    ⟨plan.totalNodes - 2 - j, by omega⟩
  have hsplit : List.range' 1 (plan.totalNodes - 1) =
      List.range' 1 j ++ (j + 1) :: List.range' (j + 2) rest := by
    rw [range'_eq_append (show j ≤ plan.totalNodes - 1 by omega), hrest]
    rfl
  have hfold : (regularPositions nodes).foldlM (placeAt nodes (firstHalf plan.producers)) .empty =
      .error (.straddlingProducers n.name (held n (lower plan)) (held n (upper plan))) := by
    rw [h.positions_eq, hsplit, List.foldlM_append,
      h.foldlM_front (Nat.le_of_lt hj) (Nat.le_of_lt hlow), ok_bind, List.foldlM_cons,
      h.placeAt_producing hj hn, if_pos ⟨hlow, hhigh⟩]
    rfl
  show ((regularPositions nodes).foldlM (placeAt nodes (firstHalf plan.producers)) .empty >>= _) = _
  rw [hfold]
  rfl

end Served

variable {σ : Type} {plan : Plan} {source : KeySource σ} {s : σ} {f : Factory} {a : Allocator}
  {nodes : List Node} {owners : Assignment}

/-- Fresh nodes after binding are served. -/
theorem served_of_bind (hshape : (Shape.bridge.check plan).value = .ok ())
    (hproducers : plan.producers < Account.ordinalLimit) (hroom : a.Room (plan.totalNodes - 1))
    (h : (Binding.bind plan source s (f.made a plan.totalNodes)).value = ⟨nodes, .ok owners⟩) :
    Served plan nodes := by
  obtain ⟨hcheck, _⟩ := Binding.bind_eq_ok_iff.mp h
  obtain ⟨hparted, hspare⟩ := Shape.check_bridge_eq_ok_iff.mp hshape
  have hunbound := @Binding.unbound_bind plan σ source s (f.made a plan.totalNodes)
  rw [h] at hunbound
  have hlength := congrArg List.length hunbound
  rw [List.length_map, List.length_map, Factory.length_made] at hlength
  have hunconnected : Unconnected nodes :=
    (Factory.unconnected_made (Nat.zero_lt_of_lt hspare) hroom).of_unbound hunbound
  refine ⟨hcheck, hparted, hspare, hlength, ?_, fun j n hn => ?_⟩
  · rw [hunconnected.regularPositions_eq]
    exact congrArg (fun total => List.range' 1 (total - 1)) hlength
  · have howned := Binding.owned_bind_made hproducers hroom h hn
    rw [if_neg (Nat.succ_ne_zero j), Plan.owned] at howned
    refine ⟨hproducers, ?_, ?_, ?_⟩
    · rw [howned]
      split <;> rfl
    · split
      · exact List.nodup_range'
      · exact List.nodup_nil
    · intro o ho
      split at ho
      case isTrue hj => exact lt_producers_of_mem_block hcheck hj ho
      case isFalse => cases ho

/-- The node at a position is the only one with accounts next to each other across the middle. -/
structure Straddles (plan : Plan) (nodes : List Node) (p : Nat) (n : Node) : Prop where
  get : nodes[p]? = some n
  only : ∀ (q : Nat) other, nodes[q]? = some other →
    (Account.name .exclusive (plan.half - 1) ∈ other.producers ∧
      Account.name .exclusive plan.half ∈ other.producers ↔ q = p)

theorem straddles_of_bind (hproducers : plan.producers < Account.ordinalLimit)
    (hroom : a.Room (plan.totalNodes - 1))
    (h : (Binding.bind plan source s (f.made a plan.totalNodes)).value = ⟨nodes, .ok owners⟩)
    {j : Nat} {n : Node} (hj : j < plan.producingRegular) (hlow : plan.blockStart j < plan.half)
    (hhigh : plan.half < plan.blockStart (j + 1)) (hn : nodes[j + 1]? = some n) :
    Straddles plan nodes (j + 1) n := by
  obtain ⟨hcheck, _⟩ := Binding.bind_eq_ok_iff.mp h
  have hfirst : plan.half - 1 ∈ plan.block j := mem_block_iff.mpr ⟨by omega, by omega⟩
  have hsecond : plan.half ∈ plan.block j := mem_block_iff.mpr ⟨by omega, hhigh⟩
  have hlt := lt_producers_of_mem_block hcheck hj hsecond
  refine ⟨hn, fun q other hother => ?_⟩
  have hbefore : plan.half - 1 < plan.producers := Nat.lt_of_le_of_lt (Nat.sub_le _ _) hlt
  rw [Binding.holds_bind_made_iff hproducers hroom h hother hbefore,
    Binding.holds_bind_made_iff hproducers hroom h hother hlt]
  constructor
  · intro hgiven
    obtain ⟨_, j', _, rfl, hmem⟩ := hgiven
    rw [block_disjoint hmem hsecond]
  · rintro rfl
    exact ⟨⟨j, hj, rfl, hfirst⟩, j, hj, rfl, hsecond⟩

/-- When a bridge can be built over the nodes of a factory, once a plan that passes its checks is
bound to them: exactly if the accounts come apart in the middle between two producing nodes. Then
the nodes before form one group, those after the other, and nodes without accounts the bridges.
Otherwise one node alone has accounts next to each other across the middle, and it is refused with
their numbers on either side. There is no other refusal. -/
theorem connect_bridge_halves (f : Factory) (a : Allocator) (plan : Plan) (source : KeySource σ)
    (s : σ) (nodes : List Node) (hcheck : plan.check = .ok ())
    (hshape : (Shape.bridge.check plan).value = .ok ())
    (hproducers : plan.producers < Account.ordinalLimit)
    (hnodes : (f.createAll plan.totalNodes a).value = .ok nodes) :
    ∃ bound owners, (Binding.bind plan source s nodes).value = ⟨bound, .ok owners⟩ ∧
      ((connect .bridge plan.producers bound).value.outcome = .ok () ↔ ∃ m, plan.PartsAt m) ∧
      (∀ m, plan.PartsAt m →
        classify bound plan.producers = .ok (halves plan m) ∧
        (connect .bridge plan.producers bound).value = ⟨bridged bound (halves plan m), .ok ()⟩) ∧
      ((¬ ∃ m, plan.PartsAt m) → ∃ p n, Straddles plan bound p n ∧
        (connect .bridge plan.producers bound).value = ⟨bound,
          .error (.straddlingProducers n.name (held n (lower plan)) (held n (upper plan)))⟩) := by
  obtain ⟨hroom, rfl⟩ := Factory.createAll_eq_ok_iff.mp hnodes
  obtain ⟨bound, owners, hbind⟩ :=
    @Binding.exists_bind_made σ plan source s f a hcheck hproducers hroom
  have hserved : Served plan bound := served_of_bind hshape hproducers hroom hbind
  have htotal := hserved.producingRegular_lt
  refine ⟨bound, owners, hbind, ?_, ?_, ?_⟩
  · obtain ⟨j, hj, hhigh, hm | ⟨hlow, hnone⟩⟩ := half_cases hcheck hserved.parted
    · rw [connect_bridge_of_ok (hserved.classify_of_partsAt hm)]
      exact iff_of_true rfl ⟨j, hm⟩
    · obtain ⟨n, hn⟩ := hserved.exists_node (show j + 1 < plan.totalNodes by omega)
      rw [connect_bridge_of_error (hserved.classify_of_across hj hlow hhigh hn)]
      exact iff_of_false nofun hnone
  · intro m hm
    have hclassify := hserved.classify_of_partsAt hm
    exact ⟨hclassify, connect_bridge_of_ok hclassify⟩
  · intro hnone
    obtain ⟨j, hj, hhigh, hcase⟩ := half_cases hcheck hserved.parted
    obtain ⟨hlow, _⟩ := hcase.resolve_left fun hm => hnone ⟨j, hm⟩
    obtain ⟨n, hn⟩ := hserved.exists_node (show j + 1 < plan.totalNodes by omega)
    exact ⟨j + 1, n, straddles_of_bind hproducers hroom hbind hj hlow hhigh hn,
      connect_bridge_of_error (hserved.classify_of_across hj hlow hhigh hn)⟩

/-- Three nodes have two of six accounts each, so the second one lies across the middle. -/
theorem connect_bridge_halves_of_six : ∃ (f : Factory) (plan : Plan) (nodes bound : List Node)
    (owners : Assignment), plan.producers = 6 ∧ plan.producingRegular = 3 ∧
      (f.createAll 5 .standard).value = .ok nodes ∧
      (Binding.bind plan .development () nodes).value = ⟨bound, .ok owners⟩ ∧
      (connect .bridge 6 bound).value =
        ⟨bound, .error (.straddlingProducers "node_01" 1 1)⟩ := by
  let f : Factory := ⟨⟨"etc"⟩, ⟨"var"⟩, 5, 0⟩
  let plan : Plan := ⟨5, 4, 6, 1, 0⟩
  have hroom : Allocator.standard.Room 4 := by
    unfold Allocator.Room Counter.Room
    decide
  have hnodes := (Factory.createAll_eq_ok_iff (f := f) (n := 5)).mpr ⟨hroom, rfl⟩
  obtain ⟨bound, owners, hbind, _, _, hstraddling⟩ :=
    connect_bridge_halves f .standard plan .development () _ rfl rfl (by decide) hnodes
  have hnone : ¬ ∃ m, plan.PartsAt m := by
    intro hgiven
    obtain ⟨m, _, _, hparts⟩ := hgiven
    have hmiddle : m * (6 / 3) + min m (6 % 3) = (6 + 1) / 2 := hparts
    omega
  obtain ⟨_, _, _, hconnect⟩ := hstraddling hnone
  have houtcome : (connect .bridge 6 (Binding.bind plan .development ()
      (f.made .standard 5)).value.nodes).value.outcome =
        .error (.straddlingProducers "node_01" 1 1) := by decide +kernel
  rw [hbind] at houtcome
  refine ⟨f, plan, _, bound, owners, rfl, rfl, hnodes, hbind, ?_⟩
  rw [hconnect] at houtcome
  exact hconnect.trans (congrArg (Change.mk bound) houtcome)

end Peering

end Testnet
