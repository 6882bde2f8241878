import Mathlib.Data.List.Nodup
import Testnet.Proofs.Generated
import Testnet.Proofs.Peering.Gap
import Testnet.Proofs.Peering.Regular
import Testnet.Proofs.Peering.Stride

/-!
# Which stars hold together

The regular nodes of a star, told apart by their numbers on the ring. Each turn of a number joins it
with the one that its strides lead to, unless it has met that one before; then it goes on around the
ring. Strides alone stay in a class of remainders. So a star holds together without its bios node
exactly if there is one class, or if the links of two numbers make up a period, so that turns lead
back to numbers already met and go on to the next class. A gap that merely does not divide the
number of nodes is not enough.
-/

namespace Testnet.Peering

section Turn

variable {ns : List Node} {links gap n : Nat}

theorem joined_dial_iff (h : Distinct ns) {i j a b : Nat} (hij : i ≠ j) (hi : i < ns.length)
    (hj : j < ns.length) : Joined (dial ns ⟨i, j⟩).value a b ↔
      Joined ns a b ∨ (a = i ∧ b = j) ∨ (a = j ∧ b = i) := by
  have hlists : ∀ a b, Lists (dial ns ⟨i, j⟩).value a b ↔ Lists ns a b ∨ (a = i ∧ b = j) := by
    intro a b
    have hone : (dial ns ⟨i, j⟩).value = (dialAll ns [⟨i, j⟩]).value := rfl
    rw [hone, lists_dialAll_iff h, List.mem_singleton, Link.mk.injEq]
    refine or_congr_right ⟨fun hnew => hnew.2.2.2, fun hnew => ?_⟩
    obtain ⟨rfl, rfl⟩ := hnew
    exact ⟨hij, hi, hj, rfl, rfl⟩
  simp only [Joined, hlists]
  constructor
  · intro hcase
    rcases hcase with (hold | hnew) | (hold | ⟨hb, ha⟩)
    · exact .inl (.inl hold)
    · exact .inr (.inl hnew)
    · exact .inl (.inr hold)
    · exact .inr (.inr ⟨ha, hb⟩)
  · intro hcase
    rcases hcase with (hold | hold) | hnew | ⟨ha, hb⟩
    · exact .inl (.inl hold)
    · exact .inr (.inl hold)
    · exact .inl (.inr hnew)
    · exact .inr (.inr ⟨hb, ha⟩)

theorem areFree_iff {i j : Nat} (hi : i < ns.length) (hj : j < ns.length) :
    areFree ns i j = true ↔ i ≠ j ∧ ¬ Joined ns i j := by
  simp only [areFree, List.getElem?_eq_getElem hi, List.getElem?_eq_getElem hj, Joined,
    lists_iff hi hj, lists_iff hj hi, Bool.and_eq_true, bne_iff_ne, ne_eq, Bool.not_eq_true',
    not_or, Bool.not_eq_true]

/-- Two numbers on the ring have met when they are the same or their nodes are joined. -/
def Met (ns : List Node) (a b : Nat) : Prop := a = b ∨ Joined ns (a + 1) (b + 1)

theorem Met.symm {a b : Nat} (h : Met ns a b) : Met ns b a :=
  h.elim (fun heq => .inl heq.symm) fun hjoined => .inr hjoined.symm

theorem areFree_ring_iff {a b : Nat} (ha : a + 1 < ns.length) (hb : b + 1 < ns.length) :
    areFree ns (a + 1) (b + 1) = true ↔ ¬ Met ns a b := by
  rw [areFree_iff ha hb, Met, not_or]
  exact and_congr_left fun _ => by omega

/-- The nodes after a turn. -/
def turned (links gap n : Nat) (ns : List Node) (turn : Nat × Nat) : List Node :=
  (dialStar (List.range' 1 n) links gap ns turn.1 turn.2).value

/-- The numbers of the ring once around from one of them. -/
def around (n start : Nat) : List Nat :=
  (List.range' 1 n).drop start ++ (List.range' 1 n).take start

theorem mem_around {start k : Nat} : k ∈ around n start ↔ 1 ≤ k ∧ k < n + 1 := by
  rw [around, (List.perm_append_comm).mem_iff, List.take_append_drop, List.mem_range'_1,
    Nat.add_comm 1]

/-- Going around begins with the number itself and the one after it. -/
theorem exists_around {start : Nat} (hstart : start < n) (hn : 2 ≤ n) :
    ∃ rest, around n start = (start + 1) :: ((start + 1) % n + 1) :: rest := by
  have hlength : (List.range' 1 n).length = n := List.length_range'
  rw [around, List.drop_eq_getElem_cons (by omega), List.getElem_range', Nat.one_mul,
    Nat.add_comm 1 start]
  by_cases hlast : start + 1 < n
  · rw [List.drop_eq_getElem_cons (by omega), List.getElem_range', Nat.mod_eq_of_lt hlast,
      Nat.one_mul, Nat.add_comm 1 (start + 1)]
    exact ⟨_, rfl⟩
  · obtain ⟨m, rfl⟩ : ∃ m, start = m + 1 := ⟨start - 1, by omega⟩
    have hend : n = m + 1 + 1 := by omega
    rw [hend, Nat.mod_self, List.drop_eq_nil_of_le (by simp), List.range'_succ,
      List.take_succ_cons]
    exact ⟨_, rfl⟩

/-- Nodes whose regular ones can take turns on a ring of that many numbers. -/
structure OnRing (n : Nat) (ns : List Node) : Prop where
  distinct : Distinct ns
  length_eq : ns.length = n + 1
  two_le : 2 ≤ n

theorem OnRing.of_bare {nodes : List Node} (h : OnRing n nodes)
    (hns : ns.map Node.bare = nodes.map Node.bare) : OnRing n ns :=
  ⟨h.distinct.of_bare hns, (length_of_bare hns).trans h.length_eq, h.two_le⟩

theorem OnRing.turned (h : OnRing n ns) (turn : Nat × Nat) :
    OnRing n (turned links gap n ns turn) :=
  h.of_bare (grown_dialStar _ links gap ns turn.1 turn.2).bare

/-- In its turn a node dials the first free one that it finds on its way around. -/
theorem turned_eq {i l : Nat} (hi : i < n) : turned links gap n ns (i, l) =
    match (around n (strideFrom n gap i l)).find? (areFree ns (i + 1)) with
    | some target => (dial ns ⟨i + 1, target⟩).value
    | none => ns := by
  have hpositions : (List.range' 1 n).length = n := List.length_range'
  have hget : (List.range' 1 n)[i]? = some (i + 1) := by
    rw [List.getElem?_range' hi, Nat.one_mul, Nat.add_comm]
  have hpartner : freePartner ns (List.range' 1 n) (i + 1) ((i + l * gap) % n) =
      (around n (strideFrom n gap i l)).find? (areFree ns (i + 1)) := rfl
  unfold turned dialStar
  simp only [hget, hpositions]
  rw [hpartner]
  cases (around n (strideFrom n gap i l)).find? (areFree ns (i + 1)) <;> rfl

/-- What a turn does: the node is joined with a number that it has not met, which is the one a
stride ahead if that will do, and the one after it if only that will do; or it has met all. -/
theorem turned_cases (h : OnRing n ns) {i l : Nat} (hi : i < n) :
    (∃ j < n, ¬ Met ns i j ∧
      (∀ a b, Joined (turned links gap n ns (i, l)) a b ↔
        Joined ns a b ∨ (a = i + 1 ∧ b = j + 1) ∨ (a = j + 1 ∧ b = i + 1)) ∧
      (¬ Met ns i (strideFrom n gap i l) → j = strideFrom n gap i l) ∧
      (Met ns i (strideFrom n gap i l) → ¬ Met ns i ((strideFrom n gap i l + 1) % n) →
        j = (strideFrom n gap i l + 1) % n)) ∨
    (turned links gap n ns (i, l) = ns ∧ ∀ j < n, Met ns i j) := by
  have hlength := h.length_eq
  have hahead : strideFrom n gap i l < n := strideFrom_lt (by omega) i l
  have hafter : (strideFrom n gap i l + 1) % n < n := Nat.mod_lt _ (by omega)
  have hfree : ∀ j < n, areFree ns (i + 1) (j + 1) = true ↔ ¬ Met ns i j := fun j hj =>
    areFree_ring_iff (by omega) (by omega)
  rw [turned_eq hi]
  cases hfind : (around n (strideFrom n gap i l)).find? (areFree ns (i + 1)) with
  | none =>
    refine .inr ⟨rfl, fun j hj => ?_⟩
    have hnone := List.find?_eq_none.mp hfind (j + 1) (mem_around.mpr (by omega))
    rw [hfree j hj, Classical.not_not] at hnone
    exact hnone
  | some target =>
    have htarget := List.find?_some hfind
    obtain ⟨hlow, hhigh⟩ := mem_around.mp (List.mem_of_find?_eq_some hfind)
    obtain ⟨j, rfl⟩ : ∃ j, target = j + 1 := ⟨target - 1, by omega⟩
    have hj : j < n := by omega
    have hunmet := (hfree j hj).mp htarget
    obtain ⟨rest, hrest⟩ := exists_around hahead h.two_le
    rw [hrest] at hfind
    refine .inl ⟨j, hj, hunmet, fun a b => ?_, fun hstride => ?_, fun hstride hnext => ?_⟩
    · refine joined_dial_iff h.distinct (fun heq => hunmet (.inl ?_)) (by omega) (by omega)
      omega
    · rw [List.find?_cons_of_pos ((hfree _ hahead).mpr hstride)] at hfind
      cases hfind
      rfl
    · have hmet : ¬ areFree ns (i + 1) (strideFrom n gap i l + 1) = true := by
        rw [hfree _ hahead, Classical.not_not]
        exact hstride
      have hlast := (hfree _ hafter).mpr hnext
      rw [List.find?_cons_of_neg hmet, List.find?_cons_of_pos hlast] at hfind
      cases hfind
      rfl

section Step

variable {i l a b : Nat}

theorem met_turned (h : OnRing n ns) (hi : i < n) (hmet : Met ns a b) :
    Met (turned links gap n ns (i, l)) a b := by
  rcases hmet with heq | hjoined
  · exact .inl heq
  · rcases turned_cases h hi with ⟨_, _, _, hiff, _⟩ | ⟨hsame, _⟩
    · exact .inr ((hiff _ _).mpr (.inl hjoined))
    · rw [hsame]
      exact .inr hjoined

/-- After its turn a number has met the one a stride ahead. -/
theorem met_stride_turned (h : OnRing n ns) (hi : i < n) :
    Met (turned links gap n ns (i, l)) i (strideFrom n gap i l) := by
  by_cases hmet : Met ns i (strideFrom n gap i l)
  · exact met_turned h hi hmet
  rcases turned_cases h hi with ⟨j, _, _, hiff, hj, _⟩ | ⟨_, hall⟩
  · rw [← hj hmet]
    exact .inr ((hiff _ _).mpr (.inr (.inl ⟨rfl, rfl⟩)))
  · have hn := h.two_le
    exact absurd (hall _ (strideFrom_lt (by omega) i l)) hmet

/-- A number that had already met the one a stride ahead has met the one after that as well. -/
theorem met_next_turned (h : OnRing n ns) (hi : i < n) (hmet : Met ns i (strideFrom n gap i l)) :
    Met (turned links gap n ns (i, l)) i ((strideFrom n gap i l + 1) % n) := by
  by_cases hnext : Met ns i ((strideFrom n gap i l + 1) % n)
  · exact met_turned h hi hnext
  rcases turned_cases h hi with ⟨j, _, _, hiff, _, hj⟩ | ⟨_, hall⟩
  · rw [← hj hmet hnext]
    exact .inr ((hiff _ _).mpr (.inr (.inl ⟨rfl, rfl⟩)))
  · have hn := h.two_le
    exact absurd (hall _ (Nat.mod_lt _ (by omega))) hnext

/-- Where the number a stride ahead has not been met, it is the only one that is met. -/
theorem joined_turned (h : OnRing n ns) (hi : i < n) (hunmet : ¬ Met ns i (strideFrom n gap i l))
    (hjoined : Joined (turned links gap n ns (i, l)) a b) :
    Joined ns a b ∨ (a = i + 1 ∧ b = strideFrom n gap i l + 1) ∨
      (a = strideFrom n gap i l + 1 ∧ b = i + 1) := by
  rcases turned_cases h hi with ⟨j, _, _, hiff, hj, _⟩ | ⟨hsame, _⟩
  · rw [← hj hunmet]
    exact (hiff a b).mp hjoined
  · rw [hsame] at hjoined
    exact .inl hjoined

end Step

end Turn

section Run

variable {ns : List Node} {links gap n : Nat} {turns : List (Nat × Nat)}

/-- The nodes after several turns. -/
def takeTurns (links gap n : Nat) (ns : List Node) (turns : List (Nat × Nat)) : List Node :=
  turns.foldl (turned links gap n) ns

theorem bare_takeTurns (ns : List Node) (turns : List (Nat × Nat)) :
    (takeTurns links gap n ns turns).map Node.bare = ns.map Node.bare :=
  (grown_foldl_dialStar (List.range' 1 n) links gap turns ns).bare

theorem OnRing.takeTurns (h : OnRing n ns) (turns : List (Nat × Nat)) :
    OnRing n (takeTurns links gap n ns turns) := h.of_bare (bare_takeTurns ns turns)

theorem takeTurns_append (ns : List Node) (first second : List (Nat × Nat)) :
    takeTurns links gap n ns (first ++ second) =
      takeTurns links gap n (takeTurns links gap n ns first) second := List.foldl_append

theorem met_takeTurns (h : OnRing n ns) (hturns : ∀ t ∈ turns, t.1 < n) {a b : Nat}
    (hmet : Met ns a b) : Met (takeTurns links gap n ns turns) a b := by
  induction turns generalizing ns with
  | nil => exact hmet
  | cons turn rest ih =>
    obtain ⟨hturn, hrest⟩ := List.forall_mem_cons.mp hturns
    exact ih (h.turned turn) hrest (met_turned h hturn hmet)

/-- After all turns every number has met those that its turns led to. -/
theorem met_stride_takeTurns (h : OnRing n ns) (hturns : ∀ t ∈ turns, t.1 < n) {i l : Nat}
    (hmem : (i, l) ∈ turns) : Met (takeTurns links gap n ns turns) i (strideFrom n gap i l) := by
  obtain ⟨before, after, rfl⟩ := List.append_of_mem hmem
  rw [List.forall_mem_append, List.forall_mem_cons] at hturns
  obtain ⟨_, hi, hafter⟩ := hturns
  have hbefore : OnRing n (Peering.takeTurns links gap n ns before) := h.takeTurns before
  rw [takeTurns_append]
  exact met_takeTurns (hbefore.turned (i, l)) hafter (met_stride_turned hbefore hi)

/-- A number whose turn leads to one that it has met before its turn goes on to the next one. -/
theorem met_next_takeTurns (h : OnRing n ns) {before after : List (Nat × Nat)} {i l : Nat}
    (hi : i < n) (hafter : ∀ t ∈ after, t.1 < n)
    (hmet : Met (takeTurns links gap n ns before) i (strideFrom n gap i l)) :
    Met (takeTurns links gap n ns (before ++ (i, l) :: after)) i
      ((strideFrom n gap i l + 1) % n) := by
  have hbefore : OnRing n (Peering.takeTurns links gap n ns before) := h.takeTurns before
  rw [takeTurns_append]
  exact met_takeTurns (hbefore.turned (i, l)) hafter (met_next_turned hbefore hi hmet)

/-- Two turns between the same two numbers. -/
def Crossed (n gap : Nat) (t u : Nat × Nat) : Prop :=
  (t.1 = u.1 ∧ strideFrom n gap t.1 t.2 = strideFrom n gap u.1 u.2) ∨
    (t.1 = strideFrom n gap u.1 u.2 ∧ strideFrom n gap t.1 t.2 = u.1)

/-- Turns that lead to numbers not met before join nothing else. -/
theorem joined_takeTurns (h : OnRing n ns) (hturns : ∀ t ∈ turns, t.1 < n)
    (happart : turns.Pairwise fun t u => ¬ Crossed n gap t u)
    (hunmet : ∀ t ∈ turns, ¬ Met ns t.1 (strideFrom n gap t.1 t.2)) {a b : Nat}
    (hjoined : Joined (takeTurns links gap n ns turns) a b) :
    Joined ns a b ∨ ∃ t ∈ turns, (a = t.1 + 1 ∧ b = strideFrom n gap t.1 t.2 + 1) ∨
      (a = strideFrom n gap t.1 t.2 + 1 ∧ b = t.1 + 1) := by
  induction turns generalizing ns with
  | nil => exact .inl hjoined
  | cons turn rest ih =>
    obtain ⟨hturn, hrest⟩ := List.forall_mem_cons.mp hturns
    obtain ⟨hfirst, hothers⟩ := List.forall_mem_cons.mp hunmet
    obtain ⟨hcross, hpairs⟩ := List.pairwise_cons.mp happart
    -- What the first turn joins is none of what the others lead to.
    have hstill : ∀ u ∈ rest,
        ¬ Met (turned links gap n ns turn) u.1 (strideFrom n gap u.1 u.2) := by
      intro u hu hmet
      rcases hmet with heq | hmet
      · exact hothers u hu (.inl heq)
      · rcases joined_turned h hturn hfirst hmet with hold | ⟨hfrom, hto⟩ | ⟨hto, hfrom⟩
        · exact hothers u hu (.inr hold)
        · exact hcross u hu (.inl ⟨by omega, by omega⟩)
        · exact hcross u hu (.inr ⟨by omega, by omega⟩)
    rcases ih (h.turned turn) hrest hpairs hstill hjoined with hmid | ⟨u, hu, hends⟩
    · rcases joined_turned h hturn hfirst hmid with hold | hends
      · exact .inl hold
      · exact .inr ⟨turn, List.mem_cons_self .., hends⟩
    · exact .inr ⟨u, List.mem_cons_of_mem turn hu, hends⟩

end Run

section Star

variable {nodes : List Node} {links gap n : Nat}

theorem nodup_starTurns : (starTurns n links).Nodup :=
  List.Nodup.product List.nodup_range List.nodup_range'

/-- When a number takes a turn all smaller numbers have taken theirs. -/
theorem exists_starTurns_eq {i l : Nat} (hi : i < n) (hl : 1 ≤ l) (hlinks : l ≤ links) :
    ∃ before after, starTurns n links = before ++ (i, l) :: after ∧
      ∀ j < i, ∀ k, 1 ≤ k → k ≤ links → (j, k) ∈ before := by
  obtain ⟨below, above, hnumbers⟩ := List.append_of_mem (List.mem_range.mpr hi)
  obtain ⟨fewer, more, hcounts⟩ := List.append_of_mem
    (show l ∈ List.range' 1 links by rw [List.mem_range'_1]; omega)
  have hrow : (List.range' 1 links).map (fun k => (i, k)) =
      fewer.map (fun k => (i, k)) ++ (i, l) :: more.map fun k => (i, k) := by
    rw [hcounts, List.map_append, List.map_cons]
  refine ⟨below.flatMap (fun j => (List.range' 1 links).map fun k => (j, k)) ++
    fewer.map fun k => (i, k), (more.map fun k => (i, k)) ++
    above.flatMap fun j => (List.range' 1 links).map fun k => (j, k), ?_,
    fun j hj k hk hkl => List.mem_append_left _ ?_⟩
  · rw [starTurns, hnumbers, List.flatMap_append, List.flatMap_cons, hrow, List.append_assoc,
      List.append_assoc, List.cons_append]
  · have hsorted : (below ++ i :: above).Pairwise (· < ·) := hnumbers ▸ List.pairwise_lt_range
    have hmem : j ∈ below ++ i :: above := hnumbers ▸ List.mem_range.mpr (by omega)
    have habove := (List.pairwise_cons.mp (List.pairwise_append.mp hsorted).2.1).1
    have hbelow : j ∈ below := by
      rcases List.mem_append.mp hmem with hbelow | hrest
      · exact hbelow
      · rcases List.mem_cons.mp hrest with heq | hup
        · omega
        · have hlt := habove j hup
          omega
    exact List.mem_flatMap.mpr ⟨j, hbelow, List.mem_map.mpr
      ⟨k, by rw [List.mem_range'_1]; omega, rfl⟩⟩

/-- The nodes after all turns of a star. -/
def starred (links gap n : Nat) (nodes : List Node) : List Node :=
  takeTurns links gap n nodes (starTurns n links)

theorem OnRing.starred (h : OnRing n nodes) : OnRing n (starred links gap n nodes) :=
  h.takeTurns _

/-- A number whose turn leads back to a smaller one, whose turn has led to it before, goes on to the
next one. -/
theorem met_next_of_back (h : OnRing n nodes) {i l k : Nat} (hi : i < n) (hl : 1 ≤ l)
    (hlinks : l ≤ links) (hk : 1 ≤ k) (hlinks' : k ≤ links)
    (hle : strideFrom n gap i l ≤ i) (hback : strideFrom n gap (strideFrom n gap i l) k = i) :
    Met (starred links gap n nodes) i ((strideFrom n gap i l + 1) % n) := by
  obtain ⟨before, after, hturns, hearlier⟩ := exists_starTurns_eq hi hl hlinks
  have hinside : ∀ t ∈ starTurns n links, t.1 < n := fun t ht => (mem_starTurns.mp ht).1
  rw [hturns, List.forall_mem_append, List.forall_mem_cons] at hinside
  obtain ⟨hbefore, _, hafter⟩ := hinside
  rw [starred, hturns]
  refine met_next_takeTurns h hi hafter ?_
  rcases Nat.lt_or_eq_of_le hle with hlt | heq
  · have hmet : Met (takeTurns links gap n nodes before) (strideFrom n gap i l)
        (strideFrom n gap (strideFrom n gap i l) k) :=
      met_stride_takeTurns h hbefore (hearlier _ hlt k hk hlinks')
    rw [hback] at hmet
    exact hmet.symm
  · exact .inl heq.symm

theorem succ_mod_modEq (i : Nat) : (i + 1) % n ≡ i + 1 [MOD Nat.gcd gap n] :=
  (Nat.mod_modEq _ n).of_dvd (Nat.gcd_dvd_right gap n)

/-- If the links of two numbers make up a period, turns lead back, and each class of numbers is
joined with the next. -/
theorem exists_met_next (h : OnRing n nodes) (hperiod : period n gap ≤ 2 * links) {r : Nat}
    (hr : r < n) : ∃ a b, a < n ∧ b < n ∧ a ≡ r [MOD Nat.gcd gap n] ∧
      b ≡ r + 1 [MOD Nat.gcd gap n] ∧ Met (starred links gap n nodes) a b := by
  have hn : 0 < n := by omega
  have hgcd : 0 < Nat.gcd gap n := Nat.gcd_pos_of_pos_right gap hn
  have hpos : 0 < period n gap :=
    Nat.div_pos (Nat.le_of_dvd hn (Nat.gcd_dvd_right gap n)) hgcd
  have hlt : ∀ i, (i + 1) % n < n := fun i => Nat.mod_lt _ hn
  have hsucc : ∀ {i}, i ≡ r [MOD Nat.gcd gap n] → (i + 1) % n ≡ r + 1 [MOD Nat.gcd gap n] :=
    fun hi => (succ_mod_modEq _).trans (hi.add_right 1)
  by_cases hshort : period n gap ≤ links
  · have hself : strideFrom n gap r (period n gap) = r :=
      (strideFrom_eq_self_iff hr).mpr (Nat.dvd_refl _)
    have hmet : Met (starred links gap n nodes) r
        ((strideFrom n gap r (period n gap) + 1) % n) :=
      met_next_of_back h hr hpos hshort hpos hshort (Nat.le_of_eq hself) (by rw [hself, hself])
    rw [hself] at hmet
    exact ⟨r, _, hr, hlt r, Nat.ModEq.refl r, hsucc (Nat.ModEq.refl r), hmet⟩
  · -- The two numbers lead to each other, so the later one finds the earlier.
    obtain ⟨k, hk⟩ : ∃ k, links + k = period n gap := ⟨period n gap - links, by omega⟩
    have hother : strideFrom n gap r links < n := strideFrom_lt hn r links
    have hclass := @strideFrom_modEq n gap r links
    have hback : strideFrom n gap (strideFrom n gap r links) k = r := by
      rw [strideFrom_strideFrom, hk]
      exact (strideFrom_eq_self_iff hr).mpr (Nat.dvd_refl _)
    rcases Nat.le_total (strideFrom n gap r links) r with hle | hle
    · have hmet : Met (starred links gap n nodes) r ((strideFrom n gap r links + 1) % n) :=
        met_next_of_back h hr (by omega) (Nat.le_refl links) (by omega) (by omega) hle hback
      exact ⟨r, _, hr, hlt _, Nat.ModEq.refl r, hsucc hclass, hmet⟩
    · have hmet : Met (starred links gap n nodes) (strideFrom n gap r links)
          ((strideFrom n gap (strideFrom n gap r links) k + 1) % n) :=
        met_next_of_back h hother (by omega) (by omega) (by omega) (Nat.le_refl links)
          (by rwa [hback]) (by rw [hback])
      rw [hback] at hmet
      exact ⟨_, _, hother, hlt r, hclass, hsucc (Nat.ModEq.refl r), hmet⟩

/-- If they do not, no two turns are between the same numbers. -/
theorem pairwise_not_crossed (hperiod : 2 * links < period n gap) :
    (starTurns n links).Pairwise fun t u => ¬ Crossed n gap t u := by
  refine nodup_starTurns.imp_of_mem fun {t u} ht hu hne hcross => ?_
  obtain ⟨ht, hlow, hhigh⟩ := mem_starTurns.mp ht
  obtain ⟨hu, hlow', hhigh'⟩ := mem_starTurns.mp hu
  rcases hcross with ⟨hsame, hend⟩ | ⟨hfrom, hto⟩
  · rw [← hsame] at hend
    have hlength := eq_of_strideFrom_eq ht (by omega) (by omega) hend
    exact hne (Prod.ext hsame hlength)
  · rw [hfrom, strideFrom_strideFrom] at hto
    have hwhole := (strideFrom_eq_self_iff hu).mp hto
    have hlong := Nat.le_of_dvd (by omega) hwhole
    omega

/-- So no turn leads to a number that has been met, and numbers of different classes are never
joined. -/
theorem modEq_of_joined (h : OnRing n nodes) (hsilent : ∀ a b, ¬ Joined nodes a b)
    (hperiod : 2 * links < period n gap) {a b : Nat}
    (hjoined : Joined (starred links gap n nodes) a b) : a ≡ b [MOD Nat.gcd gap n] := by
  have hinside : ∀ t ∈ starTurns n links, t.1 < n := fun t ht => (mem_starTurns.mp ht).1
  have hunmet : ∀ t ∈ starTurns n links, ¬ Met nodes t.1 (strideFrom n gap t.1 t.2) := by
    intro t ht hmet
    obtain ⟨hlt, hlow, hhigh⟩ := mem_starTurns.mp ht
    rcases hmet with heq | hmet
    · have hwhole := (strideFrom_eq_self_iff hlt).mp heq.symm
      have hlong := Nat.le_of_dvd (by omega) hwhole
      omega
    · exact hsilent _ _ hmet
  rcases joined_takeTurns h hinside (pairwise_not_crossed hperiod) hunmet hjoined with
    hold | ⟨t, _, hends⟩
  · exact absurd hold (hsilent a b)
  · have hclass := (@strideFrom_modEq n gap t.1 t.2).add_right 1
    rcases hends with ⟨rfl, rfl⟩ | ⟨rfl, rfl⟩
    · exact hclass.symm
    · exact hclass

/-- Then the regular nodes are connected only if there is one class. -/
theorem coprime_of_regularConnected (h : OnRing n nodes) (hsilent : ∀ a b, ¬ Joined nodes a b)
    (hperiod : 2 * links < period n gap)
    (hconnected : RegularConnected (starred links gap n nodes)) : Nat.Coprime gap n := by
  have hlength : (starred links gap n nodes).length = n + 1 := h.starred.length_eq
  have htwo := h.two_le
  have hway := hconnected 1 2 (by omega) (by omega) (by omega) (by omega)
  have hclass : 2 ≡ 1 [MOD Nat.gcd gap n] :=
    hway.mem_of_closed (S := fun k => k ≡ 1 [MOD Nat.gcd gap n])
      (fun a b ha _ hab => (modEq_of_joined h hsilent hperiod hab).symm.trans ha)
      (Nat.ModEq.refl 1)
  have hone : 1 ≡ 0 [MOD Nat.gcd gap n] := Nat.ModEq.add_right_cancel' 1 hclass
  exact Nat.dvd_one.mp ((Nat.modEq_zero_iff_dvd).mp hone)

/-- Numbers that have met reach each other without the bios node. -/
theorem reaches_of_met {ns : List Node} {a b : Nat} (h : Met ns a b) :
    Reaches ns (· ≠ 0) (a + 1) (b + 1) := by
  rcases h with rfl | hjoined
  · exact .here (Nat.succ_ne_zero a)
  · exact .of_joined (Nat.succ_ne_zero a) (Nat.succ_ne_zero b) hjoined

/-- The regular nodes are connected exactly if strides reach every number, or if turns lead back. -/
theorem regularConnected_starred_iff (h : OnRing n nodes) (hsilent : ∀ a b, ¬ Joined nodes a b)
    (hlinks : 1 ≤ links) : RegularConnected (starred links gap n nodes) ↔
      Nat.Coprime gap n ∨ period n gap ≤ 2 * links := by
  have hlength : (starred links gap n nodes).length = n + 1 := h.starred.length_eq
  have htwo := h.two_le
  constructor
  · intro hconnected
    by_cases hperiod : period n gap ≤ 2 * links
    · exact .inr hperiod
    · exact .inl (coprime_of_regularConnected h hsilent (by omega) hconnected)
  · intro hcase
    have hequivalence : Equivalence fun a b =>
        Reaches (starred links gap n nodes) (· ≠ 0) (a + 1) (b + 1) :=
      ⟨fun a => .here (Nat.succ_ne_zero a), fun hab => hab.symm, fun hab hbc => hab.trans hbc⟩
    have hstride : ∀ i < n, Reaches (starred links gap n nodes) (· ≠ 0) (i + 1)
        (strideFrom n gap i 1 + 1) := by
      intro i hi
      exact reaches_of_met (met_stride_takeTurns h (fun t ht => (mem_starTurns.mp ht).1)
        (mem_starTurns.mpr ⟨hi, Nat.le_refl 1, hlinks⟩))
    have hnext : ∀ r < n, ∃ a b, a < n ∧ b < n ∧ a ≡ r [MOD Nat.gcd gap n] ∧
        b ≡ r + 1 [MOD Nat.gcd gap n] ∧
        Reaches (starred links gap n nodes) (· ≠ 0) (a + 1) (b + 1) := by
      intro r hr
      rcases hcase with hcoprime | hperiod
      · have hlt : (r + 1) % n < n := Nat.mod_lt _ (by omega)
        have hone : r ≡ (r + 1) % n [MOD Nat.gcd gap n] := by
          rw [Nat.Coprime] at hcoprime
          rw [hcoprime]
          exact Nat.modEq_one
        exact ⟨r, _, hr, hlt, Nat.ModEq.refl r, succ_mod_modEq r,
          related_of_modEq hequivalence hstride hr hlt hone⟩
      · obtain ⟨a, b, ha, hb, har, hbr, hab⟩ := exists_met_next h hperiod hr
        exact ⟨a, b, ha, hb, har, hbr, reaches_of_met hab⟩
    intro i j hi hilt hj hjlt
    obtain ⟨a, rfl⟩ : ∃ a, i = a + 1 := ⟨i - 1, by omega⟩
    obtain ⟨b, rfl⟩ : ∃ b, j = b + 1 := ⟨j - 1, by omega⟩
    exact related_of_next hequivalence hstride hnext (i := a) (j := b) (by omega) (by omega)

end Star

variable {nodes : List Node}

/-- A star of that many regular nodes holds together without the bios node: it is a line, or strides
reach every number, or the links of two nodes make up a period. -/
def StarHolds (n : Nat) : Prop :=
  n < 4 ∨ Nat.Coprime (starGap n (starLinks n)) n ∨
    period n (starGap n (starLinks n)) ≤ 2 * starLinks n

theorem value_star (h : Unconnected nodes) (hlong : 4 ≤ nodes.length - 1) :
    (star nodes).value = starred (starLinks (nodes.length - 1))
      (starGap (nodes.length - 1) (starLinks (nodes.length - 1))) (nodes.length - 1) nodes := by
  unfold star
  rw [h.regularPositions_eq]
  simp only [List.length_range']
  rw [if_neg (Nat.not_lt.mpr hlong), Logged.value_bind, Logged.value_foldlM]
  rfl

theorem value_star_of_short (h : Unconnected nodes) (hshort : nodes.length - 1 < 4) :
    (star nodes).value = (dialAll nodes (lineLinks (regularPositions nodes))).value := by
  refine value_star_of_few ?_
  rwa [h.regularPositions_eq, List.length_range']

theorem regularConnected_star_iff (h : Unconnected nodes) :
    RegularConnected (star nodes).value ↔ StarHolds (nodes.length - 1) := by
  unfold StarHolds
  by_cases hshort : nodes.length - 1 < 4
  · rw [value_star_of_short h hshort]
    exact ⟨fun _ => .inl hshort, fun _ => regularConnected_of_line h (List.Subset.refl _)⟩
  · have hring : OnRing (nodes.length - 1) nodes := ⟨h.distinct, by omega, by omega⟩
    have hsilent : ∀ a b, ¬ Joined nodes a b := fun _ _ => h.not_joined
    have hlinks : 1 ≤ starLinks (nodes.length - 1) := by
      have hleast : 3 ≤ starLinks (nodes.length - 1) := Nat.le_max_right _ _
      omega
    rw [value_star h (Nat.not_lt.mp hshort), regularConnected_starred_iff hring hsilent hlinks]
    simp only [hshort, false_or]

/-- Whether the regular nodes are connected without the bios node, shape by shape. -/
theorem regularConnected_connect_iff (s : Shape) (producers : Nat) (nodes : List Node)
    (hs : s.dialsBios = true) (h : Unconnected nodes) :
    (connect s producers nodes).value.outcome = .ok () ∧
    (RegularConnected (connect s producers nodes).value.nodes ↔
      (s = .star → StarHolds (nodes.length - 1))) := by
  rw [connect_of_dialsBios hs]
  refine ⟨rfl, ?_⟩
  rw [regularConnected_dialBios_iff h (bare_joinRegular s nodes)]
  cases s with
  | bridge => cases hs
  | custom _ => cases hs
  | star =>
    show RegularConnected (star nodes).value ↔ _
    rw [regularConnected_star_iff h]
    exact ⟨fun hholds _ => hholds, fun hholds => hholds rfl⟩
  | line =>
    exact ⟨fun _ => nofun, fun _ => regularConnected_of_line h (List.Subset.refl _)⟩
  | ring =>
    exact ⟨fun _ => nofun, fun _ => regularConnected_of_line h (List.subset_append_left _ _)⟩
  | mesh =>
    exact ⟨fun _ => nofun, fun _ => regularConnected_of_line h
      (lineLinks_subset_meshLinks (nodup_regularPositions nodes))⟩

theorem not_starHolds_thirty : ¬ StarHolds 30 := by
  unfold StarHolds period
  have hlinks : starLinks 30 = 7 := by decide +kernel
  have hgap : starGap 30 7 = 4 := by decide +kernel
  rw [hlinks, hgap]
  decide

theorem regularConnected_connect_iff_of_thirty :
    ∃ nodes, (connect .star 0 nodes).value.nodes.length = 31 ∧
      ¬ RegularConnected (connect .star 0 nodes).value.nodes := by
  let f : Factory := ⟨⟨"etc"⟩, ⟨"var"⟩, 31, 0⟩
  have hroom : Allocator.standard.Room 30 := by
    unfold Allocator.Room Counter.Room
    decide
  have hfresh : Unconnected (f.made .standard 31) := Factory.unconnected_made (by decide) hroom
  obtain ⟨_, hiff⟩ := regularConnected_connect_iff .star 0 (f.made .standard 31) rfl hfresh
  refine ⟨f.made .standard 31, ?_, fun hconnected => ?_⟩
  · exact (length_of_bare (bare_connect .star 0 _)).trans (Factory.length_made 31)
  · have hholds := hiff.mp hconnected rfl
    rw [Factory.length_made] at hholds
    exact not_starHolds_thirty hholds

end Testnet.Peering
