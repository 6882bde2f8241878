import Mathlib.Order.Bounds.Basic
import Testnet.Peering.Star
import Testnet.Proofs.Binary64

/-!
# The numbers of a star

How many links a star asks for and how far its gap goes. Both stay in the range of the number of
nodes, so that the candidates of all turns are counts. The search for a gap has no bound of its own:
that it ends is a fact about divisors, and it ends at the least number that is none.
-/

namespace Testnet.Peering

/-- The search for a gap ends at the first number beyond the count, if not before. -/
theorem leastNonDivisor_le (count gap : Nat) :
    leastNonDivisor count gap ≤ max gap (count + 1) := by
  fun_induction leastNonDivisor count gap with
  | case1 gap hdivides ih => omega
  | case2 gap hends => omega

theorem starGap_le (count links : Nat) : starGap count links ≤ count + 1 := by
  unfold starGap firstGap
  split
  · omega
  · refine Nat.le_trans (leastNonDivisor_le _ _) ?_
    split <;> omega

section Search

variable {count gap turns found : Nat}

/-- The search for a gap, as the turns that it takes: a number that divides the count is passed, and
the first one that does not is found. Nothing here says where to stop. -/
inductive Search (count : Nat) : Nat → Nat → Nat → Prop where
  | found {gap : Nat} (h : count % gap ≠ 0) : Search count gap 0 gap
  | passed {gap turns found : Nat} (h : count % gap = 0)
      (rest : Search count (gap + 1) turns found) : Search count gap (turns + 1) found

theorem Search.add_turns (h : Search count gap turns found) : gap + turns = found := by
  induction h with
  | found _ => rfl
  | passed _ _ ih => omega

/-- What is found does not divide the count, and all that was passed does. -/
theorem Search.isLeast (h : Search count gap turns found) :
    IsLeast {g | gap ≤ g ∧ ¬ g ∣ count} found := by
  induction h with
  | found hends =>
    exact ⟨⟨Nat.le_refl _, fun hdvd => hends (Nat.mod_eq_zero_of_dvd hdvd)⟩, fun g hg => hg.1⟩
  | @passed gap turns found hdivides _ ih =>
    obtain ⟨⟨hle, hnot⟩, hleast⟩ := ih
    refine ⟨⟨by omega, hnot⟩, fun g hg => hleast ⟨?_, hg.2⟩⟩
    have hne : g ≠ gap := by
      rintro rfl
      exact hg.2 (Nat.dvd_of_mod_eq_zero hdivides)
    have hge := hg.1
    omega

/-- A number beyond the count divides it no more, so the search comes to an end. -/
theorem exists_search (hcount : 0 < count) (gap : Nat) :
    ∃ turns, Search count gap turns (leastNonDivisor count gap) := by
  fun_induction leastNonDivisor count gap with
  | case1 gap hdivides ih =>
    obtain ⟨turns, hrest⟩ := ih
    exact ⟨turns + 1, .passed hdivides.2 hrest⟩
  | case2 gap hends =>
    refine ⟨0, .found fun hzero => hends ⟨?_, hzero⟩⟩
    exact Nat.le_of_dvd hcount (Nat.dvd_of_mod_eq_zero hzero)

theorem isLeast_leastNonDivisor (hcount : 0 < count) (gap : Nat) :
    IsLeast {g | gap ≤ g ∧ ¬ g ∣ count} (leastNonDivisor count gap) := by
  obtain ⟨_, hsearch⟩ := exists_search hcount gap
  exact hsearch.isLeast

/-- The number before the count does not divide it, so the search never goes as far as the count. -/
theorem leastNonDivisor_lt (hcount : 3 ≤ count) (hgap : gap < count) :
    leastNonDivisor count gap < count := by
  have hnot : ¬ count - 1 ∣ count := by
    intro hdvd
    have hone : count - 1 ∣ 1 := by
      have hsub := Nat.dvd_sub hdvd (Nat.dvd_refl (count - 1))
      rwa [Nat.sub_sub_self (by omega)] at hsub
    have hle := Nat.le_of_dvd Nat.one_pos hone
    omega
  have hleast := (isLeast_leastNonDivisor (by omega) gap).2 ⟨by omega, hnot⟩
  omega

theorem starGap_eq (hcount : 0 < count) (links : Nat) :
    starGap count links = leastNonDivisor count (firstGap count links) := by
  rw [starGap, if_neg (by omega)]

theorem firstGap_pos (count links : Nat) : 0 < firstGap count links := by
  unfold firstGap
  split <;> omega

theorem firstGap_lt (hcount : 3 ≤ count) (links : Nat) : firstGap count links < count := by
  unfold firstGap
  split <;> omega

theorem starGap_lt (hcount : 3 ≤ count) (links : Nat) : starGap count links < count := by
  rw [starGap_eq (by omega)]
  exact leastNonDivisor_lt hcount (firstGap_lt hcount links)

theorem search_starGap (hcount : 0 < count) (links : Nat) :
    Search count (firstGap count links) (starGap count links - firstGap count links)
      (starGap count links) := by
  rw [starGap_eq hcount]
  obtain ⟨turns, hsearch⟩ := exists_search hcount (firstGap count links)
  have hturns := hsearch.add_turns
  rwa [← hturns, Nat.add_sub_cancel_left, hturns]

/-- For every number of nodes and of links the search ends, after as many turns as the gap lies
beyond its start, and nowhere but at the gap: the least number from the start on that does not
divide the number of nodes. It never goes past the number after these, and from three nodes on not
even as far as these, so no number of the search leaves its word and the first candidate of a node
is never the node itself. -/
theorem search_ends_at_least (count links : Nat) (hcount : 0 < count) :
    Search count (firstGap count links) (starGap count links - firstGap count links)
      (starGap count links) ∧
    (∀ turns found, Search count (firstGap count links) turns found → found = starGap count links) ∧
    IsLeast {g | firstGap count links ≤ g ∧ ¬ g ∣ count} (starGap count links) ∧
    starGap count links ≤ max (firstGap count links) (count + 1) ∧
    (3 ≤ count → starGap count links < count) ∧
    (4 ≤ count → ∀ i < count, (i + 1 * starGap count links) % count ≠ i) := by
  have hsearch := search_starGap hcount links
  have hleast := hsearch.isLeast
  refine ⟨hsearch, fun turns found h => ?_, hleast, ?_, fun h => starGap_lt h links,
    fun h i hi hback => ?_⟩
  · exact h.isLeast.unique hleast
  · rw [starGap_eq hcount]
    exact leastNonDivisor_le _ _
  · have hpos : 0 < starGap count links := Nat.lt_of_lt_of_le (firstGap_pos count links) hleast.1.1
    have hring : (i + 1 * starGap count links - i) % count = 0 :=
      Nat.sub_mod_eq_zero_of_mod_eq (by rw [hback, Nat.mod_eq_of_lt hi])
    rw [Nat.add_sub_cancel_left, Nat.one_mul,
      Nat.mod_eq_of_lt (starGap_lt (by omega) links)] at hring
    omega

/-- Sixty nodes can be divided by all numbers up to six, of which four are passed. -/
theorem search_ends_at_least_of_sixty :
    Search 60 (firstGap 60 9) 4 7 ∧ starGap 60 9 = 7 ∧ IsLeast {g | 3 ≤ g ∧ ¬ g ∣ 60} 7 := by
  obtain ⟨_, honly, hleast, _⟩ := search_ends_at_least 60 9 (by decide)
  have hsearch : Search 60 (firstGap 60 9) 4 7 :=
    .passed rfl (.passed rfl (.passed rfl (.passed rfl (.found (by decide)))))
  have hgap : 7 = starGap 60 9 := honly 4 7 hsearch
  rw [← hgap] at hleast
  exact ⟨hsearch, hgap.symm, hleast⟩

end Search

theorem starLinks_le {count : Nat} (h : count < 2 ^ 52) : starLinks count ≤ count + 3 := by
  have hroot := Binary64.wholeRoot_le count
  unfold starLinks
  rw [Binary64.roundedRoot_eq h]
  omega

theorem mem_starTurns {links n : Nat} {t : Nat × Nat} :
    t ∈ starTurns n links ↔ t.1 < n ∧ 1 ≤ t.2 ∧ t.2 ≤ links := by
  simp only [starTurns, List.mem_flatMap, List.mem_range, List.mem_map, List.mem_range'_1]
  constructor
  · intro hgiven
    obtain ⟨i, hi, l, hl, rfl⟩ := hgiven
    exact ⟨hi, by omega, by omega⟩
  · intro hgiven
    obtain ⟨hi, hl⟩ := hgiven
    exact ⟨t.1, hi, t.2, by omega, rfl⟩

/-- The candidate of a turn, before it is taken around the ring, is a count. -/
theorem candidate_lt_countLimit {count : Nat} (h : count < 2 ^ 16) {t : Nat × Nat}
    (ht : t ∈ starTurns count (starLinks count)) :
    t.1 + t.2 * starGap count (starLinks count) < countLimit := by
  have hlimit : countLimit = 2 ^ 64 := rfl
  obtain ⟨hnumber, _, hlinks⟩ := mem_starTurns.mp ht
  have hfew : starLinks count ≤ count + 3 := starLinks_le (Nat.lt_trans h (by decide))
  have hgap := starGap_le count (starLinks count)
  have hmul : t.2 * starGap count (starLinks count) ≤ 2 ^ 17 * 2 ^ 17 :=
    Nat.mul_le_mul (by omega) (by omega)
  omega

end Testnet.Peering
