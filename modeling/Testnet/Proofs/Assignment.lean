import Mathlib.Data.List.Nodup
import Testnet.Assignment
import Testnet.Proofs.Run

/-!
# Who owns what

An assignment exists exactly when no exclusive account is claimed twice, and then it says of every
account which node claims it. The order of the nodes matters only for which of several repeated
claims is found.
-/

namespace Testnet.Assignment

/-- Without repeated keys a key stands for its value exactly if both are in the list. -/
theorem lookup_eq_some_iff_mem {α β : Type} [DecidableEq α] {l : List (α × β)}
    (hkeys : (l.map Prod.fst).Nodup) {a : α} {b : β} :
    l.lookup a = some b ↔ (a, b) ∈ l := by
  constructor
  · intro h
    obtain ⟨before, after, rfl, _⟩ := List.lookup_eq_some_iff.mp h
    exact List.mem_append_right _ (List.mem_cons_self ..)
  · intro h
    obtain ⟨before, after, rfl⟩ := List.append_of_mem h
    rw [List.map_append, List.map_cons] at hkeys
    refine List.lookup_eq_some_iff.mpr ⟨before, after, rfl, fun p hp => bne_iff_ne.mpr ?_⟩
    rintro rfl
    exact List.disjoint_of_nodup_append hkeys (List.mem_map_of_mem hp) (List.mem_cons_self ..)

theorem mem_claims {nodes : List Node} {c : Claim} :
    c ∈ claims nodes ↔ ∃ n ∈ nodes, c.producer ∈ n.producers ∧
      Account.isExclusive c.producer = true ∧ c.node = n.name ∧ c.index = n.index := by
  simp only [claims, claimsOf, List.mem_flatMap, List.mem_map, List.mem_filter]
  constructor
  · intro hgiven
    obtain ⟨n, hn, p, ⟨hp, hexclusive⟩, rfl⟩ := hgiven
    exact ⟨n, hn, hp, hexclusive, rfl, rfl⟩
  · intro hgiven
    obtain ⟨n, hn, hp, hexclusive, hname, hindex⟩ := hgiven
    refine ⟨n, hn, c.producer, ⟨hp, hexclusive⟩, ?_⟩
    rw [← hname, ← hindex]

/-- The accounts that are claimed are the exclusive ones, node by node. -/
theorem map_producer_claims (nodes : List Node) :
    (claims nodes).map (·.producer) =
      nodes.flatMap fun n => n.producers.filter Account.isExclusive := by
  rw [claims, List.map_flatMap]
  refine congrArg (nodes.flatMap ·) (funext fun n => ?_)
  rw [claimsOf, List.map_map]
  exact List.map_id _

/-- Nodes that are the same but for what claims do not look at have the same owners. -/
theorem ofNodes_congr (g : Node → Node) (hg : ∀ n, claimsOf (g n) = claimsOf n)
    {nodes nodes' : List Node} (h : nodes.map g = nodes'.map g) :
    ofNodes nodes = ofNodes nodes' := by
  have hsame : ∀ ns : List Node, claims (ns.map g) = claims ns := by
    intro ns
    rw [claims, List.flatMap_map]
    exact congrArg (ns.flatMap ·) (funext hg)
  have hclaims : claims nodes = claims nodes' := by
    rw [← hsame nodes, h, hsame nodes']
  rw [ofNodes, ofNodes, hclaims]

/-- No claim is found to repeat another exactly if no account stands twice. -/
theorem firstRepeat_eq_none_iff {seen cs : List Claim} :
    firstRepeat seen cs = none ↔
      (cs.map (·.producer)).Nodup ∧ ∀ c ∈ cs, ∀ e ∈ seen, e.producer ≠ c.producer := by
  induction cs generalizing seen with
  | nil => simp [firstRepeat]
  | cons c rest ih =>
    unfold firstRepeat
    cases hfind : seen.find? (fun earlier => earlier.producer == c.producer) with
    | some earlier =>
      have hmem := List.mem_of_find?_eq_some hfind
      have heq := List.find?_some hfind
      simp only [reduceCtorEq, false_iff, not_and]
      intro _ h
      exact h c (List.mem_cons_self ..) earlier hmem (by simpa using heq)
    | none =>
      have hseen : ∀ e ∈ seen, e.producer ≠ c.producer := by
        simpa using List.find?_eq_none.mp hfind
      simp only [ih, List.map_cons, List.nodup_cons, List.mem_map, List.mem_cons, forall_eq_or_imp]
      grind

/-- The claim that is found repeats one before it, and no claim before it repeats another. -/
theorem firstRepeat_eq_some_iff {seen cs : List Claim} {first second : Claim} :
    firstRepeat seen cs = some (first, second) ↔ ∃ before after, cs = before ++ second :: after ∧
      firstRepeat seen before = none ∧
      (before.reverse ++ seen).find? (fun e => e.producer == second.producer) = some first := by
  induction cs generalizing seen with
  | nil => simp [firstRepeat]
  | cons c rest ih =>
    cases hfind : seen.find? (fun earlier => earlier.producer == c.producer) with
    | some earlier =>
      have hstop : ∀ tail, firstRepeat seen (c :: tail) = some (earlier, c) := by
        intro tail
        rw [firstRepeat, hfind]
      rw [hstop, Option.some.injEq, Prod.mk.injEq]
      constructor
      · rintro ⟨rfl, rfl⟩
        exact ⟨[], rest, rfl, rfl, hfind⟩
      · rintro ⟨_ | ⟨b, before⟩, after, hsplit, hnone, hfirst⟩
        · cases hsplit
          exact ⟨Option.some.inj (hfind.symm.trans hfirst), rfl⟩
        · cases hsplit
          rw [hstop] at hnone
          cases hnone
    | none =>
      have hpass : ∀ tail, firstRepeat seen (c :: tail) = firstRepeat (c :: seen) tail := by
        intro tail
        rw [firstRepeat, hfind]
      rw [hpass, ih]
      constructor
      · rintro ⟨before, after, rfl, hnone, hfirst⟩
        refine ⟨c :: before, after, rfl, (hpass before).trans hnone, ?_⟩
        rw [List.reverse_cons, List.append_assoc]
        exact hfirst
      · rintro ⟨_ | ⟨b, before⟩, after, hsplit, hnone, hfirst⟩
        · cases hsplit
          rw [List.reverse_nil, List.nil_append, hfind] at hfirst
          cases hfirst
        · cases hsplit
          rw [List.reverse_cons, List.append_assoc] at hfirst
          exact ⟨before, after, rfl, (hpass before).symm.trans hnone, hfirst⟩

/-- Among claims of different accounts, the one that is looked for is the one of its account. -/
theorem find?_producer_eq_some_iff {cs : List Claim} (hcs : (cs.map (·.producer)).Nodup)
    {producer : String} {c : Claim} :
    cs.reverse.find? (fun e => e.producer == producer) = some c ↔
      c ∈ cs ∧ c.producer = producer := by
  constructor
  · intro h
    have hsame := List.find?_some h
    exact ⟨List.mem_reverse.mp (List.mem_of_find?_eq_some h), eq_of_beq hsame⟩
  · rintro ⟨hmem, rfl⟩
    cases hfind : cs.reverse.find? fun e => e.producer == c.producer with
    | none =>
      have hnone := List.find?_eq_none.mp hfind c (List.mem_reverse.mpr hmem)
      exact absurd (beq_self_eq_true _) hnone
    | some e =>
      have hmem' := List.mem_reverse.mp (List.mem_of_find?_eq_some hfind)
      have hsame := List.find?_some hfind
      rw [List.inj_on_of_nodup_map hcs hmem' hmem (eq_of_beq hsame)]

theorem ofNodes_eq_ok_iff {nodes : List Node} {a : Assignment} :
    ofNodes nodes = .ok a ↔
      ((claims nodes).map (·.producer)).Nodup ∧ a = ⟨sorted (claims nodes)⟩ := by
  have hnone := @firstRepeat_eq_none_iff [] (claims nodes)
  simp only [List.not_mem_nil, false_implies, implies_true, and_true] at hnone
  rw [← hnone]
  unfold ofNodes
  cases firstRepeat [] (claims nodes) with
  | none => simp [eq_comm]
  | some found => simp

/-- What is refused is the first claim that repeats one before it. -/
theorem ofNodes_eq_error_iff {nodes : List Node} {why : Rejection} :
    ofNodes nodes = .error why ↔ ∃ before first second after,
      claims nodes = before ++ second :: after ∧ (before.map (·.producer)).Nodup ∧
      first ∈ before ∧ first.producer = second.producer ∧
      why = .duplicateProducer second.producer first.node second.node := by
  have hrepeat : ofNodes nodes = .error why ↔ ∃ first second,
      firstRepeat [] (claims nodes) = some (first, second) ∧
      why = .duplicateProducer second.producer first.node second.node := by
    unfold ofNodes
    cases firstRepeat [] (claims nodes) with
    | none => simp
    | some found =>
      obtain ⟨first, second⟩ := found
      simp [eq_comm]
  have hnone : ∀ before, firstRepeat [] before = none ↔ (before.map (·.producer)).Nodup := by
    intro before
    simp [firstRepeat_eq_none_iff]
  simp only [hrepeat, firstRepeat_eq_some_iff, List.append_nil, hnone]
  constructor
  · rintro ⟨first, second, ⟨before, after, hclaims, hnodup, hfirst⟩, hwhy⟩
    obtain ⟨hmem, hsame⟩ := (find?_producer_eq_some_iff hnodup).mp hfirst
    exact ⟨before, first, second, after, hclaims, hnodup, hmem, hsame, hwhy⟩
  · rintro ⟨before, first, second, after, hclaims, hnodup, hmem, hsame, hwhy⟩
    have hfirst := (find?_producer_eq_some_iff hnodup).mpr ⟨hmem, hsame⟩
    exact ⟨first, second, ⟨before, after, hclaims, hnodup, hfirst⟩, hwhy⟩

/-- There are owners exactly if no exclusive account stands twice, on two nodes or on one. -/
theorem exists_ofNodes_iff {nodes : List Node} : (∃ owners, ofNodes nodes = .ok owners) ↔
    ((nodes.flatMap (·.producers)).filter Account.isExclusive).Nodup := by
  rw [List.filter_flatMap, ← map_producer_claims]
  constructor
  · intro hgiven
    obtain ⟨owners, howners⟩ := hgiven
    exact (ofNodes_eq_ok_iff.mp howners).1
  · intro hnodup
    exact ⟨_, ofNodes_eq_ok_iff.mpr ⟨hnodup, rfl⟩⟩

/-- The owner of an account is the node that claims it. -/
theorem owner?_eq_some_iff {nodes : List Node} {a : Assignment} (h : ofNodes nodes = .ok a)
    {producer : String} {index : Int32} :
    a.owner? producer = some index ↔ ∃ n ∈ nodes, producer ∈ n.producers ∧
      Account.isExclusive producer = true ∧ n.index = index := by
  obtain ⟨hnodup, rfl⟩ := ofNodes_eq_ok_iff.mp h
  have hperm := List.mergeSort_perm ((claims nodes).map fun c => (c.producer, c.index))
    fun a b => decide (a.1 ≤ b.1)
  have hkeys : ((sorted (claims nodes)).map Prod.fst).Nodup := by
    refine (hperm.map Prod.fst).symm.nodup ?_
    rw [List.map_map]
    exact hnodup
  unfold owner?
  rw [lookup_eq_some_iff_mem hkeys, sorted, hperm.mem_iff, List.mem_map]
  simp only [Prod.mk.injEq, mem_claims]
  constructor
  · intro hgiven
    obtain ⟨c, ⟨n, hn, hmem, hexclusive, _, hindex⟩, rfl, rfl⟩ := hgiven
    exact ⟨n, hn, hmem, hexclusive, hindex.symm⟩
  · intro hgiven
    obtain ⟨n, hn, hmem, hexclusive, rfl⟩ := hgiven
    exact ⟨⟨producer, n.name, n.index⟩, ⟨n, hn, hmem, hexclusive, rfl, rfl⟩, rfl, rfl⟩

theorem size_eq {nodes : List Node} {a : Assignment} (h : ofNodes nodes = .ok a) :
    a.size = (claims nodes).length := by
  obtain ⟨_, rfl⟩ := ofNodes_eq_ok_iff.mp h
  simp [size, sorted]

/-- Claims of different accounts are sorted in one way, in whatever order they were made. -/
theorem sorted_perm {cs cs' : List Claim} (h : cs.Perm cs') (hcs : (cs.map (·.producer)).Nodup) :
    sorted cs = sorted cs' := by
  let key (c : Claim) : String × Int32 := (c.producer, c.index)
  have hsorted : ∀ l : List Claim, (sorted l).Pairwise fun a b => decide (a.1 ≤ b.1) = true := by
    intro l
    refine List.pairwise_mergeSort (fun a b c hab hbc => ?_) (fun a b => ?_) (l.map key)
    · exact decide_eq_true (String.le_trans (of_decide_eq_true hab) (of_decide_eq_true hbc))
    · rw [Bool.or_eq_true, decide_eq_true_eq, decide_eq_true_eq]
      exact String.le_total a.1 b.1
  have hperm : (sorted cs).Perm (cs.map key) := List.mergeSort_perm _ _
  have hperm' : (sorted cs').Perm (cs'.map key) := List.mergeSort_perm _ _
  have hkeys : ((sorted cs).map Prod.fst).Nodup := by
    refine (hperm.map Prod.fst).symm.nodup ?_
    rw [List.map_map]
    exact hcs
  have hsame : (sorted cs).Perm (sorted cs') := hperm.trans ((h.map key).trans hperm'.symm)
  refine hsame.eq_of_pairwise (fun a b ha hb hab hba => ?_) (hsorted cs) (hsorted cs')
  have hkey : a.1 = b.1 := String.le_antisymm (of_decide_eq_true hab) (of_decide_eq_true hba)
  exact List.inj_on_of_nodup_map hkeys ha (hsame.mem_iff.mpr hb) hkey

/-- Nodes in another order have the same owners. -/
theorem ofNodes_perm {nodes nodes' : List Node} (h : nodes.Perm nodes') {a : Assignment} :
    ofNodes nodes = .ok a ↔ ofNodes nodes' = .ok a := by
  have hclaims : (claims nodes).Perm (claims nodes') := h.flatMap_right claimsOf
  have hnodup := (hclaims.map (·.producer)).nodup_iff
  rw [ofNodes_eq_ok_iff, ofNodes_eq_ok_iff, ← hnodup]
  refine and_congr_right fun hdistinct => ?_
  rw [sorted_perm hclaims hdistinct]

/-- The accounts that belong to one node alone, as the nodes list them, with the node. -/
def listings (nodes : List Node) : List (String × Node) :=
  (nodes.flatMap fun n => n.producers.map fun p => (p, n)).filter fun l => Account.isExclusive l.1

/-- Going through the listings, an account is met for the second time, after different ones only:
`first` is the node that listed it before and `second` the one that lists it again. -/
def RepeatedFirst (nodes : List Node) (producer first second : String) : Prop :=
  ∃ before n after m, listings nodes = before ++ (producer, n) :: after ∧
    (before.map (·.1)).Nodup ∧ (producer, m) ∈ before ∧ m.name = first ∧ n.name = second

def claimOf (l : String × Node) : Claim := ⟨l.1, l.2.name, l.2.index⟩

theorem claims_eq_map_listings (nodes : List Node) :
    claims nodes = (listings nodes).map claimOf := by
  rw [listings, List.filter_flatMap, List.map_flatMap, claims]
  refine congrArg (nodes.flatMap ·) (funext fun n => ?_)
  rw [claimsOf, List.filter_map, List.map_map]
  rfl

theorem map_producer_claimOf (ls : List (String × Node)) :
    (ls.map claimOf).map (·.producer) = ls.map (·.1) := by
  rw [List.map_map]
  rfl

theorem exists_repeatedFirst_iff {nodes : List Node} {why : Rejection} :
    ofNodes nodes = .error why ↔ ∃ producer first second,
      why = .duplicateProducer producer first second ∧
        RepeatedFirst nodes producer first second := by
  rw [ofNodes_eq_error_iff, claims_eq_map_listings]
  constructor
  · rintro ⟨before, first, second, after, hclaims, hnodup, hmem, hsame, rfl⟩
    obtain ⟨ls, rest, hlistings, rfl, hrest⟩ := List.map_eq_append_iff.mp hclaims
    obtain ⟨⟨producer, n⟩, ls', rfl, rfl, rfl⟩ := List.map_eq_cons_iff.mp hrest
    obtain ⟨⟨producer', m⟩, hm, rfl⟩ := List.mem_map.mp hmem
    rw [map_producer_claimOf] at hnodup
    have heq : producer' = producer := hsame
    subst heq
    exact ⟨producer', m.name, n.name, rfl, ls, n, ls', m, hlistings, hnodup, hm, rfl, rfl⟩
  · rintro ⟨producer, _, _, rfl, before, n, after, m, hlistings, hnodup, hm, rfl, rfl⟩
    refine ⟨before.map claimOf, claimOf (producer, m), claimOf (producer, n), after.map claimOf,
      ?_, ?_, List.mem_map_of_mem hm, rfl, rfl⟩
    · rw [hlistings, List.map_append, List.map_cons]
    · rw [map_producer_claimOf]
      exact hnodup

/-- Nodes have owners exactly if no exclusive account is listed twice, on two nodes or on one. Then
an account is owned by the node that lists it, and there are as many owners as listings. Otherwise
the first account that is listed again is refused, with the node that listed it before and the one
that repeats it. The order of the nodes changes neither whether there are owners nor who they
are. -/
theorem owners_decided (nodes : List Node) :
    ((∃ a, ofNodes nodes = .ok a) ↔
      ((nodes.flatMap (·.producers)).filter Account.isExclusive).Nodup) ∧
    (∀ a, ofNodes nodes = .ok a →
      (∀ producer index, a.owner? producer = some index ↔ Account.isExclusive producer = true ∧
        ∃ n ∈ nodes, producer ∈ n.producers ∧ n.index = index) ∧
      a.size = ((nodes.flatMap (·.producers)).filter Account.isExclusive).length) ∧
    (∀ why, ofNodes nodes = .error why ↔ ∃ producer first second,
      why = .duplicateProducer producer first second ∧
        RepeatedFirst nodes producer first second) ∧
    ∀ nodes', nodes.Perm nodes' → ∀ a, ofNodes nodes = .ok a ↔ ofNodes nodes' = .ok a := by
  refine ⟨exists_ofNodes_iff, fun a ha => ⟨fun producer index => ?_, ?_⟩,
    fun why => exists_repeatedFirst_iff, fun nodes' h a => ofNodes_perm h⟩
  · rw [owner?_eq_some_iff ha]
    constructor
    · rintro ⟨n, hn, hlisted, hexclusive, hindex⟩
      exact ⟨hexclusive, n, hn, hlisted, hindex⟩
    · rintro ⟨hexclusive, n, hn, hlisted, hindex⟩
      exact ⟨n, hn, hlisted, hexclusive, hindex⟩
  · rw [size_eq ha, List.filter_flatMap, ← map_producer_claims, List.length_map]

/-- Two producing nodes beside the bios node, with an account that both hold. In the reverse order
they have the same owners. With the account of the first one on a third node they have none. -/
theorem owners_decided_of_four :
    ∃ (nodes : List Node) (thief : Node) (a : Assignment),
      ofNodes nodes = .ok a ∧ a.owner? "defproducerb" = some 1 ∧ a.size = 2 ∧
      ofNodes nodes.reverse = .ok a ∧
      ofNodes (nodes ++ [thief]) =
        .error (.duplicateProducer "defproducera" "node_00" "node_02") := by
  let node (name : String) (index : Int32) (producers : List String) : Node :=
    ⟨index, name, ⟨name⟩, ⟨name⟩, producers, [], ⟨9876, 8888⟩, false, []⟩
  let nodes : List Node :=
    [node "bios" (-100) ["eosio"], node "node_00" 0 ["defproducera", "shrproducera"],
      node "node_01" 1 ["defproducerb", "shrproducera"]]
  let thief : Node := node "node_02" 2 ["defproducera", "defproducera"]
  obtain ⟨hexists, howners, _, hperm⟩ := owners_decided nodes
  obtain ⟨_, _, hrefused, _⟩ := owners_decided (nodes ++ [thief])
  obtain ⟨a, ha⟩ := hexists.mpr (by decide +kernel)
  obtain ⟨howner, hsize⟩ := howners a ha
  have hrepeated : RepeatedFirst (nodes ++ [thief]) "defproducera" "node_00" "node_02" :=
    ⟨[("defproducera", nodes[1]), ("defproducerb", nodes[2])], thief, [("defproducera", thief)],
      nodes[1], by decide +kernel, by decide, by decide, rfl, rfl⟩
  refine ⟨nodes, thief, a, ha, (howner _ _).mpr ⟨by decide, nodes[2], by simp, by decide, rfl⟩,
    hsize, (hperm _ nodes.reverse_perm.symm a).mp ha, ?_⟩
  exact (hrefused _).mpr ⟨_, _, _, rfl, hrepeated⟩

end Testnet.Assignment
