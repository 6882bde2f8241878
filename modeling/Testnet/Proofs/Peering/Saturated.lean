import Testnet.Proofs.Peering.Star

/-!
# Saturated stars

In each of its turns a node gains a peer that it was not joined with, or else it is joined with all
others already. Nothing is ever taken back, so in the end a node has all the links that it asked
for, or there is no one left for it. The nodes may stand in any order among others; only their names
matter.
-/

namespace Testnet.Peering

/-- Positions of nodes that are told apart by their names. -/
structure Seats (positions : List Nat) (ns : List Node) : Prop where
  once : positions.Nodup
  inside : ∀ p ∈ positions, p < ns.length
  named : ∀ p ∈ positions, ∀ q ∈ positions, ∀ a b, ns[p]? = some a → ns[q]? = some b →
    a.name = b.name → p = q

variable {positions : List Nat} {nodes ns ns' : List Node} {links gap c t p q : Nat}

theorem Seats.of_bare (h : Seats positions nodes) (hns : ns.map Node.bare = nodes.map Node.bare) :
    Seats positions ns where
  once := h.once
  inside := by
    rw [length_of_bare hns]
    exact h.inside
  named := by
    intro p hp q hq a b ha hb hname
    obtain ⟨a', ha', haa⟩ := exists_bare hns ha
    obtain ⟨b', hb', hbb⟩ := exists_bare hns hb
    have hfirst : a'.name = a.name := congrArg (·.name) haa
    have hsecond : b'.name = b.name := congrArg (·.name) hbb
    exact h.named p hp q hq a' b' ha' hb' (hfirst.trans (hname.trans hsecond.symm))

theorem Seats.exists_node (h : Seats positions ns) (hp : p ∈ positions) : ∃ a, ns[p]? = some a :=
  ⟨_, List.getElem?_eq_getElem (h.inside p hp)⟩

theorem lists_iff_mem {a b : Node} (ha : ns[p]? = some a) (hb : ns[q]? = some b) :
    Lists ns p q ↔ b.name ∈ a.peers := by
  simp only [Lists, ha, hb, Option.some.injEq, ← Node.hasPeer_iff]
  constructor
  · intro hgiven
    obtain ⟨_, _, rfl, rfl, hpeer⟩ := hgiven
    exact hpeer
  · intro hpeer
    exact ⟨a, b, rfl, rfl, hpeer⟩

/-- One node has taken on another as its last peer, and nothing else has changed. -/
def Extended (ns ns' : List Node) (c : Nat) (peer : String) : Prop :=
  ∀ k : Nat, ns'[k]? = ns[k]?.map fun m =>
    if k = c then { m with peers := m.peers ++ [peer] } else m

theorem mem_around_seats {start : Nat} :
    p ∈ positions.drop start ++ positions.take start ↔ p ∈ positions := by
  rw [List.perm_append_comm.mem_iff, List.take_append_drop]

/-- What a node does in its turn: it dials another that it is not joined with, or it is joined with
all others and leaves everything as it is. -/
theorem dialStar_cases (h : Seats positions ns) {i l : Nat} (hc : positions[i]? = some c) :
    (∃ t ∈ positions, ∃ b, t ≠ c ∧ ns[t]? = some b ∧ ¬ Joined ns c t ∧
      Extended ns (dialStar positions links gap ns i l).value c b.name) ∨
    ((dialStar positions links gap ns i l).value = ns ∧
      ∀ q ∈ positions, q ≠ c → Joined ns c q) := by
  have hmem : c ∈ positions := List.mem_of_getElem? hc
  have hfree : ∀ q ∈ positions, areFree ns c q = true ↔ c ≠ q ∧ ¬ Joined ns c q := fun q hq =>
    areFree_iff (h.inside c hmem) (h.inside q hq)
  obtain ⟨a, ha⟩ := h.exists_node hmem
  unfold dialStar
  simp only [hc]
  cases hfind : freePartner ns positions c ((i + l * gap) % positions.length) with
  | none =>
    refine .inr ⟨rfl, fun q hq hne => ?_⟩
    have hnot := List.find?_eq_none.mp hfind q (mem_around_seats.mpr hq)
    rw [hfree q hq, not_and, Classical.not_not] at hnot
    exact hnot hne.symm
  | some t =>
    have ht : t ∈ positions := mem_around_seats.mp (List.mem_of_find?_eq_some hfind)
    obtain ⟨hne, hnot⟩ := (hfree t ht).mp (List.find?_some hfind)
    obtain ⟨b, hb⟩ := h.exists_node ht
    have haccepts : a.accepts b.name = true := by
      refine Node.accepts_iff.mpr ⟨fun hname => ?_, fun hpeer => ?_⟩
      · exact hne (h.named c hmem t ht a b ha hb hname.symm)
      · exact hnot (.inl ((lists_iff_mem ha hb).mpr hpeer))
    refine .inl ⟨t, ht, b, hne.symm, hb, hnot, fun k => ?_⟩
    show (dial ns ⟨c, t⟩).value[k]? = _
    rw [value_dial]
    simp only [ha, hb]
    rw [getElem?_addPeerAt]
    by_cases hk : k = c
    · rw [hk, ha, Option.map_some, Option.map_some, if_pos rfl, if_pos rfl, Node.addPeer,
        if_pos haccepts]
    · simp only [hk, Ne.symm hk, if_false]

namespace Extended

variable {peer : String} {a : Node}

theorem exists_before (h : Extended ns ns' c peer) (ha : ns'[p]? = some a) :
    ∃ a₀, ns[p]? = some a₀ ∧ a.name = a₀.name ∧
      a.peers = a₀.peers ++ if p = c then [peer] else [] := by
  rw [h, Option.map_eq_some_iff] at ha
  obtain ⟨a₀, ha₀, rfl⟩ := ha
  refine ⟨a₀, ha₀, ?_, ?_⟩
  · split <;> rfl
  · split
    · rfl
    · exact (List.append_nil _).symm

theorem exists_after (h : Extended ns ns' c peer) (ha : ns[p]? = some a) :
    ∃ a', ns'[p]? = some a' ∧ a'.name = a.name := by
  rw [h, ha]
  refine ⟨_, rfl, ?_⟩
  split <;> rfl

theorem bare (h : Extended ns ns' c peer) : ns'.map Node.bare = ns.map Node.bare := by
  apply List.ext_getElem?
  intro k
  rw [List.getElem?_map, List.getElem?_map, h, Option.map_map]
  refine congrArg (Option.map · ns[k]?) (funext fun m => ?_)
  show Node.bare (if k = c then _ else m) = m.bare
  split <;> rfl

/-- Who lists whom afterwards. -/
theorem lists_iff {b : Node} (h : Extended ns ns' c b.name) (hseats : Seats positions ns)
    (ht : t ∈ positions) (hb : ns[t]? = some b) (hp : p ∈ positions) (hq : q ∈ positions) :
    Lists ns' p q ↔ Lists ns p q ∨ (p = c ∧ q = t) := by
  obtain ⟨a, ha⟩ := hseats.exists_node hp
  obtain ⟨d, hd⟩ := hseats.exists_node hq
  obtain ⟨a', ha', _⟩ := h.exists_after ha
  obtain ⟨d', hd', hname⟩ := h.exists_after hd
  obtain ⟨_, hbefore, _, hpeers⟩ := h.exists_before ha'
  rw [ha] at hbefore
  cases hbefore
  have hsame : d.name = b.name ↔ q = t := by
    refine ⟨hseats.named q hq t ht d b hd hb, ?_⟩
    rintro rfl
    rw [hd] at hb
    cases hb
    rfl
  rw [lists_iff_mem ha' hd', lists_iff_mem ha hd, hname, hpeers, List.mem_append, ← hsame]
  refine or_congr_right ?_
  by_cases hpc : p = c
  · simp [hpc]
  · simp [hpc]

end Extended

/-- What holds between the turns of a star, when each number on the ring has taken some. Only the
nodes of the star have changed, by peers that are others of them. A node has a peer for each turn
that it took, or else it is joined with all others. -/
structure Balanced (positions : List Nat) (taken : Nat → Nat) (nodes ns : List Node) : Prop where
  bare : ns.map Node.bare = nodes.map Node.bare
  others : ∀ p, p ∉ positions → ns[p]? = nodes[p]?
  once : ∀ p ∈ positions, ∀ a, ns[p]? = some a → a.peers.Nodup
  known : ∀ p ∈ positions, ∀ a, ns[p]? = some a → ∀ peer ∈ a.peers,
    ∃ q ∈ positions, q ≠ p ∧ ∃ b, ns[q]? = some b ∧ b.name = peer
  oneWay : ∀ p ∈ positions, ∀ q ∈ positions, Lists ns p q → ¬ Lists ns q p
  spent : ∀ k p a, positions[k]? = some p → ns[p]? = some a → a.peers.length ≤ taken k ∧
    (a.peers.length < taken k → ∀ q ∈ positions, q ≠ p → Joined ns p q)

namespace Balanced

variable {taken : Nat → Nat} {i l : Nat}

/-- Dialling a node that is free keeps the balance. -/
theorem of_extended (h : Balanced positions taken nodes ns) (hseats : Seats positions ns)
    (hc : positions[i]? = some c) (ht : t ∈ positions) (hne : t ≠ c) {b : Node}
    (hb : ns[t]? = some b) (hfree : ¬ Joined ns c t) (hext : Extended ns ns' c b.name) :
    Balanced positions (fun k => taken k + if k = i then 1 else 0) nodes ns' := by
  have hmem : c ∈ positions := List.mem_of_getElem? hc
  have hlists : ∀ p ∈ positions, ∀ q ∈ positions,
      (Lists ns' p q ↔ Lists ns p q ∨ (p = c ∧ q = t)) :=
    fun p hp q hq => hext.lists_iff hseats ht hb hp hq
  constructor
  case bare => exact hext.bare.trans h.bare
  case others =>
    intro p hp
    have hpc : p ≠ c := fun heq => hp (heq ▸ hmem)
    rw [hext, ← h.others p hp]
    simp [hpc]
  case once =>
    intro p hp a ha
    obtain ⟨a₀, ha₀, _, hpeers⟩ := hext.exists_before ha
    have honce := h.once p hp a₀ ha₀
    rw [hpeers]
    by_cases hpc : p = c
    · subst hpc
      have hnew : b.name ∉ a₀.peers := fun hpeer =>
        hfree (.inl ((lists_iff_mem ha₀ hb).mpr hpeer))
      have hlonger := honce.concat hnew
      rwa [if_pos rfl, ← List.concat_eq_append]
    · rwa [if_neg hpc, List.append_nil]
  case known =>
    intro p hp a ha peer hpeer
    obtain ⟨a₀, ha₀, _, hpeers⟩ := hext.exists_before ha
    rw [hpeers, List.mem_append] at hpeer
    rcases hpeer with hold | hnew
    · obtain ⟨q, hq, hqp, d, hd, hname⟩ := h.known p hp a₀ ha₀ peer hold
      obtain ⟨d', hd', hname'⟩ := hext.exists_after hd
      exact ⟨q, hq, hqp, d', hd', hname'.trans hname⟩
    · by_cases hpc : p = c
      · rw [if_pos hpc, List.mem_singleton] at hnew
        obtain ⟨b', hb', hname'⟩ := hext.exists_after hb
        exact ⟨t, ht, hpc ▸ hne, b', hb', hname'.trans hnew.symm⟩
      · rw [if_neg hpc] at hnew
        cases hnew
  case oneWay =>
    intro p hp q hq hpq hqp
    rw [hlists p hp q hq] at hpq
    rw [hlists q hq p hp] at hqp
    rcases hpq with hpq | ⟨rfl, rfl⟩
    · rcases hqp with hqp | ⟨rfl, rfl⟩
      · exact h.oneWay p hp q hq hpq hqp
      · exact hfree (.inr hpq)
    · rcases hqp with hqp | ⟨heq, _⟩
      · exact hfree (.inr hqp)
      · exact hne heq
  case spent =>
    intro k p a hk ha
    have hp : p ∈ positions := List.mem_of_getElem? hk
    obtain ⟨a₀, ha₀, _, hpeers⟩ := hext.exists_before ha
    obtain ⟨hfew, hfull⟩ := h.spent k p a₀ hk ha₀
    have hjoined : a₀.peers.length < taken k → ∀ q ∈ positions, q ≠ p → Joined ns' p q := by
      intro hlt q hq hqp
      refine (hfull hlt q hq hqp).imp ?_ ?_
      · exact fun hpq => (hlists p hp q hq).mpr (.inl hpq)
      · exact fun hqp => (hlists q hq p hp).mpr (.inl hqp)
    have hturn : p = c ↔ k = i := by
      refine ⟨?_, ?_⟩
      · rintro rfl
        exact (List.getElem?_inj (List.getElem?_eq_some_iff.mp hk).1 hseats.once).mp
          (hk.trans hc.symm)
      · rintro rfl
        rw [hk] at hc
        cases hc
        rfl
    have hlength : a.peers.length = a₀.peers.length + if k = i then 1 else 0 := by
      rw [hpeers, List.length_append]
      simp only [hturn]
      split <;> rfl
    refine ⟨by omega, fun hlt => hjoined (by omega)⟩

/-- One turn. -/
theorem after_turn (h : Balanced positions taken nodes ns) (hseats : Seats positions nodes)
    (hi : i < positions.length) :
    Balanced positions (fun k => taken k + if k = i then 1 else 0) nodes
      (dialStar positions links gap ns i l).value := by
  have hc : positions[i]? = some positions[i] := List.getElem?_eq_getElem hi
  have hnow : Seats positions ns := hseats.of_bare h.bare
  rcases dialStar_cases hnow hc with ⟨t, ht, b, hne, hb, hfree, hext⟩ | ⟨hsame, hall⟩
  · exact h.of_extended hnow hc ht hne hb hfree hext
  · rw [hsame]
    refine ⟨h.bare, h.others, h.once, h.known, h.oneWay, fun k p a hk ha => ?_⟩
    obtain ⟨hfew, hfull⟩ := h.spent k p a hk ha
    refine ⟨by omega, fun hlt => ?_⟩
    by_cases hki : k = i
    · subst hki
      rw [hc] at hk
      cases hk
      exact hall
    · exact hfull (by simpa [hki] using hlt)

/-- All turns of a list. -/
theorem after_turns (h : Balanced positions taken nodes ns) (hseats : Seats positions nodes)
    {turns : List (Nat × Nat)} (hturns : ∀ turn ∈ turns, turn.1 < positions.length) :
    Balanced positions (fun k => taken k + turns.countP (·.1 == k)) nodes
      (turns.foldl (fun ns turn => (dialStar positions links gap ns turn.1 turn.2).value)
        ns) := by
  induction turns generalizing ns taken with
  | nil => exact h
  | cons turn rest ih =>
    obtain ⟨hturn, hrest⟩ := List.forall_mem_cons.mp hturns
    have hone : Balanced positions (fun k => taken k + if k = turn.1 then 1 else 0) nodes
        (dialStar positions links gap ns turn.1 turn.2).value := h.after_turn hseats hturn
    have hlater := ih hone hrest
    have hcount : (fun k => taken k + (turn :: rest).countP (·.1 == k)) =
        fun k => taken k + (if k = turn.1 then 1 else 0) + rest.countP (·.1 == k) := by
      funext k
      rw [List.countP_cons, Nat.add_assoc, Nat.add_comm (rest.countP _)]
      simp only [beq_iff_eq, @eq_comm _ k turn.1]
    rw [List.foldl_cons, hcount]
    exact hlater

end Balanced

/-- Every number takes as many turns as there are links. -/
theorem countP_starTurns {n k : Nat} (hk : k < n) :
    (starTurns n links).countP (·.1 == k) = links := by
  have hrow : ∀ i, ((List.range' 1 links).map fun l => (i, l)).filter (·.1 == k) =
      if i == k then (List.range' 1 links).map fun l => (i, l) else [] := by
    intro i
    rw [List.filter_map]
    cases hik : i == k <;> simp [Function.comp_def, hik]
  rw [List.countP_eq_length_filter, starTurns, List.filter_flatMap]
  simp only [hrow]
  rw [flatMap_ite, filter_beq_of_nodup List.nodup_range, if_pos (List.mem_range.mpr hk),
    List.flatMap_singleton, List.length_map, List.length_range']

theorem Seats.of_names (hnames : ((regularNodes nodes).map (·.name)).Nodup) :
    Seats (regularPositions nodes) nodes where
  once := nodup_regularPositions nodes
  inside := by
    intro p hp
    obtain ⟨a, ha, _⟩ := mem_regularPositions.mp hp
    exact (List.getElem?_eq_some_iff.mp ha).1
  named := by
    intro p hp q hq a b ha hb hname
    have hall := congrArg (List.map (Option.map (·.name))) (map_regularPositions nodes)
    rw [List.map_map, List.map_map] at hall
    have hnodup : ((regularPositions nodes).map fun p => nodes[p]?.map (·.name)).Nodup := by
      have hsome := hnames.map (Option.some_injective _)
      rw [List.map_map] at hsome
      exact hall.symm ▸ hsome
    refine List.inj_on_of_nodup_map hnodup hp hq ?_
    rw [ha, hb, Option.map_some, Option.map_some, hname]

/-- Nobody has taken a turn yet. -/
theorem balanced_of_silent (hsilent : ∀ p ∈ positions, ∀ a, nodes[p]? = some a → a.peers = []) :
    Balanced positions (fun _ => 0) nodes nodes where
  bare := rfl
  others := fun _ _ => rfl
  once := by
    intro p hp a ha
    rw [hsilent p hp a ha]
    exact List.nodup_nil
  known := by
    intro p hp a ha peer hpeer
    rw [hsilent p hp a ha] at hpeer
    cases hpeer
  oneWay := by
    intro p hp q _ hlists
    obtain ⟨a, _, ha, _, hpeer⟩ := hlists
    rw [Node.hasPeer_iff, hsilent p hp a ha] at hpeer
    cases hpeer
  spent := by
    intro k p a hk ha
    rw [hsilent p (List.mem_of_getElem? hk) a ha]
    exact ⟨Nat.le_refl 0, fun hlt => absurd hlt (Nat.lt_irrefl 0)⟩

theorem Balanced.congr {taken taken' : Nat → Nat} (h : Balanced positions taken nodes ns)
    (heq : ∀ k < positions.length, taken k = taken' k) : Balanced positions taken' nodes ns := by
  refine ⟨h.bare, h.others, h.once, h.known, h.oneWay, fun k p a hk ha => ?_⟩
  rw [← heq k (List.getElem?_eq_some_iff.mp hk).1]
  exact h.spent k p a hk ha

theorem balanced_star (hseats : Seats (regularPositions nodes) nodes)
    (hcount : 4 ≤ (regularPositions nodes).length)
    (hsilent : ∀ p ∈ regularPositions nodes, ∀ a, nodes[p]? = some a → a.peers = []) :
    Balanced (regularPositions nodes) (fun _ => starLinks (regularPositions nodes).length) nodes
      (star nodes).value := by
  unfold star
  simp only [if_neg (Nat.not_lt.mpr hcount), Logged.value_bind, Logged.value_foldlM]
  refine ((balanced_of_silent hsilent).after_turns hseats fun turn hturn => ?_).congr
    fun k hk => ?_
  · exact (mem_starTurns.mp hturn).1
  · rw [Nat.zero_add, countP_starTurns hk]

/-- What a star promises about its nodes when each asked for so many links. -/
structure Saturated (links : Nat) (regular : List Node) : Prop where
  known : ∀ a ∈ regular, ∀ peer ∈ a.regularPeers, ∃ b ∈ regular, b.name = peer
  apart : ∀ a ∈ regular, a.name ∉ a.peers
  once : ∀ a ∈ regular, a.peers.Nodup
  oneWay : ∀ a ∈ regular, ∀ b ∈ regular, b.name ∈ a.peers → a.name ∉ b.peers
  few : ∀ a ∈ regular, a.regularPeers.length ≤ links
  full : ∀ a ∈ regular, a.regularPeers.length < links → ∀ b ∈ regular, b.name ≠ a.name →
    b.name ∈ a.peers ∨ a.name ∈ b.peers

section Bios

/-- A regular node in the end, and how it was before it dialled the bios node. -/
structure Seated (nodes ns : List Node) (a : Node) (p : Nat) (before : Node) : Prop where
  position : p ∈ regularPositions nodes
  get : ns[p]? = some before
  name_eq : a.name = before.name
  reserved : a.name ≠ Node.biosName
  bios : Node.biosName ∉ before.peers
  peers_eq : a.peers = before.peers ++ (if nodes.any Node.isBios then [Node.biosName] else [])

namespace Seated

variable {a b before before' : Node}

theorem mem_peers_iff (ha : Seated nodes ns a p before) (hb : Seated nodes ns b q before') :
    b.name ∈ a.peers ↔ Lists ns p q := by
  rw [lists_iff_mem ha.get hb.get, ← hb.name_eq, ha.peers_eq, List.mem_append]
  refine or_iff_left fun hbios => hb.reserved ?_
  split at hbios
  · exact List.mem_singleton.mp hbios
  · cases hbios

theorem regularPeers_eq (ha : Seated nodes ns a p before) : a.regularPeers = before.peers := by
  apply Node.regularPeers_eq ha.peers_eq ha.bios
  intro peer hpeer
  split at hpeer
  · exact List.mem_singleton.mp hpeer
  · cases hpeer

theorem name_eq_iff (ha : Seated nodes ns a p before) (hb : Seated nodes ns b q before')
    (hseats : Seats (regularPositions nodes) ns) : b.name = a.name ↔ q = p := by
  rw [ha.name_eq, hb.name_eq]
  refine ⟨hseats.named q hb.position p ha.position before' before hb.get ha.get, ?_⟩
  rintro rfl
  exact congrArg (·.name) (Option.some.inj (hb.get.symm.trans ha.get))

end Seated

variable {taken : Nat → Nat}

/-- The peers of the star come first, then the bios node. -/
theorem Balanced.exists_seated (h : Balanced (regularPositions nodes) taken nodes ns)
    (hreserved : ∀ a ∈ regularNodes nodes, a.name ≠ Node.biosName) {a : Node}
    (ha : a ∈ regularNodes (dialBios ns (regularPositions nodes))) :
    ∃ p before, Seated nodes ns a p before := by
  have hnamed : ∀ q ∈ regularPositions nodes, ∀ b, ns[q]? = some b → b.name ≠ Node.biosName := by
    intro q hq b hb
    obtain ⟨b', hb', hbare⟩ := exists_bare h.bare hb
    have hname : b'.name = b.name := congrArg (·.name) hbare
    rw [← hname]
    exact hreserved b' (mem_regularNodes.mpr ⟨q, hq, hb'⟩)
  have hbare := (bare_dialBios ns (regularPositions nodes)).trans h.bare
  obtain ⟨p, hp, hget⟩ := mem_regularNodes.mp ha
  rw [regularPositions_congr hbare] at hp
  rw [getElem?_dialBios, Option.map_eq_some_iff] at hget
  obtain ⟨before, hbefore, rfl⟩ := hget
  have hname := hnamed p hp before hbefore
  have hbios : Node.biosName ∉ before.peers := by
    intro hpeer
    obtain ⟨q, hq, _, b, hb, hsame⟩ := h.known p hp before hbefore _ hpeer
    exact hnamed q hq b hb hsame
  refine ⟨p, before, hp, hbefore, Node.name_addPeers .., ?_, hbios, ?_⟩
  · rwa [Node.name_addPeers]
  · rw [biosDialled, any_isBios_congr h.bare, filter_beq_of_nodup (nodup_regularPositions nodes),
      if_pos hp]
    split
    · have hlonger := (h.once p hp before hbefore).concat hbios
      rw [List.concat_eq_append] at hlonger
      have hself : before.name ∉ [Node.biosName] := mt List.mem_singleton.mp hname
      exact congrArg Node.peers (Node.addPeers_of_new hself hlonger)
    · exact (List.append_nil _).symm

theorem Balanced.exists_regular (h : Balanced (regularPositions nodes) taken nodes ns)
    (hp : p ∈ regularPositions nodes) {before : Node} (hbefore : ns[p]? = some before) :
    ∃ a ∈ regularNodes (dialBios ns (regularPositions nodes)), a.name = before.name := by
  have hbare := (bare_dialBios ns (regularPositions nodes)).trans h.bare
  have hget := getElem?_dialBios ns (regularPositions nodes) p
  rw [hbefore, Option.map_some] at hget
  refine ⟨_, mem_regularNodes.mpr ⟨p, ?_, hget⟩, Node.name_addPeers ..⟩
  rwa [regularPositions_congr hbare]

/-- A star in which each node has taken as many turns as there are links is saturated, and stays so
when all dial the bios node. -/
theorem Balanced.saturated (h : Balanced (regularPositions nodes) (fun _ => links) nodes ns)
    (hseats : Seats (regularPositions nodes) nodes)
    (hreserved : ∀ a ∈ regularNodes nodes, a.name ≠ Node.biosName) :
    Saturated links (regularNodes (dialBios ns (regularPositions nodes))) := by
  have hnow : Seats (regularPositions nodes) ns := hseats.of_bare h.bare
  have hspent : ∀ {a p before}, Seated nodes ns a p before → before.peers.length ≤ links ∧
      (before.peers.length < links → ∀ q ∈ regularPositions nodes, q ≠ p → Joined ns p q) := by
    intro a p before ha
    obtain ⟨k, hk⟩ := List.mem_iff_getElem?.mp ha.position
    exact h.spent k p before hk ha.get
  constructor
  case known =>
    intro a ha peer hpeer
    obtain ⟨p, before, hseated⟩ := h.exists_seated hreserved ha
    rw [hseated.regularPeers_eq] at hpeer
    obtain ⟨q, hq, _, b, hb, rfl⟩ := h.known p hseated.position before hseated.get peer hpeer
    exact h.exists_regular hq hb
  case apart =>
    intro a ha hself
    obtain ⟨p, before, hseated⟩ := h.exists_seated hreserved ha
    have hlists := (hseated.mem_peers_iff hseated).mp hself
    exact h.oneWay p hseated.position p hseated.position hlists hlists
  case once =>
    intro a ha
    obtain ⟨p, before, hseated⟩ := h.exists_seated hreserved ha
    have honce := h.once p hseated.position before hseated.get
    rw [hseated.peers_eq]
    split
    · rw [← List.concat_eq_append]
      exact honce.concat hseated.bios
    · rwa [List.append_nil]
  case oneWay =>
    intro a ha b hb hpeer hback
    obtain ⟨p, before, hseated⟩ := h.exists_seated hreserved ha
    obtain ⟨q, before', hother⟩ := h.exists_seated hreserved hb
    exact h.oneWay p hseated.position q hother.position ((hseated.mem_peers_iff hother).mp hpeer)
      ((hother.mem_peers_iff hseated).mp hback)
  case few =>
    intro a ha
    obtain ⟨p, before, hseated⟩ := h.exists_seated hreserved ha
    rw [hseated.regularPeers_eq]
    exact (hspent hseated).1
  case full =>
    intro a ha hlt b hb hne
    obtain ⟨p, before, hseated⟩ := h.exists_seated hreserved ha
    obtain ⟨q, before', hother⟩ := h.exists_seated hreserved hb
    rw [hseated.regularPeers_eq] at hlt
    rw [hseated.mem_peers_iff hother, hother.mem_peers_iff hseated]
    exact (hspent hseated).2 hlt q hother.position
      fun heq => hne ((hseated.name_eq_iff hother hnow).mpr heq)

end Bios

/-- Stars of at least four regular nodes. Apart from what the regular nodes dial nothing changes:
at most `starLinks` others of them, and fewer only if all others are joined with it already, then
the bios node. Their names must be different from each other and from that of the bios node, for
nodes are known by name. -/
theorem connect_star_saturated (producers : Nat) (nodes : List Node)
    (hcount : 4 ≤ (regularNodes nodes).length)
    (hnames : ((regularNodes nodes).map (·.name)).Nodup)
    (hreserved : ∀ a ∈ regularNodes nodes, a.name ≠ Node.biosName)
    (hsilent : ∀ a ∈ regularNodes nodes, a.peers = []) :
    ∃ ns, (connect .star producers nodes).value = ⟨ns, .ok ()⟩ ∧
      ns.map Node.bare = nodes.map Node.bare ∧
      (∀ (p : Nat) a, nodes[p]? = some a → a.isBios = true → ns[p]? = some a) ∧
      Saturated (starLinks (regularNodes nodes).length) (regularNodes ns) ∧
      (nodes.any Node.isBios = true →
        ∀ a ∈ regularNodes ns, a.peers.getLast? = some Node.biosName) := by
  have hseats := Seats.of_names hnames
  have hbalanced := balanced_star hseats (by rwa [length_regularPositions]) fun p hp a ha =>
    hsilent a (mem_regularNodes.mpr ⟨p, hp, ha⟩)
  rw [length_regularPositions] at hbalanced
  refine ⟨dialBios (star nodes).value (regularPositions nodes), connect_of_dialsBios rfl ..,
    (bare_dialBios _ _).trans hbalanced.bare, ?_, hbalanced.saturated hseats hreserved, ?_⟩
  · intro p a ha hbios
    have hout : p ∉ regularPositions nodes := by
      intro hp
      obtain ⟨b, hb, hregular⟩ := mem_regularPositions.mp hp
      rw [ha] at hb
      cases hb
      rw [hbios] at hregular
      cases hregular
    rw [getElem?_dialBios, hbalanced.others p hout, ha, biosDialled,
      filter_beq_of_nodup (nodup_regularPositions nodes), if_neg hout]
    split <;> rfl
  · intro hany a ha
    obtain ⟨p, before, hseated⟩ := hbalanced.exists_seated hreserved ha
    rw [hseated.peers_eq, if_pos hany]
    exact List.getLast?_concat ..

/-- Five nodes are too few for all of their links. -/
theorem connect_star_saturated_of_five : ∃ nodes ns : List Node,
    (regularNodes nodes).length = 5 ∧ (connect .star 0 nodes).value = ⟨ns, .ok ()⟩ ∧
      Saturated 4 (regularNodes ns) ∧ (regularNodes ns).map (·.regularPeers.length) =
        [4, 3, 2, 1, 0] := by
  let f : Factory := ⟨⟨"etc"⟩, ⟨"var"⟩, 6, 0⟩
  let nodes := f.made .standard 6
  have hlength : (regularNodes nodes).length = 5 := by decide +kernel
  have hlinks : starLinks 5 = 4 := by decide +kernel
  have hnames : ((regularNodes nodes).map (·.name)).Nodup := by decide +kernel
  have hreserved : ∀ a ∈ regularNodes nodes, a.name ≠ Node.biosName := by decide +kernel
  have hsilent : ∀ a ∈ regularNodes nodes, a.peers = [] := by decide +kernel
  obtain ⟨ns, hconnect, _, _, hsaturated, _⟩ :=
    connect_star_saturated 0 nodes (by omega) hnames hreserved hsilent
  rw [hlength, hlinks] at hsaturated
  refine ⟨nodes, ns, hlength, hconnect, hsaturated, ?_⟩
  have hns : ns = (connect .star 0 nodes).value.nodes := by rw [hconnect]
  rw [hns]
  decide +kernel

end Testnet.Peering
