import Testnet.Proofs.Peering.Dial

/-!
# Ways through a network

Nodes are joined when either has the other as a peer. A way from one position to another uses
joined nodes only, and may be asked to keep to some of the positions, as if the others were taken
away. Followed along links, peers are known by the links alone as long as the names are different.
-/

namespace Testnet.Peering

/-- The node at the first position has the one at the second as a peer. -/
def Lists (nodes : List Node) (i j : Nat) : Prop :=
  ∃ a b, nodes[i]? = some a ∧ nodes[j]? = some b ∧ a.hasPeer b.name = true

def Joined (nodes : List Node) (i j : Nat) : Prop := Lists nodes i j ∨ Lists nodes j i

/-- There is a way between two positions that stays within those kept. -/
inductive Reaches (nodes : List Node) (kept : Nat → Prop) : Nat → Nat → Prop where
  | here {i : Nat} : kept i → Reaches nodes kept i i
  | step {i j k : Nat} : Reaches nodes kept i j → kept k → Joined nodes j k →
      Reaches nodes kept i k

theorem Joined.symm {nodes : List Node} {i j : Nat} (h : Joined nodes i j) : Joined nodes j i :=
  Or.symm h

namespace Reaches

variable {nodes : List Node} {kept : Nat → Prop} {i j k : Nat}

theorem kept_right (h : Reaches nodes kept i j) : kept j := by
  cases h with
  | here hi => exact hi
  | step _ hj _ => exact hj

theorem trans (h : Reaches nodes kept i j) (h' : Reaches nodes kept j k) :
    Reaches nodes kept i k := by
  induction h' with
  | here _ => exact h
  | step _ hk hjoined ih => exact ih.step hk hjoined

theorem of_joined (hi : kept i) (hj : kept j) (h : Joined nodes i j) :
    Reaches nodes kept i j := (here hi).step hj h

theorem symm (h : Reaches nodes kept i j) : Reaches nodes kept j i := by
  induction h with
  | here hi => exact here hi
  | step hij hk hjoined ih => exact (of_joined hk hij.kept_right hjoined.symm).trans ih

/-- A way never leaves a set of positions that no joined pair leaves. -/
theorem mem_of_closed {S : Nat → Prop} (hclosed : ∀ a b, S a → kept b → Joined nodes a b → S b)
    (h : Reaches nodes kept i j) (hi : S i) : S j := by
  induction h with
  | here _ => exact hi
  | step _ hk hjoined ih => exact hclosed _ _ ih hk hjoined

/-- A way stays one where no joined pair of kept positions is parted. -/
theorem imp {nodes' : List Node}
    (hjoined : ∀ a b, kept a → kept b → Joined nodes a b → Joined nodes' a b)
    (h : Reaches nodes kept i j) : Reaches nodes' kept i j := by
  induction h with
  | here hi => exact here hi
  | step hij hk hstep ih => exact ih.step hk (hjoined _ _ hij.kept_right hk hstep)

end Reaches

/-- Names tell the nodes apart. -/
def Distinct (nodes : List Node) : Prop :=
  ∀ ⦃i j : Nat⦄ ⦃a b : Node⦄, nodes[i]? = some a → nodes[j]? = some b → a.name = b.name → i = j

section Peers

variable {nodes ns ns' : List Node} {i j : Nat}

theorem lists_iff (hi : i < nodes.length) (hj : j < nodes.length) :
    Lists nodes i j ↔ nodes[i].hasPeer nodes[j].name = true := by
  simp only [Lists, List.getElem?_eq_getElem hi, List.getElem?_eq_getElem hj, Option.some.injEq]
  constructor
  · intro hgiven
    obtain ⟨_, _, rfl, rfl, hpeer⟩ := hgiven
    exact hpeer
  · intro hpeer
    exact ⟨_, _, rfl, rfl, hpeer⟩

/-- Nodes that differ in peers alone stand at the same positions. -/
theorem exists_bare (hns : ns.map Node.bare = nodes.map Node.bare) {a : Node}
    (ha : ns[i]? = some a) : ∃ a', nodes[i]? = some a' ∧ a'.bare = a.bare := by
  have hi := congrArg (fun l : List Node => l[i]?) hns
  simp only [List.getElem?_map, ha, Option.map_some] at hi
  exact Option.map_eq_some_iff.mp hi.symm

theorem length_of_bare (hns : ns.map Node.bare = nodes.map Node.bare) :
    ns.length = nodes.length := by
  have hlength := congrArg List.length hns
  rwa [List.length_map, List.length_map] at hlength

theorem Distinct.of_bare (h : Distinct nodes) (hns : ns.map Node.bare = nodes.map Node.bare) :
    Distinct ns := by
  intro i j a b ha hb hname
  obtain ⟨a', ha', haa⟩ := exists_bare hns ha
  obtain ⟨b', hb', hbb⟩ := exists_bare hns hb
  have hfirst : a'.name = a.name := congrArg (·.name) haa
  have hsecond : b'.name = b.name := congrArg (·.name) hbb
  exact h ha' hb' (hfirst.trans (hname.trans hsecond.symm))

/-- When all nodes take on peers, those who list each other afterwards did so before or were given
to each other. -/
theorem lists_given_iff (h : Distinct ns) {given : Nat → List String}
    (hget : ∀ k : Nat, ns'[k]? = ns[k]?.map (·.addPeers (given k))) :
    Lists ns' i j ↔ Lists ns i j ∨
      (i ≠ j ∧ ∃ a b, ns[i]? = some a ∧ ns[j]? = some b ∧ b.name ∈ given i) := by
  simp only [Lists, hget, Option.map_eq_some_iff, Node.hasPeer_iff]
  constructor
  · intro hgiven
    obtain ⟨_, _, ⟨a, ha, rfl⟩, ⟨b, hb, rfl⟩, hpeer⟩ := hgiven
    rw [Node.mem_peers_addPeers, Node.name_addPeers] at hpeer
    rcases hpeer with hold | ⟨hnew, hne⟩
    · exact .inl ⟨a, b, ha, hb, hold⟩
    · refine .inr ⟨?_, a, b, ha, hb, hnew⟩
      rintro rfl
      rw [ha] at hb
      cases hb
      exact hne rfl
  · intro hcase
    rcases hcase with ⟨a, b, ha, hb, hold⟩ | ⟨hij, a, b, ha, hb, hnew⟩
    · refine ⟨_, _, ⟨a, ha, rfl⟩, ⟨b, hb, rfl⟩, ?_⟩
      rw [Node.mem_peers_addPeers, Node.name_addPeers]
      exact .inl hold
    · refine ⟨_, _, ⟨a, ha, rfl⟩, ⟨b, hb, rfl⟩, ?_⟩
      rw [Node.mem_peers_addPeers, Node.name_addPeers]
      exact .inr ⟨hnew, fun hname => hij (h ha hb hname.symm)⟩

/-- Links add themselves to who lists whom, and nothing else. -/
theorem lists_dialAll_iff (h : Distinct ns) {links : List Link} :
    Lists (dialAll ns links).value i j ↔
      Lists ns i j ∨ (i ≠ j ∧ i < ns.length ∧ j < ns.length ∧ ⟨i, j⟩ ∈ links) := by
  rw [lists_given_iff h (getElem?_dialAll ns links)]
  simp only [mem_dialled]
  constructor
  · intro hcase
    rcases hcase with hold | ⟨hij, a, b, ha, hb, k, t, hl, ht, hname⟩
    · exact .inl hold
    · exact .inr ⟨hij, (List.getElem?_eq_some_iff.mp ha).1, (List.getElem?_eq_some_iff.mp hb).1,
        h ht hb hname ▸ hl⟩
  · intro hcase
    rcases hcase with hold | ⟨hij, hi, hj, hl⟩
    · exact .inl hold
    · exact .inr ⟨hij, ns[i], ns[j], List.getElem?_eq_getElem hi, List.getElem?_eq_getElem hj,
        j, ns[j], hl, List.getElem?_eq_getElem hj, rfl⟩

theorem mem_regularPositions :
    i ∈ regularPositions nodes ↔ ∃ n, nodes[i]? = some n ∧ n.isBios = false := by
  simp only [regularPositions, List.mem_filter, List.mem_range]
  constructor
  · intro hgiven
    obtain ⟨hi, hany⟩ := hgiven
    rw [List.getElem?_eq_getElem hi] at hany
    exact ⟨nodes[i], List.getElem?_eq_getElem hi, by simpa using hany⟩
  · intro hgiven
    obtain ⟨n, hn, hbios⟩ := hgiven
    rw [hn]
    exact ⟨(List.getElem?_eq_some_iff.mp hn).1, by simpa using hbios⟩

theorem nodup_regularPositions (nodes : List Node) : (regularPositions nodes).Nodup :=
  List.nodup_range.filter _

end Peers

/-- Nodes of different names without peers, of which the first and only the first is the bios
node. -/
structure Unconnected (nodes : List Node) : Prop where
  names : ∀ {i j : Nat} {a b : Node}, nodes[i]? = some a → nodes[j]? = some b → a.name = b.name →
    i = j
  silent : ∀ {i : Nat} {a : Node}, nodes[i]? = some a → a.peers = []
  first : ∃ b, nodes[0]? = some b ∧ b.name = Node.biosName
  bios : ∀ {i : Nat} {a : Node}, nodes[i]? = some a → (a.isBios = true ↔ i = 0)

namespace Unconnected

variable {nodes ns : List Node} {i j : Nat}

theorem distinct (h : Unconnected nodes) : Distinct nodes :=
  fun _ _ _ _ ha hb hname => h.names ha hb hname

theorem nodup_names (h : Unconnected nodes) : (nodes.map (·.name)).Nodup := by
  apply List.pairwise_iff_getElem.mpr
  intro i j hi hj hij hname
  rw [List.length_map] at hi hj
  rw [List.getElem_map, List.getElem_map] at hname
  have heq := h.names (List.getElem?_eq_getElem hi) (List.getElem?_eq_getElem hj) hname
  omega

theorem any_isBios (h : Unconnected nodes) : nodes.any Node.isBios = true := by
  obtain ⟨b, hb, _⟩ := h.first
  exact List.any_eq_true.mpr ⟨b, List.mem_of_getElem? hb, (h.bios hb).mpr rfl⟩

theorem pos (h : Unconnected nodes) : 0 < nodes.length := by
  obtain ⟨b, hb, _⟩ := h.first
  exact (List.getElem?_eq_some_iff.mp hb).1

theorem not_lists (h : Unconnected nodes) : ¬ Lists nodes i j := by
  intro hlists
  obtain ⟨a, _, ha, _, hpeer⟩ := hlists
  rw [Node.hasPeer_iff, h.silent ha] at hpeer
  cases hpeer

theorem not_joined (h : Unconnected nodes) : ¬ Joined nodes i j :=
  not_or.mpr ⟨h.not_lists, h.not_lists⟩

/-- The positions of the regular nodes are those after the first. -/
theorem mem_regularPositions (h : Unconnected nodes) :
    i ∈ regularPositions nodes ↔ i ≠ 0 ∧ i < nodes.length := by
  rw [Peering.mem_regularPositions]
  constructor
  · intro hgiven
    obtain ⟨n, hn, hbios⟩ := hgiven
    refine ⟨fun hi => ?_, (List.getElem?_eq_some_iff.mp hn).1⟩
    rw [(h.bios hn).mpr hi] at hbios
    cases hbios
  · intro hgiven
    obtain ⟨hne, hi⟩ := hgiven
    refine ⟨nodes[i], List.getElem?_eq_getElem hi, ?_⟩
    rw [← Bool.not_eq_true, h.bios (List.getElem?_eq_getElem hi)]
    exact hne

/-- Dialling the bios node joins nodes with it and changes nothing else. -/
theorem lists_dialBios_iff (h : Unconnected nodes) (hns : ns.map Node.bare = nodes.map Node.bare)
    {sources : List Nat} : Lists (dialBios ns sources) i j ↔
      Lists ns i j ∨ (i ≠ j ∧ i < nodes.length ∧ i ∈ sources ∧ j = 0) := by
  have hdistinct := h.distinct.of_bare hns
  have hlength := length_of_bare hns
  obtain ⟨b₀, hb₀, hbios⟩ := h.first
  obtain ⟨first, hfirst, hbare⟩ := exists_bare hns.symm hb₀
  have hname : first.name = Node.biosName := (congrArg (·.name) hbare).trans hbios
  have hany : ns.any Node.isBios = true := (any_isBios_congr hns).trans h.any_isBios
  rw [lists_given_iff hdistinct (getElem?_dialBios ns sources)]
  simp only [mem_biosDialled]
  constructor
  · intro hcase
    rcases hcase with hold | ⟨hij, a, b, ha, hb, _, hi, hdialled⟩
    · exact .inl hold
    · exact .inr ⟨hij, hlength ▸ (List.getElem?_eq_some_iff.mp ha).1, hi,
        hdistinct hb hfirst (hdialled.trans hname.symm)⟩
  · intro hcase
    rcases hcase with hold | ⟨hij, hi, hsource, rfl⟩
    · exact .inl hold
    · rw [← hlength] at hi
      exact .inr ⟨hij, ns[i], first, List.getElem?_eq_getElem hi, hfirst, hany, hsource, hname⟩

end Unconnected

/-- The nodes after following links and letting some of them dial the bios node. -/
def linked (nodes : List Node) (links : List Link) (sources : List Nat) : List Node :=
  dialBios (dialAll nodes links).value sources

section Linked

variable {nodes : List Node} {links : List Link} {sources : List Nat}

theorem getElem?_linked (i : Nat) : (linked nodes links sources)[i]? = nodes[i]?.map fun n =>
    n.addPeers (dialled nodes links i ++
      biosDialled (dialAll nodes links).value sources i) := by
  unfold linked
  rw [getElem?_dialBios, getElem?_dialAll, Option.map_map]
  exact congrArg (Option.map · nodes[i]?) (funext fun n => (n.addPeers_append _ _).symm)

/-- Linking changes nothing but peers. -/
theorem bare_linked : (linked nodes links sources).map Node.bare = nodes.map Node.bare :=
  (bare_dialBios _ sources).trans (bare_dialAll nodes links)

theorem length_linked : (linked nodes links sources).length = nodes.length :=
  length_of_bare bare_linked

/-- A node lists another exactly if a link says so, or if it dials the bios node and the other is
that. -/
theorem lists_linked_iff (h : Unconnected nodes) {i j : Nat} :
    Lists (linked nodes links sources) i j ↔
      i < nodes.length ∧ j < nodes.length ∧ i ≠ j ∧ (⟨i, j⟩ ∈ links ∨ i ∈ sources ∧ j = 0) := by
  have hpos := h.pos
  rw [linked, h.lists_dialBios_iff (bare_dialAll nodes links), lists_dialAll_iff h.distinct]
  constructor
  · intro hcase
    rcases hcase with (hold | ⟨hij, hi, hj, hl⟩) | ⟨hij, hi, hs, rfl⟩
    · exact absurd hold h.not_lists
    · exact ⟨hi, hj, hij, .inl hl⟩
    · exact ⟨hi, hpos, hij, .inr ⟨hs, rfl⟩⟩
  · intro hgiven
    obtain ⟨hi, hj, hij, hl | ⟨hs, rfl⟩⟩ := hgiven
    · exact .inl (.inr ⟨hij, hi, hj, hl⟩)
    · exact .inr ⟨hij, hi, hs, rfl⟩

end Linked

end Testnet.Peering
