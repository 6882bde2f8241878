import Testnet.Topology.Declared
import Testnet.Proofs.Port
import Testnet.Proofs.Run

/-!
# Which declarations are accepted

A topology passes its checks exactly when names, peers and accounts fit together, and its nodes
exactly when indices and ports are told apart. In between the nodes are filled in, which fails only
where ports run out or an index has none after it.
-/

namespace Testnet

/-- The ports that a node listens on. -/
def Node.listens (n : Node) : List UInt16 := [n.ports.p2p, n.ports.http]

namespace Topology

section Check

theorem repeatedName?_eq_none_iff {seen names : List String} :
    repeatedName? seen names = none ↔ names.Nodup ∧ ∀ name ∈ names, name ∉ seen := by
  induction names generalizing seen with
  | nil => simp [repeatedName?]
  | cons name rest ih =>
    unfold repeatedName?
    by_cases hseen : name ∈ seen
    · rw [if_pos (List.contains_iff_mem.mpr hseen)]
      simp [hseen]
    · rw [if_neg (by simpa using hseen), ih, List.nodup_cons]
      simp only [List.mem_cons, not_or, forall_eq_or_imp]
      constructor
      · intro h
        exact ⟨⟨fun hmem => (h.2 name hmem).1 rfl, h.1⟩, hseen, fun n hn => (h.2 n hn).2⟩
      · intro h
        exact ⟨h.1.2, fun n hn => ⟨fun heq => h.1.1 (heq ▸ hn), h.2.2 n hn⟩⟩

theorem peerRejection?_eq_none_iff {declared : List String} {node peer : String} :
    peerRejection? declared node peer = none ↔ peer ≠ node ∧ peer ∈ declared := by
  unfold peerRejection?
  by_cases hself : peer = node
  · simp [hself]
  · by_cases hdeclared : peer ∈ declared <;> simp [hself, hdeclared]

theorem descriptionRejection?_eq_none_iff {declared : List String} {node : String × Description} :
    descriptionRejection? declared node = none ↔
      (∀ peer ∈ node.2.peers, peer ≠ node.1 ∧ peer ∈ declared) ∧
        ∀ account ∈ node.2.producers, Account.isValid account = true := by
  simp [descriptionRejection?, Option.or_eq_none_iff, List.findSome?_eq_none_iff,
    peerRejection?_eq_none_iff]

/-- What a topology has to be before any node is made. -/
theorem check_eq_ok_iff {t : Topology} {source : Path} : t.check source = .ok () ↔
    (t.nodes.map (·.1)).Nodup ∧ Node.biosName ∈ t.nodes.map (·.1) ∧ ∀ node ∈ t.nodes,
      (∀ peer ∈ node.2.peers, peer ≠ node.1 ∧ peer ∈ t.nodes.map (·.1)) ∧
        ∀ account ∈ node.2.producers, Account.isValid account = true := by
  have hnames := @repeatedName?_eq_none_iff [] (t.nodes.map (·.1))
  simp only [List.not_mem_nil, not_false_eq_true, implies_true, and_true] at hnames
  have hnodes : t.nodes.findSome? (descriptionRejection? (t.nodes.map (·.1))) = none ↔
      ∀ node ∈ t.nodes, (∀ peer ∈ node.2.peers, peer ≠ node.1 ∧ peer ∈ t.nodes.map (·.1)) ∧
        ∀ account ∈ node.2.producers, Account.isValid account = true := by
    rw [List.findSome?_eq_none_iff]
    exact forall₂_congr fun node _ => descriptionRejection?_eq_none_iff
  rw [← hnames, ← hnodes]
  unfold check
  dsimp only
  cases repeatedName? [] (t.nodes.map (·.1)) with
  | some name => simp
  | none =>
    by_cases hbios : Node.biosName ∈ t.nodes.map (·.1)
    · rw [if_neg (by simpa using hbios)]
      cases t.nodes.findSome? (descriptionRejection? (t.nodes.map (·.1))) <;> simp [hbios]
    · rw [if_pos (by simpa using hbios)]
      simp [hbios]

end Check

section Identities

/-- None is taken yet, and none stands twice. -/
def Free {α : Type} (taken entries : List α) : Prop :=
  entries.Nodup ∧ ∀ x ∈ entries, x ∉ taken

theorem free_nil {α : Type} (taken : List α) : Free taken [] := ⟨List.nodup_nil, nofun⟩

theorem free_cons {α : Type} {taken entries : List α} {x : α} :
    Free taken (x :: entries) ↔ x ∉ taken ∧ Free (x :: taken) entries := by
  unfold Free
  rw [List.nodup_cons]
  simp only [List.mem_cons, not_or, forall_eq_or_imp]
  constructor
  · intro h
    obtain ⟨⟨hx, hnodup⟩, htaken, hfree⟩ := h
    exact ⟨htaken, hnodup, fun y hy => ⟨fun heq => hx (heq ▸ hy), hfree y hy⟩⟩
  · intro h
    obtain ⟨htaken, hnodup, hfree⟩ := h
    exact ⟨⟨fun hx => (hfree x hx).1 rfl, hnodup⟩, htaken, fun y hy => (hfree y hy).2⟩

theorem free_nil_iff {α : Type} {entries : List α} : Free [] entries ↔ entries.Nodup :=
  ⟨fun h => h.1, fun h => ⟨h, fun _ _ => List.not_mem_nil⟩⟩

/-- Indices that are free, the reserved one left to the bios node. -/
def IndicesFree (taken : List Int32) (nodes : List Node) : Prop :=
  (∀ n ∈ nodes, n.index = Node.biosIndex → n.name = Node.biosName) ∧
    Free taken (nodes.map (·.index))

def PortsFree (taken : List UInt16) (nodes : List Node) : Prop :=
  Free taken (nodes.flatMap Node.listens)

variable {n : Node} {nodes rest : List Node} {t : Taken}

theorem indicesFree_cons {taken : List Int32} : IndicesFree taken (n :: rest) ↔
    ((n.index = Node.biosIndex → n.name = Node.biosName) ∧ n.index ∉ taken) ∧
      IndicesFree (n.index :: taken) rest := by
  unfold IndicesFree
  rw [List.map_cons, free_cons, List.forall_mem_cons]
  constructor
  · intro h
    exact ⟨⟨h.1.1, h.2.1⟩, h.1.2, h.2.2⟩
  · intro h
    exact ⟨⟨h.1.1, h.2.1⟩, h.1.2, h.2.2⟩

theorem portsFree_cons {taken : List UInt16} : PortsFree taken (n :: rest) ↔
    (n.ports.p2p ∉ taken ∧ n.ports.http ∉ n.ports.p2p :: taken) ∧
      PortsFree (n.ports.http :: n.ports.p2p :: taken) rest := by
  have hcons : (n :: rest).flatMap Node.listens =
      n.ports.p2p :: n.ports.http :: rest.flatMap Node.listens := rfl
  unfold PortsFree
  rw [hcons, free_cons, free_cons, and_assoc]

theorem lookup_eq_none_iff_not_mem {α β : Type} [DecidableEq α] {l : List (α × β)} {a : α} :
    l.lookup a = none ↔ a ∉ l.map (·.1) := by
  simp only [List.lookup_eq_none_iff, bne_iff_ne, List.mem_map, not_exists, not_and, ne_comm]

/-- A node that takes a free index and free ports. -/
def Taken.with (t : Taken) (n : Node) : Taken where
  indices := (n.index, n.name) :: t.indices
  ports := (n.ports.http, n.name) :: (n.ports.p2p, n.name) :: t.ports

theorem Taken.takePort_cases (t : Taken) (n : Node) (port : UInt16) :
    port ∉ t.ports.map (·.1) ∧
      t.takePort n port = .ok { t with ports := (port, n.name) :: t.ports } ∨
    port ∈ t.ports.map (·.1) ∧
      ∃ first second, t.takePort n port = .error (.duplicatePort port first second) := by
  unfold takePort
  cases hlookup : t.ports.lookup port with
  | none => exact .inl ⟨lookup_eq_none_iff_not_mem.mp hlookup, rfl⟩
  | some first =>
    refine .inr ⟨?_, first, n.name, rfl⟩
    by_cases hmem : port ∈ t.ports.map (·.1)
    · exact hmem
    · rw [lookup_eq_none_iff_not_mem.mpr hmem] at hlookup
      cases hlookup

/-- A node is taken, or refused for its index, or else for a port. -/
theorem Taken.take_cases (t : Taken) (n : Node) :
    (((n.index = Node.biosIndex → n.name = Node.biosName) ∧ n.index ∉ t.indices.map (·.1)) ∧
      (n.ports.p2p ∉ t.ports.map (·.1) ∧ n.ports.http ∉ n.ports.p2p :: t.ports.map (·.1)) ∧
      t.take n = .ok (t.with n)) ∨
    (¬ ((n.index = Node.biosIndex → n.name = Node.biosName) ∧ n.index ∉ t.indices.map (·.1)) ∧
      ∃ why, t.take n = .error why ∧ ∀ port first second, why ≠ .duplicatePort port first second) ∨
    (¬ (n.ports.p2p ∉ t.ports.map (·.1) ∧ n.ports.http ∉ n.ports.p2p :: t.ports.map (·.1)) ∧
      ∃ port first second, t.take n = .error (.duplicatePort port first second)) := by
  unfold take takeIndex
  by_cases hreserved : n.index = Node.biosIndex ∧ n.name ≠ Node.biosName
  · rw [if_pos hreserved]
    refine .inr (.inl ⟨fun h => hreserved.2 (h.1 hreserved.1), _, rfl, nofun⟩)
  rw [if_neg hreserved]
  have hbios : n.index = Node.biosIndex → n.name = Node.biosName := by
    intro hindex
    by_cases hname : n.name = Node.biosName
    · exact hname
    · exact absurd ⟨hindex, hname⟩ hreserved
  cases hlookup : t.indices.lookup n.index with
  | some first =>
    refine .inr (.inl ⟨fun h => ?_, _, rfl, nofun⟩)
    rw [lookup_eq_none_iff_not_mem.mpr h.2] at hlookup
    cases hlookup
  | none =>
    dsimp only
    rw [ok_bind]
    have hindex := lookup_eq_none_iff_not_mem.mp hlookup
    generalize hu : ({ t with indices := (n.index, n.name) :: t.indices } : Taken) = u
    have hports : u.ports = t.ports := by rw [← hu]
    rcases u.takePort_cases n n.ports.p2p with ⟨hp2p, htake⟩ | ⟨hp2p, first, second, htake⟩
    · rw [hports] at hp2p
      rw [htake, ok_bind]
      obtain ⟨hhttp, htake⟩ | ⟨hhttp, first, second, htake⟩ :=
        Taken.takePort_cases { u with ports := (n.ports.p2p, n.name) :: u.ports } n n.ports.http
      · rw [List.map_cons, hports] at hhttp
        refine .inl ⟨⟨hbios, hindex⟩, ⟨hp2p, hhttp⟩, ?_⟩
        rw [htake, ← hu]
        rfl
      · rw [List.map_cons, hports] at hhttp
        exact .inr (.inr ⟨fun h => h.2 hhttp, _, first, second, htake⟩)
    · rw [hports] at hp2p
      rw [htake]
      exact .inr (.inr ⟨fun h => h.1 hp2p, _, first, second, rfl⟩)

/-- Nodes are taken one after the other, or one is refused for its index, or else for a port. -/
theorem foldlM_take_cases (t : Taken) (nodes : List Node) :
    (IndicesFree (t.indices.map (·.1)) nodes ∧ PortsFree (t.ports.map (·.1)) nodes ∧
      ∃ t', nodes.foldlM Taken.take t = .ok t') ∨
    (¬ IndicesFree (t.indices.map (·.1)) nodes ∧ ∃ why, nodes.foldlM Taken.take t = .error why ∧
      ∀ port first second, why ≠ .duplicatePort port first second) ∨
    (¬ PortsFree (t.ports.map (·.1)) nodes ∧
      ∃ port first second, nodes.foldlM Taken.take t =
        .error (.duplicatePort port first second)) := by
  induction nodes generalizing t with
  | nil =>
    exact .inl ⟨⟨nofun, free_nil _⟩, free_nil _, t, rfl⟩
  | cons n rest ih =>
    rw [List.foldlM_cons, indicesFree_cons, portsFree_cons]
    obtain ⟨hindex, hports, htake⟩ | ⟨hindex, why, htake, hwhy⟩ |
      ⟨hports, port, first, second, htake⟩ := t.take_cases n
    · rw [htake, ok_bind]
      rcases ih (t.with n) with ⟨hindices, hfree, hrest⟩ | ⟨hindices, hrest⟩ | ⟨hfree, hrest⟩
      · exact .inl ⟨⟨hindex, hindices⟩, ⟨hports, hfree⟩, hrest⟩
      · exact .inr (.inl ⟨fun h => hindices h.2, hrest⟩)
      · exact .inr (.inr ⟨fun h => hfree h.2, hrest⟩)
    · rw [htake]
      exact .inr (.inl ⟨fun h => hindex h.1, why, rfl, hwhy⟩)
    · rw [htake]
      exact .inr (.inr ⟨fun h => hports h.1, port, first, second, rfl⟩)

theorem checkIdentities_cases (nodes : List Node) :
    (IndicesFree [] nodes ∧ PortsFree [] nodes ∧ checkIdentities nodes = .ok ()) ∨
    (¬ IndicesFree [] nodes ∧ ∃ why, checkIdentities nodes = .error why ∧
      ∀ port first second, why ≠ .duplicatePort port first second) ∨
    (¬ PortsFree [] nodes ∧ ∃ port first second,
      checkIdentities nodes = .error (.duplicatePort port first second)) := by
  unfold checkIdentities
  obtain ⟨hindices, hports, t, ht⟩ | ⟨hindices, why, hwhy, hne⟩ |
    ⟨hports, port, first, second, hwhy⟩ := foldlM_take_cases ⟨[], []⟩ nodes
  · rw [ht]
    exact .inl ⟨hindices, hports, rfl⟩
  · rw [hwhy]
    exact .inr (.inl ⟨hindices, why, rfl, hne⟩)
  · rw [hwhy]
    exact .inr (.inr ⟨hports, port, first, second, rfl⟩)

theorem checkIdentities_eq_ok_iff :
    checkIdentities nodes = .ok () ↔ IndicesFree [] nodes ∧ PortsFree [] nodes := by
  obtain ⟨hindices, hports, hok⟩ | ⟨hindices, why, hwhy, _⟩ | ⟨hports, _, _, _, hwhy⟩ :=
    checkIdentities_cases nodes
  · exact ⟨fun _ => ⟨hindices, hports⟩, fun _ => hok⟩
  · rw [hwhy]
    exact ⟨nofun, fun h => absurd h.1 hindices⟩
  · rw [hwhy]
    exact ⟨nofun, fun h => absurd h.2 hports⟩

/-- A node is refused for a port only if two ports are the same. -/
theorem not_portsFree_of_duplicatePort {port : UInt16} {first second : String}
    (h : checkIdentities nodes = .error (.duplicatePort port first second)) :
    ¬ PortsFree [] nodes := by
  rcases checkIdentities_cases nodes with ⟨_, _, hok⟩ | ⟨_, why, hwhy, hne⟩ | ⟨hports, _⟩
  · rw [h] at hok
    cases hok
  · rw [h] at hwhy
    cases hwhy
    exact absurd rfl (hne port first second)
  · exact hports

/-- Where all indices are fine, a port that stands twice is what is found. -/
theorem exists_duplicatePort (hindices : IndicesFree [] nodes) (hports : ¬ PortsFree [] nodes) :
    ∃ port first second, checkIdentities nodes = .error (.duplicatePort port first second) := by
  rcases checkIdentities_cases nodes with ⟨_, hfree, _⟩ | ⟨htaken, _⟩ | ⟨_, h⟩
  · exact absurd hfree hports
  · exact absurd hindices htaken
  · exact h

end Identities

section Filled

variable {f : Factory} {a : Allocator} {nodes : List Node} {source : Path}

/-- Nodes are declared by a sound topology whose nodes, once filled in, are told apart. -/
theorem declaredNodes_eq_ok_iff {t : Topology} : t.declaredNodes source f a = .ok nodes ↔
    t.check source = .ok () ∧ fillFrom f 0 a t.nodes = .ok nodes ∧
      checkIdentities nodes = .ok () ∧ ∃ owners, Assignment.ofNodes nodes = .ok owners := by
  unfold declaredNodes
  cases t.check source with
  | error why => simp
  | ok _ =>
    dsimp only
    cases fillFrom f 0 a t.nodes with
    | error what => simp
    | ok filled =>
      dsimp only
      cases hidentities : checkIdentities filled with
      | error why =>
        simp only [Except.ok.injEq, true_and]
        refine ⟨nofun, fun h => ?_⟩
        obtain ⟨rfl, hok, _⟩ := h
        rw [hidentities] at hok
        cases hok
      | ok _ =>
        rw [ok_bind]
        cases howners : Assignment.ofNodes filled with
        | error why =>
          simp only [Except.ok.injEq, true_and]
          refine ⟨nofun, fun h => ?_⟩
          obtain ⟨rfl, _, owners, hok⟩ := h
          rw [howners] at hok
          cases hok
        | ok owners =>
          simp only [Except.ok.injEq, true_and]
          refine ⟨fun h => ?_, And.left⟩
          subst h
          exact ⟨rfl, hidentities, owners, howners⟩

theorem indexAfter_eq_ok_iff {i after : Int32} :
    indexAfter i = .ok after ↔ i.toInt + 1 < 0x80000000 ∧ after = i + 1 := by
  unfold indexAfter
  split
  case isTrue hfits => rw [Except.ok.injEq, eq_comm, and_iff_right hfits]
  case isFalse hlast => exact ⟨nofun, fun h => absurd h.1 hlast⟩

variable {next : Int32} {described : List (String × Description)}

/-- A node is filled in if those after it are. A regular node takes ports from the allocator, and
its index is one that another can follow. -/
theorem fillFrom_cons_eq_ok_iff {name : String} {d : Description} :
    fillFrom f next a ((name, d) :: described) = .ok nodes ↔
      (name = Node.biosName ∧ ∃ filled, fillFrom f next a described = .ok filled ∧
        nodes = declaredNode f name d Node.biosIndex a.biosPorts :: filled) ∨
      (name ≠ Node.biosName ∧ a.Room 1 ∧ (d.index.getD next).toInt + 1 < 0x80000000 ∧
        ∃ filled, fillFrom f (d.index.getD next + 1) (a.advance 1) described = .ok filled ∧
          nodes = declaredNode f name d (d.index.getD next) (a.pairAt 0) :: filled) := by
  rw [fillFrom]
  by_cases hbios : name = Node.biosName
  · rw [if_pos hbios, bind_eq_ok_iff]
    simp only [hbios, true_and, ne_eq, not_true_eq_false, false_and, or_false, pure, Except.pure,
      Except.ok.injEq, eq_comm]
  rw [if_neg hbios]
  by_cases hroom : a.Room 1
  · rw [Allocator.nextPair_of_room hroom]
    dsimp only
    rw [ok_bind, bind_eq_ok_iff]
    simp only [hbios, false_and, false_or, ne_eq, not_false_eq_true, true_and, hroom,
      indexAfter_eq_ok_iff, bind_eq_ok_iff, pure, Except.pure, Except.ok.injEq]
    constructor
    · intro hgiven
      obtain ⟨_, ⟨hindex, rfl⟩, filled, hfilled, rfl⟩ := hgiven
      exact ⟨hindex, filled, hfilled, rfl⟩
    · intro hgiven
      obtain ⟨hindex, filled, hfilled, rfl⟩ := hgiven
      exact ⟨_, ⟨hindex, rfl⟩, filled, hfilled, rfl⟩
  · rw [Allocator.nextPair_of_not_room hroom]
    simp only [hbios, hroom, false_and, and_false, or_false, iff_false]
    nofun

/-- What a description says for itself is in the nodes as it was declared. -/
theorem map_fillFrom {β : Type} {g : Node → β} {k : String × Description → β}
    (hg : ∀ name d index ports, g (declaredNode f name d index ports) = k (name, d))
    (h : fillFrom f next a described = .ok nodes) : nodes.map g = described.map k := by
  induction described generalizing next a nodes with
  | nil =>
    cases h
    rfl
  | cons node rest ih =>
    obtain ⟨_, filled, hrest, rfl⟩ | ⟨_, _, _, filled, hrest, rfl⟩ := fillFrom_cons_eq_ok_iff.mp h
    · rw [List.map_cons, List.map_cons, hg, ih hrest]
    · rw [List.map_cons, List.map_cons, hg, ih hrest]

/-- A node that a topology can declare: it lives under its name in the directories of a factory,
the bios node has the reserved index, and an index comes after every other one. -/
structure Declarable (f : Factory) (n : Node) : Prop where
  configDir : n.configDir = f.configDir.join n.name
  dataDir : n.dataDir = f.dataDir.join n.name
  bios : n.name = Node.biosName → n.index = Node.biosIndex
  regular : n.name ≠ Node.biosName → n.index.toInt + 1 < 0x80000000

/-- Nodes that were filled in could have been declared as they are. -/
theorem declarable_fillFrom (h : fillFrom f next a described = .ok nodes) :
    ∀ n ∈ nodes, Declarable f n := by
  induction described generalizing next a nodes with
  | nil =>
    cases h
    nofun
  | cons node rest ih =>
    obtain ⟨hbios, filled, hrest, rfl⟩ | ⟨hregular, _, hindex, filled, hrest, rfl⟩ :=
      fillFrom_cons_eq_ok_iff.mp h
    · exact List.forall_mem_cons.mpr ⟨⟨rfl, rfl, fun _ => rfl, fun h => absurd hbios h⟩, ih hrest⟩
    · refine List.forall_mem_cons.mpr ⟨⟨rfl, rfl, fun h => absurd h hregular, fun _ => ?_⟩, ih hrest⟩
      exact hindex

/-- How many of the named nodes take ports from the allocator. -/
def regularCount (names : List String) : Nat := names.countP (· != Node.biosName)

theorem regularCount_cons_of_bios {name : String} {names : List String}
    (h : name = Node.biosName) : regularCount (name :: names) = regularCount names :=
  List.countP_cons_of_neg (by simpa using h)

theorem regularCount_cons_of_regular {name : String} {names : List String}
    (h : name ≠ Node.biosName) : regularCount (name :: names) = regularCount names + 1 :=
  List.countP_cons_of_pos (by simpa using h)

/-- Every regular node that was filled in has taken ports, whether or not it kept them. -/
theorem room_of_fillFrom (h : fillFrom f next a described = .ok nodes) :
    a.Room (regularCount (described.map (·.1))) := by
  induction described generalizing next a nodes with
  | nil =>
    cases h
    exact a.room_zero
  | cons node rest ih =>
    obtain ⟨hbios, filled, hrest, rfl⟩ | ⟨hregular, hroom, _, filled, hrest, rfl⟩ :=
      fillFrom_cons_eq_ok_iff.mp h
    · rw [List.map_cons, regularCount_cons_of_bios hbios]
      exact ih hrest
    · rw [List.map_cons, regularCount_cons_of_regular hregular]
      exact Allocator.room_succ_iff.mpr ⟨hroom, ih hrest⟩

/-- Nodes have the names they are declared under, and the bios node has the reserved index whatever
is declared. -/
theorem fillFrom_identity (h : fillFrom f next a described = .ok nodes) :
    nodes.map (·.name) = described.map (·.1) ∧
      ∀ n ∈ nodes, n.name = Node.biosName → n.index = Node.biosIndex :=
  ⟨map_fillFrom (fun _ _ _ _ => rfl) h, fun n hn => (declarable_fillFrom h n hn).bios⟩

end Filled

end Topology

end Testnet
