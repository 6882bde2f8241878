import Mathlib.Data.List.Nodup
import Testnet.Proofs.Account
import Testnet.Proofs.Assignment
import Testnet.Proofs.Declared

/-!
# Well-formed topologies

What a topology has to be like for its nodes to be made, said of the topology alone. Which index
and which ports a node has in the end follows from what it says itself and from the regular nodes
before it; both are plain numbers here. Where the numbers that are counted up fit their words,
exactly the well-formed topologies are accepted. Nothing is claimed about the others.
-/

namespace Testnet

namespace Account

/-- One to twelve characters, each a small letter, a digit from 1 to 5 or a dot, and no dot at the
end. -/
def IsUsable (account : String) : Prop :=
  (1 ≤ account.toList.length ∧ account.toList.length ≤ 12) ∧
    (∀ c ∈ account.toList, 'a' ≤ c ∧ c ≤ 'z' ∨ '1' ≤ c ∧ c ≤ '5' ∨ c = '.') ∧
    account.toList.getLast? ≠ some '.'

theorem isNameChar_iff {c : Char} :
    isNameChar c = true ↔ 'a' ≤ c ∧ c ≤ 'z' ∨ '1' ≤ c ∧ c ≤ '5' ∨ c = '.' := by
  simp [isNameChar, or_assoc]

theorem isValid_iff_isUsable {account : String} : isValid account = true ↔ IsUsable account := by
  rw [isValid_iff, IsUsable, ← List.length_pos_iff, and_assoc]
  simp only [isNameChar_iff]
  rfl

instance (account : String) : Decidable (IsUsable account) :=
  decidable_of_iff _ isValid_iff_isUsable

end Account

namespace Topology

/-- What tells a node apart from the others. -/
structure Identity where
  name : String
  index : Int
  p2p : Nat
  http : Nat
deriving DecidableEq, Repr

def Identity.ports (i : Identity) : List Nat := [i.p2p, i.http]

/-- How many regular nodes are declared. -/
def regulars (declared : List (String × Description)) : Nat :=
  regularCount (declared.map (·.1))

/-- The index that comes after those of the nodes declared so far, of which the latest is the first:
one more than that of the latest regular node. -/
def nextIndex : List (String × Description) → Int
  | [] => 0
  | (name, d) :: before =>
    if name = Node.biosName then nextIndex before
    else (d.index.map Int32.toInt).getD (nextIndex before) + 1

/-- The last index, which no other comes after. -/
def lastIndex : Int := 2147483647

/-- The port of a node that does not say one. Regular nodes that do say one are counted as well. -/
def defaultPort (base : Nat) (before : List (String × Description)) (name : String) : Nat :=
  if name = Node.biosName then base - 100 else base + regulars before

/-- What a node is told apart by, after the nodes declared before it. -/
def identity (p2p http : Nat) (before : List (String × Description))
    (node : String × Description) : Identity where
  name := node.1
  index :=
    if node.1 = Node.biosName then -100
    else (node.2.index.map Int32.toInt).getD (nextIndex before)
  p2p := (node.2.p2pPort.map UInt16.toNat).getD (defaultPort p2p before node.1)
  http := (node.2.httpPort.map UInt16.toNat).getD (defaultPort http before node.1)

def identitiesFrom (p2p http : Nat) :
    List (String × Description) → List (String × Description) → List Identity
  | _, [] => []
  | before, node :: rest =>
    identity p2p http before node :: identitiesFrom p2p http (node :: before) rest

/-- What the nodes are told apart by, when ports are counted from two bases. -/
def identities (t : Topology) (p2p http : Nat) : List Identity :=
  identitiesFrom p2p http [] t.nodes

/-- A topology that fits together, with bases to count its ports from. -/
structure WellFormed (t : Topology) (p2p http : Nat) : Prop where
  names : (t.nodes.map (·.1)).Nodup
  bios : Node.biosName ∈ t.nodes.map (·.1)
  peers : ∀ node ∈ t.nodes, ∀ peer ∈ node.2.peers, peer ≠ node.1 ∧ peer ∈ t.nodes.map (·.1)
  accounts : ∀ node ∈ t.nodes, ∀ account ∈ node.2.producers, Account.IsUsable account
  indices : ((t.identities p2p http).map (·.index)).Nodup
  reserved : ∀ i ∈ t.identities p2p http, i.index = -100 → i.name = Node.biosName
  /-- Ports of both kinds, of all nodes together. -/
  ports : ((t.identities p2p http).flatMap Identity.ports).Nodup
  /-- Neither two nodes nor one node twice. -/
  owners : ((t.nodes.flatMap (·.2.producers)).filter Account.isExclusive).Nodup

/-- Every number that is counted up on the way fits its word. -/
structure Fits (t : Topology) (p2p http : Nat) : Prop where
  nodes : regulars t.nodes ≤ 65535
  ports : ∀ i < regulars t.nodes, p2p + i ≤ 65535 ∧ http + i ≤ 65535
  indices : ∀ i ∈ t.identities p2p http, i.name ≠ Node.biosName → i.index < 2147483647

/-- What a node that was made is told apart by. -/
def Identity.ofNode (n : Node) : Identity :=
  ⟨n.name, n.index.toInt, n.ports.p2p.toNat, n.ports.http.toNat⟩

section Filled

variable {f : Factory} {p2p http : UInt16} {before declared : List (String × Description)}
  {name : String} {d : Description}

theorem regulars_cons_of_bios (h : name = Node.biosName) :
    regulars ((name, d) :: declared) = regulars declared :=
  regularCount_cons_of_bios h

theorem regulars_cons_of_regular (h : name ≠ Node.biosName) :
    regulars ((name, d) :: declared) = regulars declared + 1 :=
  regularCount_cons_of_regular h

theorem toInt_add_one {i : Int32} (h : i.toInt + 1 < 0x80000000) :
    (i + 1).toInt = i.toInt + 1 := by
  have hlow := i.le_toInt
  have hone : (1 : Int32).toInt = 1 := rfl
  rw [Int32.toInt_add, hone]
  exact Int.bmod_eq_of_le (by omega) (by omega)

/-- What a description leaves out is filled in as it should be. -/
theorem ofNode_declaredNode {base base' : Nat} {index : Int32} {ports : Ports}
    (hindex : index.toInt = (identity base base' before (name, d)).index)
    (hp2p : ports.p2p.toNat = defaultPort base before name)
    (hhttp : ports.http.toNat = defaultPort base' before name) :
    Identity.ofNode (declaredNode f name d index ports) =
      identity base base' before (name, d) := by
  unfold identity
  rw [← hp2p, ← hhttp, Option.getD_map, Option.getD_map, Identity.mk.injEq]
  exact ⟨rfl, hindex, rfl, rfl⟩

theorem ofNode_declaredNode_of_bios (h : name = Node.biosName) :
    Identity.ofNode (declaredNode f name d Node.biosIndex (Allocator.new p2p http).biosPorts) =
      identity p2p.toNat http.toNat before (name, d) := by
  apply ofNode_declaredNode
  · rw [identity, if_pos h]
    rfl
  · rw [defaultPort, if_pos h]
    exact Allocator.toNat_below p2p
  · rw [defaultPort, if_pos h]
    exact Allocator.toNat_below http

section Regular

variable {next : Int32} (hregular : name ≠ Node.biosName) (hnext : next.toInt = nextIndex before)

include hregular hnext

theorem toInt_index {base base' : Nat} :
    (d.index.getD next).toInt = (identity base base' before (name, d)).index := by
  rw [identity, if_neg hregular, ← hnext, Option.getD_map]

theorem toInt_index_add_one (h : (d.index.getD next).toInt + 1 < 0x80000000) :
    (d.index.getD next + 1).toInt = nextIndex ((name, d) :: before) := by
  rw [nextIndex, if_neg hregular, toInt_add_one h, ← hnext, Option.getD_map]

theorem ofNode_declaredNode_of_regular {n : Nat} (hroom : (Allocator.new p2p http).Room n)
    (hbefore : regulars before < n) :
    Identity.ofNode (declaredNode f name d (d.index.getD next)
        ((Allocator.new p2p http).pairAt (regulars before))) =
      identity p2p.toNat http.toNat before (name, d) := by
  apply ofNode_declaredNode
  · exact toInt_index hregular hnext
  · rw [defaultPort, if_neg hregular]
    exact Counter.toNat_portAt hroom.1 hbefore
  · rw [defaultPort, if_neg hregular]
    exact Counter.toNat_portAt hroom.2 hbefore

end Regular

/-- The ports that are counted up are what a fresh allocator has room for. -/
theorem Fits.room {t : Topology} (h : t.Fits p2p.toNat http.toNat) :
    (Allocator.new p2p http).Room (regulars t.nodes) := by
  have hlimit : Counter.portLimit = 65536 := rfl
  have hnodes := h.nodes
  constructor
  · apply Counter.room_new_iff.mpr
    refine ⟨by omega, fun i hi => ?_⟩
    have hport := (h.ports i hi).1
    omega
  · apply Counter.room_new_iff.mpr
    refine ⟨by omega, fun i hi => ?_⟩
    have hport := (h.ports i hi).2
    omega

section Walk

variable {a : Allocator} {next : Int32}

theorem exists_fillFrom_cons_of_bios (h : name = Node.biosName) :
    (∃ nodes, fillFrom f next a ((name, d) :: declared) = .ok nodes) ↔
      ∃ filled, fillFrom f next a declared = .ok filled := by
  simp only [fillFrom_cons_eq_ok_iff, h, true_and, ne_eq, not_true_eq_false, false_and, or_false]
  constructor
  · intro hgiven
    obtain ⟨_, filled, hfilled, _⟩ := hgiven
    exact ⟨filled, hfilled⟩
  · intro hgiven
    obtain ⟨filled, hfilled⟩ := hgiven
    exact ⟨_, filled, hfilled, rfl⟩

theorem exists_fillFrom_cons_of_regular (h : name ≠ Node.biosName) :
    (∃ nodes, fillFrom f next a ((name, d) :: declared) = .ok nodes) ↔
      a.Room 1 ∧ (d.index.getD next).toInt ≠ lastIndex ∧
        ∃ filled, fillFrom f (d.index.getD next + 1) (a.advance 1) declared = .ok filled := by
  have hfits : (d.index.getD next).toInt + 1 < 0x80000000 ↔
      (d.index.getD next).toInt ≠ lastIndex := by
    have hword := (d.index.getD next).toInt_lt
    unfold lastIndex
    omega
  simp only [fillFrom_cons_eq_ok_iff, h, false_and, false_or, ne_eq, not_false_eq_true, true_and,
    hfits]
  constructor
  · intro hgiven
    obtain ⟨_, hroom, hindex, filled, hfilled, _⟩ := hgiven
    exact ⟨hroom, hindex, filled, hfilled⟩
  · intro hgiven
    obtain ⟨hroom, hindex, filled, hfilled⟩ := hgiven
    exact ⟨_, hroom, hindex, filled, hfilled, rfl⟩

/-- Nodes are filled in exactly where there are ports for all regular nodes and none of them has the
last index. The next index is what the nodes before have left. -/
theorem exists_fillFrom_iff (p2p http : Nat) (hnext : next.toInt = nextIndex before) :
    (∃ nodes, fillFrom f next a declared = .ok nodes) ↔ a.Room (regulars declared) ∧
      ∀ i ∈ identitiesFrom p2p http before declared, i.name ≠ Node.biosName →
        i.index ≠ lastIndex := by
  induction declared generalizing next a before with
  | nil => exact ⟨fun _ => ⟨a.room_zero, nofun⟩, fun _ => ⟨[], rfl⟩⟩
  | cons node rest ih =>
    obtain ⟨name, d⟩ := node
    have hname : (identity p2p http before (name, d)).name = name := rfl
    rw [identitiesFrom, List.forall_mem_cons, hname]
    by_cases hbios : name = Node.biosName
    · have hsame : next.toInt = nextIndex ((name, d) :: before) := by
        rw [nextIndex, if_pos hbios, hnext]
      rw [exists_fillFrom_cons_of_bios hbios, ih hsame, regulars_cons_of_bios hbios]
      exact and_congr_right fun _ => ⟨fun h => ⟨absurd hbios, h⟩, And.right⟩
    · rw [exists_fillFrom_cons_of_regular hbios, regulars_cons_of_regular hbios,
        Allocator.room_succ_iff (n := regulars rest), ← toInt_index hbios hnext]
      by_cases hlast : (d.index.getD next).toInt = lastIndex
      · exact ⟨fun h => absurd hlast h.2.1, fun h => absurd hlast (h.2.1 hbios)⟩
      · have hafter : (d.index.getD next + 1).toInt = nextIndex ((name, d) :: before) := by
          have hword := (d.index.getD next).toInt_lt
          unfold lastIndex at hlast
          exact toInt_index_add_one hbios hnext (by omega)
        rw [ih hafter]
        constructor
        · intro h
          exact ⟨⟨h.1, h.2.2.1⟩, fun _ => hlast, h.2.2.2⟩
        · intro h
          exact ⟨h.1.1, hlast, h.1.2, h.2.2⟩

end Walk

/-- The walk over the declared nodes, with the next index and the allocator as the nodes before have
left them, gives every node what it should be told apart by. -/
theorem map_ofNode_fillFrom {next : Int32} {nodes : List Node}
    (hnext : next.toInt = nextIndex before)
    (hroom : (Allocator.new p2p http).Room (regulars before + regulars declared))
    (h : fillFrom f next ((Allocator.new p2p http).advance (regulars before)) declared =
      .ok nodes) :
    nodes.map Identity.ofNode = identitiesFrom p2p.toNat http.toNat before declared := by
  induction declared generalizing before next nodes with
  | nil =>
    cases h
    rfl
  | cons node rest ih =>
    obtain ⟨name, d⟩ := node
    obtain ⟨hbios, filled, hfilled, rfl⟩ | ⟨hregular, _, hfits, filled, hfilled, rfl⟩ :=
      fillFrom_cons_eq_ok_iff.mp h
    · have hsame : regulars ((name, d) :: before) = regulars before := regulars_cons_of_bios hbios
      have hafter : next.toInt = nextIndex ((name, d) :: before) := by
        rw [nextIndex, if_pos hbios, hnext]
      rw [regulars_cons_of_bios hbios, ← hsame] at hroom
      rw [← hsame] at hfilled
      rw [List.map_cons, ih hafter hroom hfilled, identitiesFrom]
      exact congrArg (· :: _) (ofNode_declaredNode_of_bios hbios)
    · have hcount : regulars ((name, d) :: before) = regulars before + 1 :=
        regulars_cons_of_regular hregular
      rw [regulars_cons_of_regular hregular] at hroom
      have hrest : regulars before + (regulars rest + 1) =
          regulars ((name, d) :: before) + regulars rest := by omega
      rw [Allocator.advance_advance, ← hcount] at hfilled
      rw [List.map_cons, ih (toInt_index_add_one hregular hnext hfits) (hrest ▸ hroom) hfilled,
        identitiesFrom, Allocator.pairAt_advance]
      exact congrArg (· :: _) (ofNode_declaredNode_of_regular hregular hnext hroom (by omega))

/-- Where numbers fit, the walk comes to an end. -/
theorem exists_fillFrom {next : Int32} (hnext : next.toInt = nextIndex before)
    (hroom : (Allocator.new p2p http).Room (regulars before + regulars declared))
    (hindex : ∀ i ∈ identitiesFrom p2p.toNat http.toNat before declared,
      i.name ≠ Node.biosName → i.index < 2147483647) :
    ∃ nodes,
      fillFrom f next ((Allocator.new p2p http).advance (regulars before)) declared = .ok nodes ∧
      nodes.map Identity.ofNode = identitiesFrom p2p.toNat http.toNat before declared := by
  have hlast : ∀ i ∈ identitiesFrom p2p.toNat http.toNat before declared,
      i.name ≠ Node.biosName → i.index ≠ lastIndex := fun i hi hregular =>
    Int.ne_of_lt (hindex i hi hregular)
  obtain ⟨nodes, hfilled⟩ := (exists_fillFrom_iff _ _ hnext).mpr ⟨hroom.advance, hlast⟩
  exact ⟨nodes, hfilled, map_ofNode_fillFrom hnext hroom hfilled⟩

/-- The second check looks at nothing but what nodes are told apart by. -/
theorem checkIdentities_eq_ok_iff_identities {nodes : List Node} :
    checkIdentities nodes = .ok () ↔
      (∀ i ∈ nodes.map Identity.ofNode, i.index = -100 → i.name = Node.biosName) ∧
      ((nodes.map Identity.ofNode).map (·.index)).Nodup ∧
      ((nodes.map Identity.ofNode).flatMap Identity.ports).Nodup := by
  have hreserved : (∀ i ∈ nodes.map Identity.ofNode, i.index = -100 → i.name = Node.biosName) ↔
      ∀ n ∈ nodes, n.index = Node.biosIndex → n.name = Node.biosName := by
    rw [List.forall_mem_map]
    refine forall₂_congr fun n _ => imp_congr ?_ Iff.rfl
    exact Int32.toInt_inj (y := Node.biosIndex)
  have hindices : (nodes.map Identity.ofNode).map (·.index) =
      (nodes.map (·.index)).map Int32.toInt := by
    rw [List.map_map, List.map_map]
    rfl
  have hports : (nodes.map Identity.ofNode).flatMap Identity.ports =
      (nodes.flatMap Node.listens).map UInt16.toNat := by
    rw [List.flatMap_map, List.map_flatMap]
    rfl
  have hindex : Function.Injective Int32.toInt := fun _ _ => Int32.toInt_inj.mp
  have hport : Function.Injective UInt16.toNat := fun _ _ => UInt16.toNat_inj.mp
  rw [checkIdentities_eq_ok_iff, IndicesFree, PortsFree, free_nil_iff, free_nil_iff, hreserved,
    hindices, hports, List.nodup_map_iff hindex, List.nodup_map_iff hport, and_assoc]

/-- Nodes that are filled in pass all checks exactly if the topology is well formed. -/
theorem wellFormed_iff_of_filled {t : Topology} {a : Allocator} {source : Path} {base base' : Nat}
    {nodes : List Node} (hfilled : fillFrom f 0 a t.nodes = .ok nodes)
    (hidentities : nodes.map Identity.ofNode = t.identities base base') :
    t.WellFormed base base' ↔ t.check source = .ok () ∧ checkIdentities nodes = .ok () ∧
      ∃ owners, Assignment.ofNodes nodes = .ok owners := by
  have hlists : nodes.map (·.producers) = t.nodes.map (·.2.producers) :=
    map_fillFrom (fun _ _ _ _ => rfl) hfilled
  have hproducers : nodes.flatMap (·.producers) = t.nodes.flatMap (·.2.producers) := by
    rw [List.flatMap_def, hlists, ← List.flatMap_def]
  rw [check_eq_ok_iff, checkIdentities_eq_ok_iff_identities, hidentities,
    Assignment.exists_ofNodes_iff, hproducers]
  constructor
  · intro h
    refine ⟨⟨h.names, h.bios, fun node hnode => ⟨h.peers node hnode, ?_⟩⟩,
      ⟨h.reserved, h.indices, h.ports⟩, h.owners⟩
    exact fun account haccount => Account.isValid_iff_isUsable.mpr (h.accounts _ hnode _ haccount)
  · intro hgiven
    obtain ⟨⟨hnames, hbios, hsound⟩, ⟨hreserved, hindices, hports⟩, howners⟩ := hgiven
    refine ⟨hnames, hbios, fun node hnode => (hsound node hnode).1, ?_, hindices, hreserved,
      hports, howners⟩
    intro node hnode account haccount
    exact Account.isValid_iff_isUsable.mp ((hsound node hnode).2 account haccount)

end Filled

/-- A topology whose numbers fit is accepted, with a fresh allocator, exactly if it is well
formed. -/
theorem exists_declaredNodes_iff (t : Topology) (source : Path) (f : Factory) (p2p http : UInt16)
    (hfits : t.Fits p2p.toNat http.toNat) :
    (∃ nodes, t.declaredNodes source f (.new p2p http) = .ok nodes) ↔
      t.WellFormed p2p.toNat http.toNat := by
  have hroom : (Allocator.new p2p http).Room (0 + regulars t.nodes) := by
    rw [Nat.zero_add]
    exact hfits.room
  obtain ⟨filled, hfilled, hidentities⟩ :=
    @exists_fillFrom f p2p http [] t.nodes 0 rfl hroom hfits.indices
  have hstart : fillFrom f 0 (.new p2p http) t.nodes = .ok filled := hfilled
  have hchecks : t.WellFormed p2p.toNat http.toNat ↔ t.check source = .ok () ∧
      checkIdentities filled = .ok () ∧ ∃ owners, Assignment.ofNodes filled = .ok owners :=
    wellFormed_iff_of_filled hstart hidentities
  rw [hchecks]
  constructor
  · intro hgiven
    obtain ⟨nodes, hdeclared⟩ := hgiven
    obtain ⟨hcheck, hsame, hrest⟩ := declaredNodes_eq_ok_iff.mp hdeclared
    rw [hstart, Except.ok.injEq] at hsame
    rw [hsame]
    exact ⟨hcheck, hrest⟩
  · intro hgiven
    obtain ⟨hcheck, hrest⟩ := hgiven
    exact ⟨filled, declaredNodes_eq_ok_iff.mpr ⟨hcheck, hstart, hrest⟩⟩

/-- A node that says its index and one that says a port: the last node counts on from both. With both
kinds of ports counted from one base the topology is no longer well formed, and is refused. -/
theorem exists_declaredNodes_iff_of_four :
    ∃ (t : Topology) (f : Factory),
      t.Fits 9876 8888 ∧ t.WellFormed 9876 8888 ∧
      (∃ nodes, t.declaredNodes ⟨"custom.json"⟩ f (.new 9876 8888) = .ok nodes) ∧
      t.identities 9876 8888 = [⟨"bios", -100, 9776, 8788⟩, ⟨"node_00", 0, 9876, 8888⟩,
        ⟨"remote", 7, 12000, 8889⟩, ⟨"last", 8, 9878, 8890⟩] ∧
      ¬ ∃ nodes, t.declaredNodes ⟨"custom.json"⟩ f (.new 9876 9876) = .ok nodes := by
  let blank : Description := ⟨none, [], [], false, none, none, []⟩
  let t : Topology := ⟨"custom_",
    [("bios", { blank with index := some 5, producers := ["eosio"] }),
      ("node_00", { blank with peers := ["bios", "remote"], producers := ["defproducera"] }),
      ("remote", { blank with index := some 7, p2pPort := some 12000, dontStart := true }),
      ("last", { blank with producers := ["shrproducera", "defproducerb"] })]⟩
  let f : Factory := ⟨⟨"etc"⟩, ⟨"var"⟩, 4, 0⟩
  have hfits : t.Fits 9876 8888 := ⟨by decide, by decide, by decide⟩
  have hsame : t.Fits 9876 9876 := ⟨by decide, by decide, by decide⟩
  have hwell : t.WellFormed 9876 8888 := by
    constructor <;> decide +kernel
  refine ⟨t, f, hfits, hwell, ?_, by decide, ?_⟩
  · exact (exists_declaredNodes_iff t ⟨"custom.json"⟩ f 9876 8888 hfits).mpr hwell
  · rw [exists_declaredNodes_iff t ⟨"custom.json"⟩ f 9876 9876 hsame]
    intro h
    exact absurd h.ports (by decide)

end Topology

end Testnet
