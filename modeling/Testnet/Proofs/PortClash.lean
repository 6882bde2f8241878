import Testnet.Proofs.Config.Check
import Testnet.Proofs.Redeclared

/-!
# When ports clash

The bios node listens a fixed distance below the bases, the regular nodes from the bases upward, and
all on one host. Each base is checked by itself, so the two ranges and the two ports below them may
overlap. They do not exactly when the distance of the bases is neither zero, nor too short for all
nodes, nor such that a port of the bios node falls among the ports of the others.
-/

namespace Testnet

/-- The port at a position above a base. -/
def portAbove (base : Nat) : Nat → Nat
  | 0 => base - Allocator.biosOffset.toNat
  | i + 1 => base + i

/-- Bases whose ports do not meet, for a number of nodes. -/
def Apart (p2p http nodes : Nat) : Prop :=
  0 < (p2p - http) + (http - p2p) ∧ nodes ≤ (p2p - http) + (http - p2p) + 1 ∧
    ((p2p - http) + (http - p2p) < Allocator.biosOffset.toNat ∨
      nodes + Allocator.biosOffset.toNat ≤ (p2p - http) + (http - p2p) + 1)

instance (p2p http nodes : Nat) : Decidable (Apart p2p http nodes) :=
  inferInstanceAs (Decidable (_ ∧ _))

namespace Config

/-- The bases of a configuration are far enough apart for its nodes. -/
def PortsApart (c : Config) : Prop :=
  Apart c.network.p2pBase.toNat c.network.httpBase.toNat c.network.totalNodes

instance (c : Config) : Decidable c.PortsApart := inferInstanceAs (Decidable (Apart _ _ _))

end Config

theorem portAbove_injective {base i j : Nat} (hbase : Allocator.biosOffset.toNat ≤ base)
    (h : portAbove base i = portAbove base j) : i = j := by
  have hoffset : Allocator.biosOffset.toNat = 100 := rfl
  cases i <;> cases j <;> simp only [portAbove] at h <;> omega

/-- Ports of different kinds meet at no two positions exactly when the bases are apart. -/
theorem forall_portAbove_ne_iff {p2p http nodes : Nat} (hnodes : 0 < nodes)
    (hp2p : Allocator.biosOffset.toNat ≤ p2p) (hhttp : Allocator.biosOffset.toNat ≤ http) :
    (∀ i < nodes, ∀ j < nodes, portAbove p2p i ≠ portAbove http j) ↔ Apart p2p http nodes := by
  have hoffset : Allocator.biosOffset.toNat = 100 := rfl
  unfold Apart
  rw [hoffset] at hp2p hhttp ⊢
  constructor
  · intro h
    have hbios := h 0 hnodes 0 hnodes
    simp only [portAbove, hoffset] at hbios
    refine ⟨by omega, ?_, ?_⟩
    · by_cases hle : p2p ≤ http
      · by_cases hfew : nodes ≤ http - p2p + 1
        · omega
        · have hmeet := h (http - p2p + 1) (by omega) 1 (by omega)
          simp only [portAbove] at hmeet
          omega
      · by_cases hfew : nodes ≤ p2p - http + 1
        · omega
        · have hmeet := h 1 (by omega) (p2p - http + 1) (by omega)
          simp only [portAbove] at hmeet
          omega
    · by_cases hle : p2p ≤ http
      · by_cases hfew : http - p2p < 100 ∨ nodes + 100 ≤ http - p2p + 1
        · omega
        · have hmeet := h (http - p2p - 100 + 1) (by omega) 0 hnodes
          simp only [portAbove, hoffset] at hmeet
          omega
      · by_cases hfew : p2p - http < 100 ∨ nodes + 100 ≤ p2p - http + 1
        · omega
        · have hmeet := h 0 hnodes (p2p - http - 100 + 1) (by omega)
          simp only [portAbove, hoffset] at hmeet
          omega
  · intro h i hi j hj
    cases i <;> cases j <;> simp only [portAbove, hoffset] <;> omega

variable {σ : Type} {c : Config} {files : FileTree} {source : KeySource σ} {state : σ} {s : Shape}
  {nodes : List Node} {net : Network}

section Nodes

variable {f : Factory} {a : Allocator} {n : Nat}

/-- A fresh allocator gives the node at a position the ports above the bases. -/
theorem toNat_ports_nodeAt {p2p http : UInt16} {i : Nat} (hi : i < n)
    (hroom : (Allocator.new p2p http).Room (n - 1)) :
    (f.nodeAt (.new p2p http) i).listens.map UInt16.toNat =
      [portAbove p2p.toNat i, portAbove http.toNat i] := by
  cases i with
  | zero =>
    show [(Allocator.below p2p).toNat, (Allocator.below http).toNat] = _
    rw [Allocator.toNat_below, Allocator.toNat_below]
    rfl
  | succ i =>
    have hfirst := Counter.toNat_portAt hroom.1 (show i < n - 1 by omega)
    have hsecond := Counter.toNat_portAt hroom.2 (show i < n - 1 by omega)
    show [(Counter.portAt _ i).toNat, (Counter.portAt _ i).toNat] = _
    rw [hfirst, hsecond]
    rfl

/-- No port stands twice exactly when the two kinds never meet. -/
theorem nodup_flatMap_portAbove_iff {p2p http : Nat}
    (hp2p : Allocator.biosOffset.toNat ≤ p2p) (hhttp : Allocator.biosOffset.toNat ≤ http) :
    ((List.range n).flatMap fun i => [portAbove p2p i, portAbove http i]).Nodup ↔
      ∀ i < n, ∀ j < n, portAbove p2p i ≠ portAbove http j := by
  have hpairs : (List.range n).Pairwise (fun i j => ∀ x ∈ [portAbove p2p i, portAbove http i],
      ∀ y ∈ [portAbove p2p j, portAbove http j], x ≠ y) ↔ ∀ i j, i < n → j < n → i < j →
        ∀ x ∈ [portAbove p2p i, portAbove http i], ∀ y ∈ [portAbove p2p j, portAbove http j],
          x ≠ y := by
    simp only [List.pairwise_iff_getElem, List.length_range, List.getElem_range]
  rw [List.nodup_iff_pairwise_ne, List.pairwise_flatMap, hpairs]
  constructor
  · intro h i hi j hj heq
    obtain ⟨hown, hothers⟩ := h
    rcases Nat.lt_trichotomy i j with hlt | rfl | hlt
    · exact hothers i j hi hj hlt _ (by simp) _ (by simp) heq
    · have hnode := hown i (List.mem_range.mpr hi)
      simp [heq] at hnode
    · exact hothers j i hj hi hlt _ (by simp) _ (by simp) heq.symm
  · intro h
    constructor
    · intro i hi
      have hne := h i (List.mem_range.mp hi) i (List.mem_range.mp hi)
      simpa using hne
    · intro i j hi hj hij x hx y hy heq
      simp only [List.mem_cons, List.not_mem_nil, or_false] at hx hy
      subst heq
      rcases hx with rfl | rfl
      · rcases hy with hsame | hmeet
        · have hposition := portAbove_injective hp2p hsame
          omega
        · exact h i hi j hj hmeet
      · rcases hy with hmeet | hsame
        · exact h j hj i hi hmeet.symm
        · have hposition := portAbove_injective hhttp hsame
          omega

end Nodes

/-- The ports of a network made by a rule, as numbers. -/
theorem map_toNat_listens (h : (generatedNodes c s source state).result = .ok nodes) :
    (nodes.flatMap Node.listens).map UInt16.toNat =
      (List.range c.network.totalNodes).flatMap fun i =>
        [portAbove c.network.p2pBase.toNat i, portAbove c.network.httpBase.toNat i] := by
  have hlistens := map_generated (fun _ => rfl) h (g := Node.listens)
  rw [List.flatMap_def, hlistens, ← List.flatMap_def, List.map_flatMap, List.flatMap_def,
    List.flatMap_def]
  refine congrArg List.flatten (List.map_congr_left fun i hi => ?_)
  exact toNat_ports_nodeAt (List.mem_range.mp hi) (plan_of_generated h).2

/-- The ports of a network are told apart exactly when its bases are apart. -/
theorem nodup_listens_iff (h : (generatedNodes c s source state).result = .ok nodes)
    (hcheck : c.check = .ok ()) : (nodes.flatMap Node.listens).Nodup ↔ c.PortsApart := by
  obtain ⟨_, _, hp2p, hhttp, _⟩ := Config.check_eq_ok_iff.mp hcheck
  have hnumbers : ((nodes.flatMap Node.listens).map UInt16.toNat).Nodup ↔
      (nodes.flatMap Node.listens).Nodup := by
    rw [List.nodup_iff_pairwise_ne, List.nodup_iff_pairwise_ne, List.pairwise_map]
    simp only [ne_eq, UInt16.toNat_inj]
  rw [← hnumbers, map_toNat_listens h, nodup_flatMap_portAbove_iff hp2p.1 hhttp.1]
  exact forall_portAbove_ne_iff (plan_of_generated h).1 hp2p.1 hhttp.1

/-- Every node listens at two ports. -/
theorem length_listens (nodes : List Node) :
    (nodes.flatMap Node.listens).length = 2 * nodes.length := by
  rw [List.length_flatMap]
  show (nodes.map fun _ => 2).sum = 2 * nodes.length
  rw [List.map_const', List.sum_replicate_nat, Nat.mul_comm]

/-- A topology is refused for a port where it is filled in, not before. -/
theorem declaredNodes_of_duplicatePort {path : Path} {t : Topology} {port : UInt16}
    {first second : String} (hload : Topology.load files path = .ok t)
    (h : (loadedNodes c files path).result =
      .error (.rejected (.duplicatePort port first second))) :
    t.declaredNodes path c.factory c.allocator =
      .error (.refused (.duplicatePort port first second)) := by
  rw [result_loadedNodes hload] at h
  cases hdeclared : t.declaredNodes path c.factory c.allocator with
  | ok declared =>
    rw [hdeclared] at h
    cases h
  | error why =>
    rw [hdeclared] at h
    cases why with
    | refused why =>
      cases h
      rfl
    | overflow what => cases h

/-- Nodes whose ports are told apart are not refused for a port, whatever the rest of the
configuration is. -/
theorem loadedNodes_ne_duplicatePort {path : Path} {name : String}
    (hports : (nodes.flatMap Node.listens).Nodup)
    (htext : files.readText path = some (Topology.ofNodes name nodes).text) (port : UInt16)
    (first second : String) :
    (loadedNodes c files path).result ≠
      .error (.rejected (.duplicatePort port first second)) := by
  intro herror
  have hdeclared := declaredNodes_of_duplicatePort (Topology.load_text htext) herror
  obtain ⟨filled, hfilled, hclash⟩ := Topology.not_nodup_of_declaredNodes hdeclared
  have hlistens := congrArg (List.map fun p : Ports => [p.p2p, p.http])
    (Topology.ports_fillFrom_ofNodes hfilled)
  rw [List.map_map, List.map_map] at hlistens
  have hsame : filled.flatMap Node.listens = nodes.flatMap Node.listens := by
    rw [List.flatMap_def, List.flatMap_def]
    exact congrArg List.flatten hlistens
  rw [hsame] at hclash
  exact hclash hports

/-- A network made by a rule has its ports told apart exactly when its bases are apart. Then no run
that reads its topology refuses it for a port; otherwise a run of the same configuration does. -/
theorem ports_apart_iff (c : Config) (files : FileTree) (now : Timestamp) (source : KeySource σ)
    (state : σ) (s : Shape) (net : Network) (hshape : Shape.resolve files c.network.shape = .ok s)
    (hrule : s.isCustom = false) (hbuild : (build c files now source state).result = .ok net) :
    (net.nodes.flatMap Node.listens).length = 2 * c.network.totalNodes ∧
    ((net.nodes.flatMap Node.listens).Nodup ↔ c.PortsApart) ∧
    (c.PortsApart → ∀ (c' : Config) (files' : FileTree) (path : Path),
      files'.readText path = some net.topology.text → ∀ port first second,
        (loadedNodes c' files' path).result ≠
          .error (.rejected (.duplicatePort port first second))) ∧
    (¬ c.PortsApart → ∀ (files' : FileTree) (path : Path),
      files'.readText path = some net.topology.text → ∃ port first second,
        (loadedNodes c files' path).result =
          .error (.rejected (.duplicatePort port first second))) := by
  obtain ⟨hcheck, shape, _, hresolve, hnodes, hgraph, _⟩ := build_eq_ok_iff.mp hbuild
  rw [hshape] at hresolve
  cases hresolve
  rw [shapedNodes_of_rule hrule] at hnodes
  have happart := nodup_listens_iff hnodes hcheck
  refine ⟨?_, happart, ?_, ?_⟩
  · have hlength := congrArg List.length (origin_generated hnodes)
    rw [List.length_map, Factory.length_made] at hlength
    rw [length_listens, hlength]
  · intro hfar c' files' path htext
    exact loadedNodes_ne_duplicatePort (happart.mpr hfar) htext
  · intro hnear files' path htext
    rcases declaredNodes_generated hnodes hgraph net.name path with ⟨hports, _⟩ | hrefused
    · exact absurd (happart.mp hports) hnear
    · obtain ⟨_, port, first, second, hdeclared⟩ := hrefused
      refine ⟨port, first, second, ?_⟩
      have hown : net.topology.declaredNodes path c.factory c.allocator =
          .error (.refused (.duplicatePort port first second)) := hdeclared
      rw [result_loadedNodes (Topology.load_text htext), hown]
      rfl

/-- On bases a hundred apart the bios node listens where the first regular node does, and the
topology of two nodes is refused for it. -/
theorem ports_apart_iff_of_hundred :
    ∃ (c : Config) (net : Network), c.network.p2pBase = 9000 ∧ c.network.httpBase = 8900 ∧
      (build c (.empty []) .leapDay .development ()).result = .ok net ∧
      ¬ (net.nodes.flatMap Node.listens).Nodup ∧
      ∃ port first second,
        (loadedNodes c ⟨[], [(["t.json"], .file (.text net.topology.text))]⟩ ⟨"t.json"⟩).result =
          .error (.rejected (.duplicatePort port first second)) := by
  let layout : Config.Layout := { Config.Layout.standard with p2pBase := 9000, httpBase := 8900 }
  let c : Config := { Config.standard with network := layout }
  have hshape : Shape.resolve (.empty []) "mesh" = .ok .mesh := rfl
  have hnear : ¬ c.PortsApart := by decide
  obtain ⟨net, hbuild⟩ : ∃ net, (build c (.empty []) .leapDay .development ()).result = .ok net :=
    exists_of_isSome (by decide +kernel)
  obtain ⟨_, happart, _, hrefused⟩ :=
    ports_apart_iff c (.empty []) .leapDay .development () .mesh net hshape rfl hbuild
  exact ⟨c, net, rfl, rfl, hbuild, fun hports => hnear (happart.mp hports), hrefused hnear _ _ rfl⟩

end Testnet
