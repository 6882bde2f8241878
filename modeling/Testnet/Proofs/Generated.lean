import Testnet.Proofs.Binding
import Testnet.Proofs.Build
import Testnet.Proofs.Peering.Connect

/-!
# Networks made by a rule

Binding and connecting add to the nodes that the factory makes and take nothing away. So a network
made by a rule has the names, places and ports that the positions give, and what a shape promises
about its own nodes holds of the network.
-/

namespace Testnet

namespace Node

/-- All of a node that its position decides. -/
def origin (n : Node) : Node := n.bare.unbound

end Node

namespace Factory

variable {f : Factory} {a : Allocator} {n : Nat}

theorem origin_nodeAt (i : Nat) : (f.nodeAt a i).origin = f.nodeAt a i := by
  cases i <;> rfl

theorem origin_made : (f.made a n).map Node.origin = f.made a n := by
  rw [made, List.map_map]
  exact List.map_congr_left fun i _ => origin_nodeAt i

/-- Fresh nodes are told apart by their names, dial nobody, and the first alone is the bios node. -/
theorem unconnected_made (hn : 0 < n) (hroom : a.Room (n - 1)) :
    Peering.Unconnected (f.made a n) := by
  have hlimit : Counter.portLimit = 65536 := rfl
  have hports := hroom.lt_portLimit
  have hget : ∀ {i : Nat} {m : Node}, (f.made a n)[i]? = some m → i < n ∧ m = f.nodeAt a i := by
    intro i m hm
    rw [getElem?_made] at hm
    split at hm
    case isTrue hi =>
      cases hm
      exact ⟨hi, rfl⟩
    case isFalse => cases hm
  constructor
  case names =>
    intro i j b c hb hc hname
    obtain ⟨_, rfl⟩ := hget hb
    obtain ⟨_, rfl⟩ := hget hc
    exact name_nodeAt_injective hname
  case silent =>
    intro i b hb
    obtain ⟨_, rfl⟩ := hget hb
    exact peers_nodeAt i
  case first =>
    refine ⟨f.nodeAt a 0, ?_, rfl⟩
    rw [getElem?_made, if_pos hn]
  case bios =>
    intro i b hb
    obtain ⟨hi, rfl⟩ := hget hb
    rw [isBios_nodeAt (by omega), beq_iff_eq]

end Factory

namespace Peering

/-- Accounts and keys do not matter for whether nodes are connected. -/
theorem Unconnected.of_unbound {nodes nodes' : List Node} (h' : Unconnected nodes')
    (h : nodes.map Node.unbound = nodes'.map Node.unbound) : Unconnected nodes := by
  have hget : ∀ {i : Nat} {m : Node}, nodes[i]? = some m →
      ∃ m', nodes'[i]? = some m' ∧ m'.unbound = m.unbound := by
    intro i m hm
    have hi := congrArg (fun l : List Node => l[i]?) h
    simp only [List.getElem?_map, hm, Option.map_some] at hi
    exact Option.map_eq_some_iff.mp hi.symm
  have hname : ∀ {m m' : Node}, m'.unbound = m.unbound → m'.name = m.name :=
    fun heq => congrArg (·.name) heq
  constructor
  case names =>
    intro i j b c hb hc heq
    obtain ⟨b', hb', hbound⟩ := hget hb
    obtain ⟨c', hc', hcbound⟩ := hget hc
    exact h'.names hb' hc' ((hname hbound).trans (heq.trans (hname hcbound).symm))
  case silent =>
    intro i b hb
    obtain ⟨b', hb', hbound⟩ := hget hb
    have hpeers : b'.peers = b.peers := congrArg (·.peers) hbound
    rw [← hpeers]
    exact h'.silent hb'
  case first =>
    obtain ⟨b', hb', hbios⟩ := h'.first
    have hi := congrArg (fun l : List Node => l[0]?) h
    simp only [List.getElem?_map, hb', Option.map_some] at hi
    obtain ⟨b, hb, hbound⟩ := Option.map_eq_some_iff.mp hi
    exact ⟨b, hb, (hname hbound).trans hbios⟩
  case bios =>
    intro i b hb
    obtain ⟨b', hb', hbound⟩ := hget hb
    have hbios : b'.isBios = b.isBios := by
      show b'.unbound.isBios = b.unbound.isBios
      rw [hbound]
    rw [← hbios]
    exact h'.bios hb'

end Peering

variable {σ : Type} {c : Config} {files : FileTree} {source : KeySource σ} {state : σ} {s : Shape}
  {nodes : List Node}

/-- A network made by a rule connects nodes that were not connected before, as many as the
configuration says, and bound by its plan. -/
theorem exists_unconnected_of_generated
    (h : (generatedNodes c s source state).result = .ok nodes) :
    ∃ bound, Peering.Unconnected bound ∧
      (Peering.connect s c.network.producers bound).value = ⟨nodes, .ok ()⟩ ∧
      bound.map Node.unbound = c.factory.made c.allocator c.network.totalNodes ∧
      ∃ owners, (Binding.bind c.plan source state
        (c.factory.made c.allocator c.network.totalNodes)).value = ⟨bound, .ok owners⟩ := by
  obtain ⟨hplan, _, fresh, owners, hfresh, howners, hconnect⟩ := generatedNodes_eq_ok_iff.mp h
  obtain ⟨hroom, rfl⟩ := Factory.createAll_eq_ok_iff.mp hfresh
  obtain ⟨htotal, _⟩ := Plan.check_eq_ok_iff.mp hplan
  have hbound := @Binding.unbound_bind c.plan σ source state
    (c.factory.made c.allocator c.network.totalNodes)
  refine ⟨_, (Factory.unconnected_made htotal hroom).of_unbound hbound, hconnect, ?_, owners, ?_⟩
  · rw [hbound, Factory.made, List.map_map]
    apply List.map_congr_left
    intro i _
    cases i <;> rfl
  · rw [← howners]

/-- What the position decides is in the network as it was made. -/
theorem origin_generated (h : (generatedNodes c s source state).result = .ok nodes) :
    nodes.map Node.origin = c.factory.made c.allocator c.network.totalNodes := by
  obtain ⟨bound, _, hconnect, hbound, _⟩ := exists_unconnected_of_generated h
  have hbare := Peering.bare_connect s c.network.producers bound
  rw [hconnect] at hbare
  have horigin := congrArg (List.map Node.unbound) hbare
  rw [List.map_map, List.map_map] at horigin
  have hpeerless : bound.map Node.origin = c.factory.made c.allocator c.network.totalNodes := by
    have hmade := congrArg (List.map Node.origin) hbound
    rw [List.map_map, Factory.origin_made] at hmade
    exact hmade
  exact horigin.trans hpeerless

/-- Every network that is built as a bridge falls apart into its two groups when the bridges are
taken away, and is connected while they are there. -/
theorem bridge_isolates (c : Config) (files : FileTree) (now : Timestamp) (source : KeySource σ)
    (state : σ) (net : Network) (hshape : Shape.resolve files c.network.shape = .ok .bridge)
    (hbuild : (build c files now source state).result = .ok net) :
    ∃ g, Peering.classify net.nodes c.network.producers = .ok g ∧
      Peering.Isolates net.nodes g := by
  obtain ⟨_, shape, _, hresolve, hnodes, _⟩ := build_eq_ok_iff.mp hbuild
  rw [hshape] at hresolve
  cases hresolve
  rw [shapedNodes_of_rule rfl] at hnodes
  obtain ⟨bound, hunconnected, hconnect, _⟩ := exists_unconnected_of_generated hnodes
  obtain ⟨g, hg, hbridged⟩ := Peering.connect_bridge_eq_ok hconnect
  have hbare := Peering.bare_connect .bridge c.network.producers bound
  rw [hconnect] at hbare
  refine ⟨g, ?_, ?_⟩
  · rw [Peering.classify_congr c.network.producers hbare]
    exact hg
  · rw [hbridged]
    exact Peering.isolates_bridged hunconnected hg

/-- Two regular nodes with accounts and one without make a bridge, in a network whose genesis has
the time of the clock. -/
theorem bridge_isolates_of_four :
    ∃ (c : Config) (net : Network) (g : Peering.Groups), c.network.totalNodes = 4 ∧
      c.genesisOverrides.AsksClock ∧
      (build c (.empty []) .leapDay .development ()).result = .ok net ∧
      Peering.Isolates net.nodes g := by
  let layout : Config.Layout :=
    { Config.Layout.standard with
      shape := "bridge", totalNodes := 4, producerNodes := 3, producers := 2 }
  let c : Config := { Config.standard with network := layout, genesis := .clocked }
  have hshape : Shape.resolve (.empty []) "bridge" = .ok .bridge := rfl
  obtain ⟨net, hbuild⟩ : ∃ net, (build c (.empty []) .leapDay .development ()).result = .ok net :=
    exists_of_isSome (by decide +kernel)
  obtain ⟨g, _, hisolates⟩ :=
    bridge_isolates c (.empty []) .leapDay .development () net hshape hbuild
  exact ⟨c, net, g, rfl, rfl, hbuild, hisolates⟩

end Testnet
