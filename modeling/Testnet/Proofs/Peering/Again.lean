import Testnet.Proofs.Peering.Connect

/-!
# Connecting again

Apart from larger stars, the links of a shape depend on the positions of the regular nodes and on
what they hold, but not on peers. So connecting nodes again follows the same links, and each of them
leads to a peer that its node has by then or to a node of its own name. Nothing is assumed of the
nodes: names may repeat, and there may be peers from before.
-/

namespace Testnet.Peering

variable {nodes : List Node} {links : List Link} {sources : List Nat}

theorem linked_nil (ns : List Node) : linked ns [] [] = ns := by
  unfold linked dialBios
  split <;> rfl

/-- Following the same links again changes nothing. -/
theorem linked_linked :
    linked (linked nodes links sources) links sources = linked nodes links sources := by
  have hnames : ∀ j : Nat, (linked nodes links sources)[j]?.map (·.name) =
      nodes[j]?.map (·.name) := by
    intro j
    rw [← List.getElem?_map, ← List.getElem?_map, names_of_bare bare_linked]
  have hbios : (dialAll (linked nodes links sources) links).value.any Node.isBios =
      (dialAll nodes links).value.any Node.isBios := by
    refine any_isBios_congr ?_
    rw [bare_dialAll, bare_dialAll, bare_linked]
  apply List.ext_getElem?
  intro i
  have hbiosDialled : biosDialled (dialAll (linked nodes links sources) links).value sources i =
      biosDialled (dialAll nodes links).value sources i := by
    unfold biosDialled
    rw [hbios]
  rw [getElem?_linked, dialled_congr hnames, hbiosDialled, getElem?_linked, Option.map_map]
  exact congrArg (Option.map · nodes[i]?) (funext fun n => n.addPeers_addPeers _)

/-- A shape whose links are found from the positions of the regular nodes follows the same ones
whatever peers there are. -/
theorem exists_linked_of_joinRegular {s : Shape} (hs : s.dialsBios = true) (producers : Nat)
    {rule : List Nat → List Link}
    (hrule : ∀ ns : List Node, ns.map Node.bare = nodes.map Node.bare →
      joinRegular s ns = (dialAll ns (rule (regularPositions ns))).value) :
    ∃ links sources outcome, ∀ ns : List Node, ns.map Node.bare = nodes.map Node.bare →
      (connect s producers ns).value = ⟨linked ns links sources, outcome⟩ := by
  refine ⟨rule (regularPositions nodes), regularPositions nodes, .ok (), fun ns hns => ?_⟩
  rw [connect_of_dialsBios hs, hrule ns hns, regularPositions_congr hns]
  rfl

/-- Which links are followed, who dials the bios node and how it ends does not depend on peers,
except in stars of four regular nodes or more. -/
theorem exists_linked_connect (s : Shape) (producers : Nat) (nodes : List Node)
    (hs : s = .star → (regularPositions nodes).length < 4) :
    ∃ links sources outcome, ∀ ns : List Node, ns.map Node.bare = nodes.map Node.bare →
      (connect s producers ns).value = ⟨linked ns links sources, outcome⟩ := by
  cases s with
  | line => exact exists_linked_of_joinRegular rfl producers fun ns _ => rfl
  | ring => exact exists_linked_of_joinRegular rfl producers fun ns _ => rfl
  | mesh => exact exists_linked_of_joinRegular rfl producers fun ns _ => rfl
  | star =>
    refine exists_linked_of_joinRegular rfl producers fun ns hns => value_star_of_few ?_
    rw [regularPositions_congr hns]
    exact hs rfl
  | bridge =>
    cases hg : classify nodes producers with
    | error why =>
      refine ⟨[], [], .error why, fun ns hns => ?_⟩
      rw [connect_bridge_of_error ((classify_congr producers hns).trans hg), linked_nil]
    | ok g =>
      refine ⟨bridgeLinks g, g.bridges, .ok (), fun ns hns => ?_⟩
      rw [connect_bridge_of_ok ((classify_congr producers hns).trans hg), bridged]
  | custom source =>
    refine ⟨[], [], .ok (), fun ns _ => ?_⟩
    rw [linked_nil]
    rfl

/-- Connecting nodes once more by the same shape ends in the same way and changes nothing, not even
the order of a node's peers. -/
theorem connect_again (s : Shape) (producers : Nat) (nodes : List Node)
    (hs : s = .star → (regularPositions nodes).length < 4) :
    (connect s producers (connect s producers nodes).value.nodes).value =
      (connect s producers nodes).value := by
  obtain ⟨links, sources, outcome, hconnect⟩ := exists_linked_connect s producers nodes hs
  rw [hconnect nodes rfl, hconnect _ bare_linked, linked_linked]

/-- A star of three regular nodes, two of which share a name, and one of which has a peer. -/
theorem connect_again_of_namesakes :
    ∃ nodes nodes' : List Node, (regularPositions nodes).length = 3 ∧ ¬ (nodes.map (·.name)).Nodup ∧
      nodes'.map (·.peers) = [[], ["bios"], ["far", "b", "bios"], ["bios"]] ∧
      (connect .star 0 nodes).value = ⟨nodes', .ok ()⟩ ∧
      (connect .star 0 nodes').value = ⟨nodes', .ok ()⟩ := by
  let blank : Node := ⟨0, "a", ⟨"etc"⟩, ⟨"var"⟩, [], [], ⟨0, 0⟩, false, []⟩
  let nodes : List Node := [{ blank with index := -100, name := "bios" }, blank,
    { blank with peers := ["far"] }, { blank with name := "b" }]
  have hfew : (regularPositions nodes).length = 3 := by decide
  have honce := connect_again .star 0 nodes fun _ => by omega
  have hfirst : (connect .star 0 nodes).value = ⟨(connect .star 0 nodes).value.nodes, .ok ()⟩ := rfl
  exact ⟨nodes, _, hfew, by decide, by decide, hfirst, honce.trans hfirst⟩

end Testnet.Peering
