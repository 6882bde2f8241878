import Testnet.Peering.Connect
import Testnet.Proofs.Peering.Bridge

/-!
# Connecting only adds peers

Whatever the shape, connecting leaves everything but the peers of the nodes as it was, and nodes
keep the peers that they had.
-/

namespace Testnet

/-- Shapes in which every regular node dials the bios node. -/
def Shape.dialsBios : Shape → Bool
  | .bridge => false
  | .custom _ => false
  | _ => true

namespace Peering

theorem grown_dialStar (positions : List Nat) (links gap : Nat) (nodes : List Node) (i l : Nat) :
    Grown nodes (dialStar positions links gap nodes i l).value := by
  unfold dialStar
  split
  · exact .refl nodes
  · split
    · exact grown_dialAll nodes [_]
    · exact .refl nodes

/-- The turns are taken on the nodes as the turns before have left them. -/
theorem grown_foldl_dialStar (positions : List Nat) (links gap : Nat) (turns : List (Nat × Nat))
    (nodes : List Node) : Grown nodes (turns.foldl (fun ns turn =>
      (dialStar positions links gap ns turn.1 turn.2).value) nodes) := by
  induction turns generalizing nodes with
  | nil => exact .refl nodes
  | cons turn rest ih =>
    rw [List.foldl_cons]
    exact (grown_dialStar positions links gap nodes turn.1 turn.2).trans (ih _)

theorem grown_star (nodes : List Node) : Grown nodes (star nodes).value := by
  unfold star
  simp only
  split
  · rw [Logged.value_bind]
    exact grown_dialAll nodes _
  · rw [Logged.value_bind, Logged.value_foldlM]
    exact grown_foldl_dialStar _ _ _ _ nodes

/-- A star of fewer than four regular nodes is a line. -/
theorem value_star_of_few {nodes : List Node} (h : (regularPositions nodes).length < 4) :
    (star nodes).value = (dialAll nodes (lineLinks (regularPositions nodes))).value := by
  unfold star
  simp only
  rw [if_pos h, Logged.value_bind]

/-- The nodes after a shape has connected the regular ones among themselves. -/
def joinRegular (s : Shape) (nodes : List Node) : List Node :=
  match s with
  | .line => (dialAll nodes (lineLinks (regularPositions nodes))).value
  | .ring => (dialAll nodes (ringLinks (regularPositions nodes))).value
  | .mesh => (dialAll nodes (meshLinks (regularPositions nodes))).value
  | .star => (star nodes).value
  | _ => nodes

theorem grown_joinRegular (s : Shape) (nodes : List Node) : Grown nodes (joinRegular s nodes) := by
  cases s with
  | line => exact grown_dialAll nodes _
  | ring => exact grown_dialAll nodes _
  | mesh => exact grown_dialAll nodes _
  | star => exact grown_star nodes
  | _ => exact .refl nodes

theorem bare_joinRegular (s : Shape) (nodes : List Node) :
    (joinRegular s nodes).map Node.bare = nodes.map Node.bare := (grown_joinRegular s nodes).bare

theorem connect_of_dialsBios {s : Shape} (hs : s.dialsBios = true) (producers : Nat)
    (nodes : List Node) : (connect s producers nodes).value =
      ⟨dialBios (joinRegular s nodes) (regularPositions nodes), .ok ()⟩ := by
  cases s with
  | bridge => cases hs
  | custom _ => cases hs
  | _ => rfl

theorem connect_bridge_of_ok {nodes : List Node} {producers : Nat} {g : Groups}
    (h : classify nodes producers = .ok g) :
    (connect .bridge producers nodes).value = ⟨bridged nodes g, .ok ()⟩ := by
  unfold connect
  rw [h]
  rfl

theorem connect_bridge_of_error {nodes : List Node} {producers : Nat} {e : Rejection}
    (h : classify nodes producers = .error e) :
    (connect .bridge producers nodes).value = ⟨nodes, .error e⟩ := by
  unfold connect
  rw [h]
  rfl

/-- Connecting only adds peers, whatever the nodes are and whether or not it succeeds. -/
theorem grown_connect (s : Shape) (producers : Nat) (nodes : List Node) :
    Grown nodes (connect s producers nodes).value.nodes := by
  by_cases hs : s.dialsBios = true
  · rw [connect_of_dialsBios hs]
    exact (grown_joinRegular s nodes).trans (grown_dialBios _ _)
  cases s with
  | bridge =>
    cases hg : classify nodes producers with
    | error e =>
      rw [connect_bridge_of_error hg]
      exact .refl nodes
    | ok g =>
      rw [connect_bridge_of_ok hg]
      exact (grown_dialAll nodes (bridgeLinks g)).trans (grown_dialBios _ _)
  | custom _ => exact .refl nodes
  | _ => exact absurd rfl hs

theorem bare_connect (s : Shape) (producers : Nat) (nodes : List Node) :
    (connect s producers nodes).value.nodes.map Node.bare = nodes.map Node.bare :=
  (grown_connect s producers nodes).bare

/-- Only a bridge can fail, and then nothing has been changed. -/
theorem nodes_connect_of_error {s : Shape} {producers : Nat} {nodes : List Node} {why : Rejection}
    (h : (connect s producers nodes).value.outcome = .error why) :
    (connect s producers nodes).value.nodes = nodes := by
  by_cases hs : s.dialsBios = true
  · rw [connect_of_dialsBios hs] at h
    cases h
  cases s with
  | bridge =>
    cases hg : classify nodes producers with
    | error _ => rw [connect_bridge_of_error hg]
    | ok g =>
      rw [connect_bridge_of_ok hg] at h
      cases h
  | custom _ => rfl
  | _ => exact absurd rfl hs

/-- A bridge that is connected has groups, and is what bridging makes of them. -/
theorem connect_bridge_eq_ok {producers : Nat} {nodes nodes' : List Node}
    (h : (connect .bridge producers nodes).value = ⟨nodes', .ok ()⟩) :
    ∃ g, classify nodes producers = .ok g ∧ nodes' = bridged nodes g := by
  cases hg : classify nodes producers with
  | error e =>
    rw [connect_bridge_of_error hg] at h
    cases h
  | ok g =>
    rw [connect_bridge_of_ok hg] at h
    cases h
    exact ⟨g, rfl, rfl⟩

end Peering

end Testnet
