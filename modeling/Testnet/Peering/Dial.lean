import Testnet.Log
import Testnet.Node

/-!
# Dialling

Nodes are connected by position and known by name. A dial adds the name of one node to the peers of
another, at the end and only if it is accepted.
-/

namespace Testnet.Peering

/-- The node at the first position is to dial the one at the second. -/
structure Link where
  source : Nat
  target : Nat
deriving DecidableEq, Repr

/-- Gives the node at a position one more peer, if it accepts it. -/
def addPeerAt (nodes : List Node) (position : Nat) (peer : String) : List Node :=
  nodes.modify position (·.addPeer peer)

/-- Follows a link and says so if it is new. -/
def dial (nodes : List Node) (l : Link) : Logged (List Node) :=
  match nodes[l.source]?, nodes[l.target]? with
  | some source, some target =>
    { records :=
        if source.accepts target.name then
          [⟨.debug, source.name ++ " -> " ++ target.name⟩]
        else []
      value := addPeerAt nodes l.source target.name }
  | _, _ => pure nodes

def dialAll (nodes : List Node) (links : List Link) : Logged (List Node) := links.foldlM dial nodes

/-- Positions of the nodes other than the bios node. -/
def regularPositions (nodes : List Node) : List Nat :=
  (List.range nodes.length).filter fun i => nodes[i]?.any (!·.isBios)

/-- Every given node dials the bios node, if there is one. -/
def dialBios (nodes : List Node) (sources : List Nat) : List Node :=
  if nodes.any Node.isBios then
    sources.foldl (fun ns i => addPeerAt ns i Node.biosName) nodes
  else nodes

@[simp] theorem length_addPeerAt (nodes : List Node) (position : Nat) (peer : String) :
    (addPeerAt nodes position peer).length = nodes.length := by
  simp [addPeerAt]

theorem value_dial (nodes : List Node) (l : Link) :
    (dial nodes l).value =
      match nodes[l.source]?, nodes[l.target]? with
      | some _, some target => addPeerAt nodes l.source target.name
      | _, _ => nodes := by
  unfold dial
  split <;> rfl

end Testnet.Peering
