import Testnet.Node

/-!
# Peer graphs

A list of nodes is a graph when every peer is the name of another node of the list.
-/

namespace Testnet.Peering

/-- The first fault of a list of nodes as a graph. -/
inductive GraphFault where
  | selfPeer (node : String)
  | unknownPeer (node peer : String)
deriving DecidableEq, Repr

def GraphFault.message : GraphFault → String
  | selfPeer node => "Node '" ++ node ++ "' peers itself"
  | unknownPeer node peer => "Node '" ++ node ++ "' peers unknown node '" ++ peer ++ "'"

/-- The fault of one peer of a node. -/
def peerFault? (names : List String) (node peer : String) : Option GraphFault :=
  if peer = node then some (.selfPeer node)
  else if names.contains peer then none
  else some (.unknownPeer node peer)

def graphFault? (nodes : List Node) : Option GraphFault :=
  nodes.findSome? fun n => n.peers.findSome? (peerFault? (nodes.map (·.name)) n.name)

def checkGraph (nodes : List Node) : Except GraphFault Unit :=
  match graphFault? nodes with
  | some fault => .error fault
  | none => .ok ()

end Testnet.Peering
