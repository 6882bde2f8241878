import Testnet.Assignment
import Testnet.Genesis.Basic

/-!
# Networks

A network that has been built: its nodes in the order they were made, and what its chain starts
from. Nodes are looked up by name or by index; the first one found counts.
-/

namespace Testnet

structure Network where
  name : String
  nodes : List Node
  genesis : Genesis
deriving Repr

namespace Network

def node? (n : Network) (name : String) : Option Node := n.nodes.find? (·.name == name)

def nodeByIndex? (n : Network) (index : Int32) : Option Node := n.nodes.find? (·.index == index)

def bios? (n : Network) : Option Node := n.node? Node.biosName

def assignment (n : Network) : Except Rejection Assignment := Assignment.ofNodes n.nodes

/-- The nodes to start. -/
def started (n : Network) : List Node := n.nodes.filter (!·.dontStart)

def topology (n : Network) : Topology := .ofNodes n.name n.nodes

end Network

end Testnet
