import Testnet.Account
import Testnet.Key
import Testnet.Path
import Testnet.Port

/-!
# Nodes

A node of the network being described: who it is, where it lives, which accounts it signs for and
which other nodes it dials. The bios node, which starts the chain, is the one with the reserved
index.
-/

namespace Testnet

structure Node where
  index : Int32
  name : String
  configDir : Path
  dataDir : Path
  producers : List String
  peers : List String
  ports : Ports
  dontStart : Bool
  keys : List KeyPair
deriving DecidableEq, Repr

namespace Node

def biosIndex : Int32 := -100

def biosName : String := "bios"

/-- Names of regular nodes carry the ordinal with at least two digits. -/
def regularName (ordinal : Nat) : String :=
  (if ordinal < 10 then "node_0" else "node_") ++ toString ordinal

def isBios (n : Node) : Bool := n.index == biosIndex

def hasPeer (n : Node) (peer : String) : Bool := n.peers.contains peer

/-- Whether a node would take on a peer: neither itself nor one it has. -/
def accepts (n : Node) (peer : String) : Bool := peer != n.name && !n.hasPeer peer

/-- The node with one more peer at the end of its list, if it accepts it. -/
def addPeer (n : Node) (peer : String) : Node :=
  if n.accepts peer then { n with peers := n.peers ++ [peer] } else n

def isProducing (n : Node) : Bool := !n.producers.isEmpty

def firstPublicKey (n : Node) : Option String := n.keys.head?.map (·.publicKey)

theorem addPeer_eq_self {n : Node} {peer : String} (h : n.accepts peer = false) :
    n.addPeer peer = n := by
  simp [addPeer, h]

theorem peers_addPeer (n : Node) (peer : String) :
    (n.addPeer peer).peers = n.peers ++ (if n.accepts peer then [peer] else []) := by
  unfold addPeer
  split <;> simp

@[simp] theorem name_addPeer (n : Node) (peer : String) : (n.addPeer peer).name = n.name := by
  unfold addPeer; split <;> rfl

@[simp] theorem index_addPeer (n : Node) (peer : String) : (n.addPeer peer).index = n.index := by
  unfold addPeer; split <;> rfl

@[simp] theorem producers_addPeer (n : Node) (peer : String) :
    (n.addPeer peer).producers = n.producers := by
  unfold addPeer; split <;> rfl

@[simp] theorem isBios_addPeer (n : Node) (peer : String) :
    (n.addPeer peer).isBios = n.isBios := by
  simp [isBios]

end Node

end Testnet
