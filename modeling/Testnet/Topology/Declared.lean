import Testnet.Assignment
import Testnet.Factory
import Testnet.Topology.Basic

/-!
# Declared nodes

Makes the nodes that a topology declares. Nothing is computed but what the topology leaves out:
indices count on from the node before, ports come from the allocator. A topology is refused when its
names, peers and accounts do not fit together, or when the indices and ports filled in clash.
-/

namespace Testnet.Topology

/-- A name that stands twice, where it stands for the second time. -/
def repeatedName? : List String → List String → Option String
  | _, [] => none
  | seen, name :: rest =>
    if seen.contains name then some name else repeatedName? (name :: seen) rest

def peerRejection? (declared : List String) (node peer : String) : Option Rejection :=
  if peer = node then some (.selfPeer node)
  else if declared.contains peer then none
  else some (.unknownPeer node peer)

/-- What is wrong with the peers of a node, or else with its accounts. -/
def descriptionRejection? (declared : List String) (node : String × Description) :
    Option Rejection :=
  (node.2.peers.findSome? (peerRejection? declared node.1)).or
    ((node.2.producers.find? (!Account.isValid ·)).map .invalidProducerName)

/-- Checks a topology before any node is made. -/
def check (t : Topology) (source : Path) : Except Rejection Unit :=
  let declared := t.nodes.map (·.1)
  match repeatedName? [] declared with
  | some name => .error (.duplicateNode name)
  | none =>
    if !declared.contains Node.biosName then .error (.missingBios source)
    else
      match t.nodes.findSome? (descriptionRejection? declared) with
      | some why => .error why
      | none => .ok ()

/-- The node of a description, with what it leaves out. -/
def declaredNode (f : Factory) (name : String) (d : Description) (index : Int32)
    (ports : Ports) : Node where
  index := index
  name := name
  configDir := f.configDir.join name
  dataDir := f.dataDir.join name
  producers := d.producers
  peers := d.peers
  ports := ⟨d.p2pPort.getD ports.p2p, d.httpPort.getD ports.http⟩
  dontStart := d.dontStart
  keys := d.keys

/-- The index after another one, if it is a word. -/
def indexAfter (i : Int32) : Except Overflow Int32 :=
  if i.toInt + 1 < 0x80000000 then .ok (i + 1) else .error .add

/-- Makes node after node. Every node but the bios node takes a pair of ports whether or not it
needs it, and moves the next index on. -/
def fillFrom (f : Factory) : Int32 → Allocator → List (String × Description) →
    Except Overflow (List Node)
  | _, _, [] => .ok []
  | next, a, (name, d) :: rest =>
    if name = Node.biosName then do
      let nodes ← fillFrom f next a rest
      pure (declaredNode f name d Node.biosIndex a.biosPorts :: nodes)
    else do
      let index := d.index.getD next
      let ports ← a.nextPair.1
      let nodes ← fillFrom f (← indexAfter index) a.nextPair.2 rest
      pure (declaredNode f name d index ports :: nodes)

/-- Names by the indices and by the ports that the nodes so far have taken. -/
structure Taken where
  indices : List (Int32 × String)
  ports : List (UInt16 × String)
deriving DecidableEq, Repr

namespace Taken

def takeIndex (t : Taken) (n : Node) : Except Rejection Taken :=
  if n.index = Node.biosIndex ∧ n.name ≠ Node.biosName then .error (.reservedIndex n.name)
  else
    match t.indices.lookup n.index with
    | some first => .error (.duplicateIndex n.index first n.name)
    | none => .ok { t with indices := (n.index, n.name) :: t.indices }

def takePort (t : Taken) (n : Node) (port : UInt16) : Except Rejection Taken :=
  match t.ports.lookup port with
  | some first => .error (.duplicatePort port first n.name)
  | none => .ok { t with ports := (port, n.name) :: t.ports }

/-- Both kinds of ports are taken from one set, since all nodes run on one host. -/
def take (t : Taken) (n : Node) : Except Rejection Taken := do
  (← (← t.takeIndex n).takePort n n.ports.p2p).takePort n n.ports.http

end Taken

/-- Every index and every port is taken once, and the bios index by the bios node only. -/
def checkIdentities (nodes : List Node) : Except Rejection Unit := do
  let _ ← nodes.foldlM Taken.take ⟨[], []⟩
  pure ()

/-- The nodes of a topology. -/
def declaredNodes (t : Topology) (source : Path) (f : Factory) (a : Allocator) :
    Except (Stop Rejection) (List Node) :=
  match t.check source with
  | .error e => .error (.refused e)
  | .ok () =>
    match fillFrom f 0 a t.nodes with
    | .error e => .error (.overflow e)
    | .ok nodes =>
      match (do checkIdentities nodes; Assignment.ofNodes nodes) with
      | .error e => .error (.refused e)
      | .ok _ => .ok nodes

/-- What is said of nodes that were declared. -/
def announcement (nodes : List Node) (source : Path) : Record where
  level := .info
  text := "Loaded " ++ toString nodes.length ++ " nodes from topology file " ++ source.text

end Testnet.Topology
