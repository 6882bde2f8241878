import Testnet.Log
import Testnet.Node

/-!
# Making nodes

Nodes are made by position: the bios node first, then the regular nodes, of which the last few may
be configured without being started.
-/

namespace Testnet

structure Factory where
  configDir : Path
  dataDir : Path
  totalNodes : Nat
  unstartedNodes : Nat
deriving DecidableEq, Repr

namespace Factory

/-- The last `unstartedNodes` positions, and all beyond the end, are not started. -/
def isUnstarted (f : Factory) (position : Nat) : Bool :=
  f.totalNodes - f.unstartedNodes ≤ position

/-- A node without accounts, keys and peers. -/
def place (f : Factory) (index : Int32) (name : String) (ports : Ports) (dontStart : Bool) :
    Node where
  index := index
  name := name
  configDir := f.configDir.join name
  dataDir := f.dataDir.join name
  producers := []
  peers := []
  ports := ports
  dontStart := dontStart
  keys := []

/-- The bios node is always started. -/
def bios (f : Factory) (ports : Ports) : Node :=
  f.place Node.biosIndex Node.biosName ports false

/-- The regular node at a position; ordinals count from the position after the bios node, and the
index is the ordinal cut to its word. -/
def regular (f : Factory) (position : Nat) (ports : Ports) : Node :=
  f.place (Int32.ofNat (position - 1)) (Node.regularName (position - 1)) ports
    (f.isUnstarted position)

/-- The node at a position and the allocator after it has taken its ports. -/
def create (f : Factory) (position : Nat) (asBios : Bool) (a : Allocator) :
    Except Overflow Node × Allocator :=
  if asBios then (.ok (f.bios a.biosPorts), a)
  else
    match a.nextPair with
    | (.ok ports, b) => (.ok (f.regular position ports), b)
    | (.error e, b) => (.error e, b)

/-- What is said of a node that was made. -/
def announcement (n : Node) : Record where
  level := .debug
  text := "Created node " ++ n.name ++ " (index " ++ toString n.index.toInt ++ ", p2p " ++
    toString n.ports.p2p.toNat ++ ", http " ++ toString n.ports.http.toNat ++
    (if n.dontStart then ", not started)" else ")")

/-- The nodes at the given positions, of which the first of all is the bios node. -/
def createFrom (f : Factory) : List Nat → Allocator → Logged (Except Overflow (List Node))
  | [], _ => pure (.ok [])
  | position :: rest, a =>
    match f.create position (position == 0) a with
    | (.error e, _) => pure (.error e)
    | (.ok node, b) => do
      Logged.tell (announcement node)
      let nodes ← createFrom f rest b
      pure (nodes.map (node :: ·))

/-- As many nodes as asked for, with the bios node in front. -/
def createAll (f : Factory) (count : Nat) (a : Allocator) : Logged (Except Overflow (List Node)) :=
  f.createFrom (List.range count) a

end Factory

end Testnet
