import Testnet.Failure
import Testnet.Network
import Testnet.Peering.Connect
import Testnet.Topology.Declared

/-!
# Building a network

One run from a configuration to a network: the nodes are made by a rule or declared by a file, the
peers are checked, and the genesis is composed for the bios node. Nothing is written. Beside the
configuration and the files, a run depends on the time at which it happens and on where its keys
come from.
-/

namespace Testnet

namespace Config

def factory (c : Config) : Factory :=
  ⟨c.general.configDir, c.general.dataDir, c.network.totalNodes, c.network.unstartedNodes⟩

/-- Every run starts with a fresh allocator. -/
def allocator (c : Config) : Allocator := .new c.network.p2pBase c.network.httpBase

end Config

variable {σ : Type}

/-- Nodes that are made, bound and connected by a rule. -/
def generatedNodes (c : Config) (s : Shape) (source : KeySource σ) (state : σ) :
    Run (List Node) := do
  Run.ofExcept .rejected c.plan.check
  Run.ofLogged (Failure.ofStop (.misfit s)) (s.check c.plan)
  let fresh ← Run.ofLogged .overflow (c.factory.createAll c.network.totalNodes c.allocator)
  let bound ← Run.lift (Binding.bind c.plan source state fresh)
  let _ ← Run.ofExcept (Failure.ofStop .rejected) bound.outcome
  let connected ← Run.lift (Peering.connect s c.network.producers bound.nodes)
  Run.ofExcept .rejected connected.outcome
  return connected.nodes

/-- Nodes that a topology file declares. -/
def loadedNodes (c : Config) (files : FileTree) (path : Path) : Run (List Node) := do
  Run.say .info ("Loading custom topology from " ++ path.text)
  let t ← Run.ofExcept .file (Topology.load files path)
  let nodes ←
    Run.ofExcept (Failure.ofStop .rejected) (t.declaredNodes path c.factory c.allocator)
  Run.lift (Logged.tell (Topology.announcement nodes path))
  return nodes

/-- The network of a configuration that is built at some time, with keys from a source. -/
def build (c : Config) (files : FileTree) (now : Timestamp) (source : KeySource σ) (state : σ) :
    Run Network := do
  Run.ofExcept (Failure.ofStop .config) c.check
  let shape ← Run.ofExcept .rejected (Shape.resolve files c.network.shape)
  let nodes ←
    match shape with
    | .custom path => loadedNodes c files path
    | rule => generatedNodes c rule source state
  Run.ofExcept .graph (Peering.checkGraph nodes)
  let bios ←
    Run.ofExcept (fun _ => .noBios)
      ((nodes.find? (·.name == Node.biosName)).elim (Except.error ()) Except.ok)
  let genesis ←
    Run.ofLogged Failure.ofGenesis
      (Genesis.compose files c.genesis.path bios c.genesisOverrides now)
  Run.say .info ("Built network '" ++ c.general.name ++ "' as " ++ shape.text ++ " with " ++
    toString nodes.length ++ " nodes")
  return ⟨c.general.name, nodes, genesis⟩

end Testnet
