import Testnet.Launch.Options
import Testnet.Log
import Testnet.Network

/-!
# Launch entries

The arguments that each node of a network is started with: where it lives and listens, whom it
dials, what it produces with which keys, and where the chain starts from.
-/

namespace Testnet

structure LaunchEntry where
  name : String
  index : Int32
  dontStart : Bool
  arguments : List String
deriving DecidableEq, Repr

namespace LaunchEntry

open Json

def toJson (e : LaunchEntry) : Value :=
  .object
    [("name", .string e.name), ("index", .ofInt e.index.toInt),
      ("dont_start", .bool e.dontStart), ("args", .ofStrings e.arguments)]

/-- The text of a launch plan. -/
def planText (entries : List LaunchEntry) : String := (Value.array (entries.map toJson)).indented

end LaunchEntry

namespace Network

private def port (p : UInt16) : String := toString p.toNat

/-- Where a node lives and listens. -/
def homeArguments (node : Node) : List String :=
  ["--config-dir", node.configDir.text, "--data-dir", node.dataDir.text,
    "--p2p-listen-endpoint", "0.0.0.0:" ++ port node.ports.p2p,
    "--http-server-address", "127.0.0.1:" ++ port node.ports.http]

/-- The address of a peer, if the network has it. -/
def peerArguments (n : Network) (peer : String) : List String :=
  match n.node? peer with
  | some p => ["--p2p-peer-address", "localhost:" ++ port p.ports.p2p]
  | none => []

/-- What a producing node signs for and with. -/
def producerArguments (node : Node) : List String :=
  if node.isProducing then
    ["--plugin", "eosio::producer_plugin"] ++
      node.producers.flatMap (fun p => ["--producer-name", p]) ++
      node.keys.flatMap fun k =>
        ["--signature-provider", k.publicKey ++ "=KEY:" ++ k.privateKey]
  else []

/-- The bios node starts the chain from the genesis. -/
def biosArguments (node : Node) (o : LaunchOptions) : List String :=
  if node.isBios then
    ["--enable-stale-production", "--genesis-json", o.genesisPath.text]
  else []

def arguments (n : Network) (node : Node) (o : LaunchOptions) : List String :=
  homeArguments node ++ node.peers.flatMap n.peerArguments ++ producerArguments node ++
    biosArguments node o ++ ["--genesis-timestamp", n.genesis.initialTimestamp] ++
    mergeArguments o.extra o.specific node.index

/-- A warning for every peer that the network does not have. -/
def peerWarnings (n : Network) (node : Node) : List Record :=
  (node.peers.filter fun p => (n.node? p).isNone).map fun p =>
    ⟨.warn, node.name ++ " peers unknown node " ++ p ++ ", skipping"⟩

/-- The arguments of a node, with the warnings about its peers. -/
def launchArguments (n : Network) (node : Node) (o : LaunchOptions) : Logged (List String) :=
  ⟨n.peerWarnings node, n.arguments node o⟩

def launchEntry (n : Network) (o : LaunchOptions) (node : Node) : LaunchEntry :=
  ⟨node.name, node.index, node.dontStart, n.arguments node o⟩

/-- The entries of all nodes, in their order, if every index with arguments of its own is the index
of a node. -/
def launchPlan (n : Network) (o : LaunchOptions) : Logged (Except Rejection (List LaunchEntry)) :=
  match o.specific.entries.find? fun e => (n.nodeByIndex? e.1).isNone with
  | some (index, _) => pure (.error (.unknownNodeIndex index))
  | none => ⟨n.nodes.flatMap n.peerWarnings, .ok (n.nodes.map (n.launchEntry o))⟩

end Network

end Testnet
