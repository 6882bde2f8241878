import Testnet.Json.Decode
import Testnet.Json.Written
import Testnet.Node

/-!
# Topologies

What is written down of a network: its name and the description of every node, in order. A
description may leave out the index and the ports. Names and directories are not part of it, since
they follow from the place in the list and from where the network lives.
-/

namespace Testnet

structure Description where
  index : Option Int32
  peers : List String
  producers : List String
  dontStart : Bool
  p2pPort : Option UInt16
  httpPort : Option UInt16
  keys : List KeyPair
deriving DecidableEq, Repr

structure Topology where
  name : String
  nodes : List (String × Description)
deriving DecidableEq, Repr

open Json

namespace KeyPair

def toJson (k : KeyPair) : Value :=
  .object [("pubkey", .string k.publicKey), ("privkey", .string k.privateKey)]

def ofJson? (r : Raw) : Option KeyPair := do
  match ← r.members? ["pubkey", "privkey"] with
  | [pub, priv] =>
    return ⟨← Raw.required? Raw.string? pub, ← Raw.required? Raw.string? priv⟩
  | _ => none

end KeyPair

namespace Description

/-- Everything is said of a node that exists. -/
def ofNode (n : Node) : Description where
  index := some n.index
  peers := n.peers
  producers := n.producers
  dontStart := n.dontStart
  p2pPort := some n.ports.p2p
  httpPort := some n.ports.http
  keys := n.keys

def port (p : UInt16) : Value := .ofNat p.toNat

def toJson (d : Description) : Value :=
  .object
    (Value.optional "index" (d.index.map fun i => .ofInt i.toInt) ++
      [("peers", .ofStrings d.peers), ("producers", .ofStrings d.producers),
        ("dont_start", .bool d.dontStart)] ++
      Value.optional "p2p_port" (d.p2pPort.map port) ++
      Value.optional "http_port" (d.httpPort.map port) ++
      [("keys", .array (d.keys.map KeyPair.toJson))])

def fieldNames : List String :=
  ["index", "peers", "producers", "dont_start", "p2p_port", "http_port", "keys"]

/-- Any field may be missing. -/
def ofJson? (r : Raw) : Option Description := do
  match ← r.members? fieldNames with
  | [index, peers, producers, dontStart, p2pPort, httpPort, keys] =>
    return {
      index := ← Raw.orElse? (Raw.optional? Raw.int32?) none index
      peers := ← Raw.orElse? (Raw.list? Raw.string?) [] peers
      producers := ← Raw.orElse? (Raw.list? Raw.string?) [] producers
      dontStart := ← Raw.orElse? Raw.bool? false dontStart
      p2pPort := ← Raw.orElse? (Raw.optional? Raw.port?) none p2pPort
      httpPort := ← Raw.orElse? (Raw.optional? Raw.port?) none httpPort
      keys := ← Raw.orElse? (Raw.list? KeyPair.ofJson?) [] keys }
  | _ => none

end Description

namespace Topology

def ofNodes (name : String) (nodes : List Node) : Topology :=
  ⟨name, nodes.map fun n => (n.name, .ofNode n)⟩

def toJson (t : Topology) : Value :=
  .object
    [("name", .string t.name),
      ("nodes", .array (t.nodes.map fun n => .array [.string n.1, n.2.toJson]))]

/-- The text of a topology, one for each topology. -/
def text (t : Topology) : String := t.toJson.indented

def ofJson? (r : Raw) : Option Topology := do
  match ← r.members? ["name", "nodes"] with
  | [name, nodes] =>
    return ⟨← Raw.required? Raw.string? name,
      ← Raw.required? (Raw.list? (Raw.pair? Raw.string? Description.ofJson?)) nodes⟩
  | _ => none

def ofText? (s : String) : Option Topology := do ofJson? (← Raw.ofText? s)

end Topology

end Testnet
