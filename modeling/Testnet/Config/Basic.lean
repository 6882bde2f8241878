import Testnet.Genesis.Compose
import Testnet.Launch.Options
import Testnet.Plan

/-!
# Configurations

Everything that can be said about a network before it is built. Every setting has a standard value,
and a configuration is written with all settings that have a value.
-/

namespace Testnet

namespace Config

structure General where
  /-- What the names of networks begin with. -/
  name : String
  configDir : Path
  dataDir : Path
  logLevel : Option String
deriving DecidableEq, Repr

structure Layout where
  /-- A rule or the path of a topology file. -/
  shape : String
  totalNodes : Nat
  producerNodes : Nat
  producers : Nat
  sharedProducers : Nat
  unstartedNodes : Nat
  p2pBase : UInt16
  httpBase : UInt16
deriving DecidableEq, Repr

structure GenesisSource where
  path : Option Path
  initialTimestamp : Option String
  maxBlockCpuUsage : Option UInt32
  maxTransactionCpuUsage : Option UInt32
deriving DecidableEq, Repr

/-- Arguments for all nodes, and for the node of an index. -/
structure Arguments where
  extra : Option String
  specific : SpecificArguments
deriving DecidableEq, Repr

def General.standard : General where
  name := "testnet_"
  configDir := ⟨"etc/eosio/launcher"⟩
  dataDir := ⟨"var/lib"⟩
  logLevel := some "info"

def Layout.standard : Layout where
  shape := "mesh"
  totalNodes := 2
  producerNodes := 2
  producers := 21
  sharedProducers := 0
  unstartedNodes := 0
  p2pBase := Allocator.defaultP2p
  httpBase := Allocator.defaultHttp

def GenesisSource.standard : GenesisSource := ⟨none, none, none, none⟩

def Arguments.standard : Arguments := ⟨none, .empty⟩

end Config

structure Config where
  general : Config.General
  network : Config.Layout
  genesis : Config.GenesisSource
  nodes : Config.Arguments
deriving DecidableEq, Repr

namespace Config

def standard : Config := ⟨.standard, .standard, .standard, .standard⟩

def plan (c : Config) : Plan where
  totalNodes := c.network.totalNodes
  producerNodes := c.network.producerNodes
  producers := c.network.producers
  sharedProducers := c.network.sharedProducers
  unstartedNodes := c.network.unstartedNodes

def genesisOverrides (c : Config) : Genesis.Overrides where
  maxBlockCpuUsage := c.genesis.maxBlockCpuUsage
  maxTransactionCpuUsage := c.genesis.maxTransactionCpuUsage
  initialTimestamp := c.genesis.initialTimestamp

open Json

def General.toJson (g : General) : Value :=
  .object
    ([("name", .string g.name), ("config_dir", .string g.configDir.text),
        ("data_dir", .string g.dataDir.text)] ++
      Value.optional "log_level" (g.logLevel.map .string))

def Layout.toJson (l : Layout) : Value :=
  .object
    [("shape", .string l.shape), ("total_nodes", .ofNat l.totalNodes),
      ("producer_nodes", .ofNat l.producerNodes), ("producers", .ofNat l.producers),
      ("shared_producers", .ofNat l.sharedProducers),
      ("unstarted_nodes", .ofNat l.unstartedNodes), ("p2p_base_port", .ofNat l.p2pBase.toNat),
      ("http_base_port", .ofNat l.httpBase.toNat)]

def word (w : UInt32) : Value := .ofNat w.toNat

def GenesisSource.toJson (g : GenesisSource) : Value :=
  .object
    (Value.optional "path" (g.path.map fun p => .string p.text) ++
      Value.optional "initial_timestamp" (g.initialTimestamp.map .string) ++
      Value.optional "max_block_cpu_usage" (g.maxBlockCpuUsage.map word) ++
      Value.optional "max_transaction_cpu_usage" (g.maxTransactionCpuUsage.map word))

def Arguments.toJson (a : Arguments) : Value :=
  .object
    (Value.optional "extra_args" (a.extra.map .string) ++
      Value.optional "specific_args"
        (if a.specific.entries.isEmpty then none
        else some (.object (a.specific.entries.map fun e => (toString e.1.toInt, .string e.2)))))

def toJson (c : Config) : Value :=
  .object
    [("general", c.general.toJson), ("network", c.network.toJson),
      ("genesis", c.genesis.toJson), ("nodes", c.nodes.toJson)]

end Config

end Testnet
