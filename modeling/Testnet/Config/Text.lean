import Testnet.Config.Basic
import Testnet.Overflow
import Testnet.Yaml.Decode

/-!
# The text of a configuration

A configuration is a YAML document with four sections. Sections and settings that are missing have
their standard values, and names that mean nothing are passed over.
-/

namespace Testnet.Config

open Yaml

def path? (d : Document) (n : Yaml.Node Nat) : Option Path := (d.string? n).map Path.mk

def word? (d : Document) (n : Yaml.Node Nat) : Option UInt32 :=
  (d.nat? UInt32.size n).map UInt32.ofNat

def port? (d : Document) (n : Yaml.Node Nat) : Option UInt16 :=
  (d.nat? UInt16.size n).map UInt16.ofNat

def General.ofYaml? (d : Document) (n : Yaml.Node Nat) : Option General := do
  let fields ← d.section? ["name", "config_dir", "data_dir", "log_level"] n
  return {
    name := ← d.field? Document.string? standard.name fields "name"
    configDir := ← d.field? path? standard.configDir fields "config_dir"
    dataDir := ← d.field? path? standard.dataDir fields "data_dir"
    logLevel := ← d.field? (Document.optional? Document.string?) standard.logLevel fields
      "log_level" }

def Layout.ofYaml? (d : Document) (n : Yaml.Node Nat) : Option Layout := do
  let fields ← d.section?
    ["shape", "total_nodes", "producer_nodes", "producers", "shared_producers",
      "unstarted_nodes", "p2p_base_port", "http_base_port"] n
  let count := Document.nat? countLimit
  return {
    shape := ← d.field? Document.string? standard.shape fields "shape"
    totalNodes := ← d.field? count standard.totalNodes fields "total_nodes"
    producerNodes := ← d.field? count standard.producerNodes fields "producer_nodes"
    producers := ← d.field? count standard.producers fields "producers"
    sharedProducers := ← d.field? count standard.sharedProducers fields "shared_producers"
    unstartedNodes := ← d.field? count standard.unstartedNodes fields "unstarted_nodes"
    p2pBase := ← d.field? port? standard.p2pBase fields "p2p_base_port"
    httpBase := ← d.field? port? standard.httpBase fields "http_base_port" }

def GenesisSource.ofYaml? (d : Document) (n : Yaml.Node Nat) : Option GenesisSource := do
  let fields ← d.section?
    ["path", "initial_timestamp", "max_block_cpu_usage", "max_transaction_cpu_usage"] n
  return {
    path := ← d.field? (Document.optional? path?) none fields "path"
    initialTimestamp := ← d.field? (Document.optional? Document.string?) none fields
      "initial_timestamp"
    maxBlockCpuUsage := ← d.field? (Document.optional? word?) none fields "max_block_cpu_usage"
    maxTransactionCpuUsage := ← d.field? (Document.optional? word?) none fields
      "max_transaction_cpu_usage" }

/-- Indices may stand twice; the last one counts. -/
def specific? (d : Document) (n : Yaml.Node Nat) : Option SpecificArguments := do
  let entries ← (← d.fields? n).mapM fun f => do return (← d.int32? f.1, ← d.string? f.2)
  return .ofList entries

def Arguments.ofYaml? (d : Document) (n : Yaml.Node Nat) : Option Arguments := do
  let fields ← d.section? ["extra_args", "specific_args"] n
  return {
    extra := ← d.field? (Document.optional? Document.string?) none fields "extra_args"
    specific := ← d.field? specific? .empty fields "specific_args" }

def ofYaml? (d : Document) : Option Config := do
  let fields ← d.section? ["general", "network", "genesis", "nodes"] d.root
  return {
    general := ← d.field? General.ofYaml? .standard fields "general"
    network := ← d.field? Layout.ofYaml? .standard fields "network"
    genesis := ← d.field? GenesisSource.ofYaml? .standard fields "genesis"
    nodes := ← d.field? Arguments.ofYaml? .standard fields "nodes" }

def ofText? (s : String) : Option Config := do ofYaml? (← Document.ofText? s)

end Testnet.Config
