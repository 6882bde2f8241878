import Testnet.Config.Basic
import Testnet.Overflow

/-!
# Checking and overriding a configuration

A configuration is checked without looking at any file: names must not be empty, every port must
have room, and a limit must not be zero. A setting given by hand stands above the one in the
configuration; the result is checked again.
-/

namespace Testnet.Config

/-- Which of the two ports of a node. -/
inductive PortKind where
  | p2p
  | http
deriving DecidableEq, Repr

def PortKind.field : PortKind → String
  | p2p => "p2p_base_port"
  | http => "http_base_port"

inductive Fault where
  | emptyName
  | emptyShape
  | noBiosPort (kind : PortKind) (base : UInt16)
  | noNodePorts (kind : PortKind) (base : UInt16) (totalNodes : Nat)
  | zeroBlockCpu
  | zeroTransactionCpu
deriving DecidableEq, Repr

namespace Fault

/-- The section of a configuration that a fault lies in. -/
inductive Area where
  | general
  | network
  | genesis
deriving DecidableEq, Repr

def area : Fault → Area
  | emptyName => .general
  | zeroBlockCpu => .genesis
  | zeroTransactionCpu => .genesis
  | _ => .network

def Area.text : Area → String
  | general => "general"
  | network => "network"
  | genesis => "genesis"

def detail : Fault → String
  | emptyName => "name cannot be empty"
  | emptyShape => "shape cannot be empty"
  | noBiosPort kind base =>
    kind.field ++ " " ++ toString base.toNat ++
      " leaves no room for the bios port (must be at least " ++
      toString Allocator.biosOffset.toNat ++ ")"
  | noNodePorts kind base totalNodes =>
    kind.field ++ " " ++ toString base.toNat ++ " cannot fit " ++ toString totalNodes ++ " nodes"
  | zeroBlockCpu => "max_block_cpu_usage must be greater than 0"
  | zeroTransactionCpu => "max_transaction_cpu_usage must be greater than 0"

def message (f : Fault) : String := "Invalid " ++ f.area.text ++ " configuration: " ++ f.detail

end Fault

def lastPort : Nat := 65535

/-- A base needs room below for the bios node and above for all nodes. -/
def checkBase (kind : PortKind) (base : UInt16) (totalNodes : Nat) : Except (Stop Fault) Unit :=
  if base < Allocator.biosOffset then .error (.refused (.noBiosPort kind base))
  else
    match addCounts base.toNat totalNodes with
    | .error e => .error (.overflow e)
    | .ok last =>
      if lastPort < last then .error (.refused (.noNodePorts kind base totalNodes)) else .ok ()

def checkLimit (fault : Fault) (limit : Option UInt32) : Except (Stop Fault) Unit :=
  if limit = some 0 then .error (.refused fault) else .ok ()

def check (c : Config) : Except (Stop Fault) Unit := do
  if c.general.name.isEmpty then throw (.refused .emptyName)
  if (Text.trim c.network.shape).isEmpty then throw (.refused .emptyShape)
  checkBase .p2p c.network.p2pBase c.network.totalNodes
  checkBase .http c.network.httpBase c.network.totalNodes
  checkLimit .zeroBlockCpu c.genesis.maxBlockCpuUsage
  checkLimit .zeroTransactionCpu c.genesis.maxTransactionCpuUsage

/-- Settings given by hand. -/
structure Overrides where
  shape : Option String
  totalNodes : Option Nat
  producerNodes : Option Nat
  producers : Option Nat
  sharedProducers : Option Nat
  unstartedNodes : Option Nat
  genesis : Option Path
  maxBlockCpuUsage : Option UInt32
  maxTransactionCpuUsage : Option UInt32
deriving DecidableEq, Repr

def Overrides.none : Overrides :=
  ⟨.none, .none, .none, .none, .none, .none, .none, .none, .none⟩

/-- The configuration with the given settings in place of its own. -/
def withOverrides (c : Config) (o : Overrides) : Config :=
  { c with
    network :=
      { c.network with
        shape := o.shape.getD c.network.shape
        totalNodes := o.totalNodes.getD c.network.totalNodes
        producerNodes := o.producerNodes.getD c.network.producerNodes
        producers := o.producers.getD c.network.producers
        sharedProducers := o.sharedProducers.getD c.network.sharedProducers
        unstartedNodes := o.unstartedNodes.getD c.network.unstartedNodes }
    genesis :=
      { c.genesis with
        path := o.genesis.or c.genesis.path
        maxBlockCpuUsage := o.maxBlockCpuUsage.or c.genesis.maxBlockCpuUsage
        maxTransactionCpuUsage :=
          o.maxTransactionCpuUsage.or c.genesis.maxTransactionCpuUsage } }

/-- Overrides settings and checks the result, which stands even if it is refused. -/
def override (c : Config) (o : Overrides) : Logged (Config × Except (Stop Fault) Unit) := do
  match o.shape with
  | some s => Logged.say .info ("Shape override: " ++ s)
  | none => pure ()
  let changed := c.withOverrides o
  pure (changed, changed.check)

end Testnet.Config
