import Testnet.Assignment
import Testnet.Log
import Testnet.Plan
import Testnet.Text.Quoted

/-!
# Binding

Hands out the accounts of a plan. The producing nodes are the first regular ones; they get blocks of
consecutive accounts, the earlier nodes one more while some are left over, and then all shared
accounts. Each of them, and the bios node with the system account, draws one key pair.
-/

namespace Testnet

/-- What became of a list of nodes, whether or not the work on it ended well. -/
structure Change (ε α : Type) where
  nodes : List Node
  outcome : Except ε α
deriving Repr

namespace Binding

/-- How far the handing out has come. -/
structure Deal where
  /-- Accounts left over that have not been given to a node. -/
  leftOver : Nat
  /-- The ordinal of the next account. -/
  next : Nat
  /-- Regular nodes passed so far. -/
  passed : Nat
deriving DecidableEq, Repr

def Deal.start (plan : Plan) : Deal := ⟨plan.leftOver, 0, 0⟩

/-- The number of accounts for the node whose turn it is. -/
def Deal.share (plan : Plan) (d : Deal) : Nat := plan.perNode + min d.leftOver 1

def Deal.serve (plan : Plan) (d : Deal) : Deal :=
  ⟨d.leftOver - 1, d.next + d.share plan, d.passed + 1⟩

def Deal.skip (d : Deal) : Deal := { d with passed := d.passed + 1 }

/-- The accounts for the node whose turn it is: its block, then the shared ones. -/
def accounts (plan : Plan) (d : Deal) : List String :=
  (List.range' d.next (d.share plan)).map (Account.name .exclusive) ++
    (List.range plan.sharedProducers).map fun i => Account.name .shared (i % Account.ordinalLimit)

/-- The node with more accounts and one more key pair. -/
def equip (n : Node) (producers : List String) (pair : KeyPair) : Node :=
  { n with producers := n.producers ++ producers, keys := n.keys ++ [pair] }

def announcement (n : Node) : Record where
  level := .debug
  text := "Bound " ++ toString n.producers.length ++ " producer(s) to " ++ n.name ++ ": " ++
    Text.quoteAll n.producers

variable {σ : Type}

/-- Binds node after node. The ordinals end at the first one that does not fit its word; the nodes
from there on stay as they are. -/
def bindFrom (plan : Plan) (source : KeySource σ) :
    Deal → σ → List Node → Logged (Change Overflow Unit)
  | _, _, [] => pure ⟨[], .ok ()⟩
  | d, s, n :: rest =>
    if n.isBios then do
      let drawn := source.draw n.name s
      let tail ← bindFrom plan source d drawn.2 rest
      pure ⟨equip n [Account.system] drawn.1 :: tail.nodes, tail.outcome⟩
    else if plan.producingRegular ≤ d.passed then do
      let tail ← bindFrom plan source d.skip s rest
      pure ⟨n :: tail.nodes, tail.outcome⟩
    else if Account.ordinalLimit ≤ d.next + d.share plan then
      pure ⟨n :: rest, .error .add⟩
    else do
      let drawn := source.draw n.name s
      let bound := equip n (accounts plan d) drawn.1
      Logged.tell (announcement bound)
      let tail ← bindFrom plan source (d.serve plan) drawn.2 rest
      pure ⟨bound :: tail.nodes, tail.outcome⟩

/-- Binds the accounts of a plan to nodes and says who owns them. The plan is checked before
anything changes, the ownership only afterwards. -/
def bind (plan : Plan) (source : KeySource σ) (s : σ) (nodes : List Node) :
    Logged (Change (Stop Rejection) Assignment) :=
  match plan.check with
  | .error e => pure ⟨nodes, .error (.refused e)⟩
  | .ok () => do
    let done ← bindFrom plan source (.start plan) s nodes
    match done.outcome with
    | .error e => pure ⟨done.nodes, .error (.overflow e)⟩
    | .ok () =>
      match Assignment.ofNodes done.nodes with
      | .error e => pure ⟨done.nodes, .error (.refused e)⟩
      | .ok owners => do
        Logged.say .info ("Bound " ++ toString owners.size ++ " producers (" ++
          toString plan.sharedProducers ++ " shared) across " ++
          toString plan.producingRegular ++ " producing node(s)")
        pure ⟨done.nodes, .ok owners⟩

end Binding

end Testnet
