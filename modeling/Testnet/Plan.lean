import Testnet.Rejection

/-!
# Plans

How many nodes a network has, how many of them produce, and how many accounts they share out.
-/

namespace Testnet

/-- The counts of nodes include the bios node. -/
structure Plan where
  totalNodes : Nat
  producerNodes : Nat
  /-- Accounts that are held by one node each. -/
  producers : Nat
  /-- Accounts that every producing node holds. -/
  sharedProducers : Nat
  /-- Nodes at the end of the list that are not started. -/
  unstartedNodes : Nat
deriving DecidableEq, Repr

namespace Plan

/-- Producing nodes besides the bios node. -/
def producingRegular (p : Plan) : Nat := p.producerNodes - 1

/-- Refuses counts that no network can satisfy. -/
def check (p : Plan) : Except Rejection Unit :=
  if p.totalNodes = 0 then .error .noNodes
  else if p.totalNodes < p.producerNodes then
    .error (.tooManyProducerNodes p.producerNodes p.totalNodes)
  else if p.totalNodes ≤ p.unstartedNodes then
    .error (.tooManyUnstarted p.unstartedNodes p.totalNodes)
  else if 0 < p.producers ∧ p.producerNodes < 2 then
    .error (.insufficientProducerNodes p.producers p.producerNodes)
  else if 2 ≤ p.producerNodes ∧ p.producers < p.producingRegular then
    .error (.tooFewProducers p.producers p.producingRegular)
  else .ok ()

/-- Accounts that every producing node is sure to get. -/
def perNode (p : Plan) : Nat := p.producers / p.producingRegular

/-- Accounts left over, one of which goes to each of the first nodes. -/
def leftOver (p : Plan) : Nat :=
  if p.producingRegular = 0 then 0 else p.producers % p.producingRegular

end Plan

end Testnet
