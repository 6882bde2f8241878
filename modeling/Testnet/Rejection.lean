import Testnet.Path

/-!
# Rejections

Why a description of a network is refused. Every cause is a fault of what was asked for, found
before any node runs.
-/

namespace Testnet

inductive Rejection where
  | noNodes
  | tooManyProducerNodes (producerNodes totalNodes : Nat)
  | insufficientProducerNodes (producers producerNodes : Nat)
  | tooFewProducers (producers regular : Nat)
  | tooManyUnstarted (unstartedNodes totalNodes : Nat)
  | unknownShape (name : String)
  | straddlingProducers (node : String) (groupOne groupTwo : Nat)
  | emptyBridgeGroup (groupOne groupTwo : Nat)
  | noBridgeNodes
  | missingBios (source : Path)
  | duplicateNode (name : String)
  | unknownPeer (node peer : String)
  | selfPeer (node : String)
  | duplicateProducer (producer first second : String)
  | duplicatePort (port : UInt16) (first second : String)
  | duplicateIndex (index : Int32) (first second : String)
  | reservedIndex (node : String)
  | invalidProducerName (producer : String)
  | unknownNodeIndex (index : Int32)
  | biosWithoutKey
deriving DecidableEq, Repr

namespace Rejection

private def quoted (s : String) : String := "'" ++ s ++ "'"

private def count (n : Nat) : String := toString n

def message : Rejection → String
  | noNodes => "total node count must be at least 1"
  | tooManyProducerNodes producerNodes totalNodes =>
    "producer node count " ++ count producerNodes ++ " exceeds total node count " ++
      count totalNodes
  | insufficientProducerNodes producers producerNodes =>
    "unable to allocate " ++ count producers ++ " producers with only " ++ count producerNodes ++
      " producing node(s) (bios included); at least 2 are required"
  | tooFewProducers producers regular =>
    count producers ++ " producers cannot cover " ++ count regular ++
      " producing node(s); every producing node needs at least one"
  | tooManyUnstarted unstartedNodes totalNodes =>
    "unstarted node count " ++ count unstartedNodes ++ " must be below total node count " ++
      count totalNodes
  | unknownShape name =>
    "unknown topology shape " ++ quoted name ++ " (not a builtin shape and no such file)"
  | straddlingProducers node groupOne groupTwo =>
    "node " ++ quoted node ++ " has producers in both bridge groups (" ++ count groupOne ++
      " in group 1, " ++ count groupTwo ++ " in group 2)"
  | emptyBridgeGroup groupOne groupTwo =>
    "bridge topology requires producing nodes in both groups (group 1: " ++ count groupOne ++
      ", group 2: " ++ count groupTwo ++ ")"
  | noBridgeNodes => "bridge topology requires at least one non-producing bridge node"
  | missingBios source => "topology file " ++ source.text ++ " does not define a 'bios' node"
  | duplicateNode name => "node " ++ quoted name ++ " is defined more than once"
  | unknownPeer node peer => "node " ++ quoted node ++ " peers unknown node " ++ quoted peer
  | selfPeer node => "node " ++ quoted node ++ " lists itself as a peer"
  | duplicateProducer producer first second =>
    "producer " ++ quoted producer ++ " is claimed by both " ++ quoted first ++ " and " ++
      quoted second
  | duplicatePort port first second =>
    "port " ++ count port.toNat ++ " is used by both " ++ quoted first ++ " and " ++ quoted second
  | duplicateIndex index first second =>
    "index " ++ toString index.toInt ++ " is used by both " ++ quoted first ++ " and " ++
      quoted second
  | reservedIndex node => "node " ++ quoted node ++ " claims the bios index but is not bios"
  | invalidProducerName producer => "invalid producer name " ++ quoted producer
  | unknownNodeIndex index =>
    "no node with index " ++ toString index.toInt ++ " for specific arguments"
  | biosWithoutKey => "bios node has no key pair to seed genesis"

end Rejection

end Testnet
