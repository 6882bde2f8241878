import Testnet.Node
import Testnet.Rejection

/-!
# Assignments

Which node owns each exclusive account. An account may be owned once; the assignment lists the
owners in the order of the account names.
-/

namespace Testnet

/-- Accounts with the index of the node that owns them, in the order of the names. -/
structure Assignment where
  owners : List (String × Int32)
deriving DecidableEq, Repr

/-- An exclusive account as a node lists it. -/
structure Claim where
  producer : String
  node : String
  index : Int32
deriving DecidableEq, Repr

namespace Assignment

def claimsOf (n : Node) : List Claim :=
  (n.producers.filter Account.isExclusive).map fun p => ⟨p, n.name, n.index⟩

/-- All claims, node by node. -/
def claims (nodes : List Node) : List Claim := nodes.flatMap claimsOf

/-- The first claim of an account that `seen` or an earlier claim holds, after the claim it
repeats. -/
def firstRepeat : List Claim → List Claim → Option (Claim × Claim)
  | _, [] => none
  | seen, c :: rest =>
    match seen.find? (fun earlier => earlier.producer == c.producer) with
    | some earlier => some (earlier, c)
    | none => firstRepeat (c :: seen) rest

/-- Claims by account name. -/
def sorted (cs : List Claim) : List (String × Int32) :=
  (cs.map fun c => (c.producer, c.index)).mergeSort fun a b => decide (a.1 ≤ b.1)

/-- The owners of all exclusive accounts of the nodes, unless one is claimed twice. -/
def ofNodes (nodes : List Node) : Except Rejection Assignment :=
  match firstRepeat [] (claims nodes) with
  | some (first, second) =>
    .error (.duplicateProducer second.producer first.node second.node)
  | none => .ok ⟨sorted (claims nodes)⟩

def owner? (a : Assignment) (producer : String) : Option Int32 := a.owners.lookup producer

def size (a : Assignment) : Nat := a.owners.length

def isEmpty (a : Assignment) : Bool := a.owners.isEmpty

end Assignment

end Testnet
