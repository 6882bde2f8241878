import Testnet.Peering.Chain
import Testnet.Rejection

/-!
# Bridges

The accounts are split into two halves by ordinal. Nodes that own accounts of the first half form
one group, nodes that own others the second; nodes that own none are the bridges between them. Each
group is a mesh, every bridge is connected with every member both ways, and only the bridges dial
the bios node, so that the network falls apart without them.
-/

namespace Testnet.Peering

/-- Positions of the regular nodes by their part in a bridge. -/
structure Groups where
  one : List Nat
  two : List Nat
  bridges : List Nat
deriving DecidableEq, Repr

namespace Groups

def empty : Groups := ⟨[], [], []⟩

/-- Members of both groups, the first group in front. -/
def members (g : Groups) : List Nat := g.one ++ g.two

end Groups

/-- Names of the first half of the accounts, the larger one if they are odd. -/
def firstHalf (producers : Nat) : List String :=
  (List.range ((producers + 1) / 2)).map fun i =>
    Account.name .exclusive (i % Account.ordinalLimit)

/-- Accounts of a node that are not shared. -/
def owned (n : Node) : List String := n.producers.filter (!Account.isShared ·)

/-- Puts the node at a position into its group, unless it owns accounts of both halves. -/
def Groups.place (half : List String) (g : Groups) (position : Nat) (n : Node) :
    Except Rejection Groups :=
  let inOne := ((owned n).filter half.contains).length
  let inTwo := (owned n).length - inOne
  if (owned n).isEmpty then .ok { g with bridges := g.bridges ++ [position] }
  else if 0 < inOne ∧ 0 < inTwo then .error (.straddlingProducers n.name inOne inTwo)
  else if 0 < inOne then .ok { g with one := g.one ++ [position] }
  else .ok { g with two := g.two ++ [position] }

/-- The groups of the regular nodes, none of which may be empty. -/
def classify (nodes : List Node) (producers : Nat) : Except Rejection Groups := do
  let half := firstHalf producers
  let g ← (regularPositions nodes).foldlM
    (fun g i =>
      match nodes[i]? with
      | some n => g.place half i n
      | none => .ok g)
    Groups.empty
  if g.bridges.isEmpty then .error .noBridgeNodes
  else if g.one.isEmpty ∨ g.two.isEmpty then
    .error (.emptyBridgeGroup g.one.length g.two.length)
  else .ok g

/-- The links of a bridge: within the groups, then between members and bridges both ways. -/
def bridgeLinks (g : Groups) : List Link :=
  meshLinks g.one ++ meshLinks g.two ++
    g.members.flatMap fun m => g.bridges.flatMap fun b => [⟨m, b⟩, ⟨b, m⟩]

def bridge (nodes : List Node) (g : Groups) : Logged (List Node) := do
  Logged.say .info ("Bridge layout: " ++ toString g.one.length ++ " node(s) in group 1, " ++
    toString g.two.length ++ " in group 2, " ++ toString g.bridges.length ++ " bridge(s)")
  let linked ← dialAll nodes (bridgeLinks g)
  pure (dialBios linked g.bridges)

end Testnet.Peering
