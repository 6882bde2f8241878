import Testnet.Binary64.Root
import Testnet.Peering.Chain

/-!
# Stars

Each node of a star tries a number of links that grows with the square root of the size. Candidates
lie a fixed gap apart on the ring of the regular nodes; a candidate that is taken moves on to the
next free node. With fewer than four nodes a star is a line.
-/

namespace Testnet.Peering

/-- Links that each node tries to make. -/
def starLinks (count : Nat) : Nat := max (Binary64.roundedRoot count + 2) 3

/-- The least number from `gap` on that does not divide `count`. -/
def leastNonDivisor (count gap : Nat) : Nat :=
  if gap ≤ count ∧ count % gap = 0 then leastNonDivisor count (gap + 1) else gap
termination_by count + 1 - gap

/-- Where the search for a gap begins. -/
def firstGap (count links : Nat) : Nat := if 6 < count then 3 else (count - links) / 2 + 1

/-- Distance between the candidates of a node. -/
def starGap (count links : Nat) : Nat :=
  if count = 0 then 1 else leastNonDivisor count (firstGap count links)

/-- Whether two nodes are not the same and neither has the other as a peer. -/
def areFree (nodes : List Node) (i j : Nat) : Bool :=
  i != j &&
    match nodes[i]?, nodes[j]? with
    | some a, some b => !a.hasPeer b.name && !b.hasPeer a.name
    | _, _ => false

/-- The first free partner on the ring of positions, going once around from `start`. -/
def freePartner (nodes : List Node) (positions : List Nat) (current start : Nat) : Option Nat :=
  (positions.drop start ++ positions.take start).find? (areFree nodes current)

/-- Node number `i` of the star makes its link number `l`. -/
def dialStar (positions : List Nat) (links gap : Nat) (nodes : List Node) (i l : Nat) :
    Logged (List Node) :=
  match positions[i]? with
  | none => pure nodes
  | some current =>
    match freePartner nodes positions current ((i + l * gap) % positions.length) with
    | some target => dial nodes ⟨current, target⟩
    | none => do
      Logged.say .warn ("No free star peer for " ++ (nodes[current]?.map (·.name)).getD "" ++
        " (link " ++ toString l ++ " of " ++ toString links ++ "), leaving it unset")
      pure nodes

/-- The turns of a star: all links of the first node, then those of the second, and so on. -/
def starTurns (count links : Nat) : List (Nat × Nat) :=
  (List.range count).flatMap fun i => (List.range' 1 links).map fun l => (i, l)

def star (nodes : List Node) : Logged (List Node) :=
  let positions := regularPositions nodes
  let count := positions.length
  if count < 4 then do
    Logged.say .info ("Only " ++ toString count ++ " non-bios nodes, star degenerates to a line")
    dialAll nodes (lineLinks positions)
  else
    let links := starLinks count
    let gap := starGap count links
    do
      Logged.say .debug ("Star layout: " ++ toString links ++ " links per node, gap " ++
        toString gap)
      (starTurns count links).foldlM (fun ns turn => dialStar positions links gap ns turn.1 turn.2)
        nodes

end Testnet.Peering
