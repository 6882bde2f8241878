import Testnet.Peering.Dial

/-!
# Lines, rings and meshes

The links of the shapes in which the regular nodes do not depend on each other's peers.
-/

namespace Testnet.Peering

/-- Each position to the next one. -/
def lineLinks (positions : List Nat) : List Link :=
  positions.zipWith Link.mk positions.tail

/-- A line that is closed from its end to its start. -/
def ringLinks (positions : List Nat) : List Link :=
  lineLinks positions ++
    match positions with
    | first :: next :: rest => [⟨(next :: rest).getLast (by simp), first⟩]
    | _ => []

/-- Each position to every other one. -/
def meshLinks (positions : List Nat) : List Link :=
  positions.flatMap fun source =>
    (positions.filter (· != source)).map fun target => ⟨source, target⟩

end Testnet.Peering
