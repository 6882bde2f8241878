import Testnet.Binding
import Testnet.Peering.Bridge
import Testnet.Peering.Star
import Testnet.Shape

/-!
# Connecting

Gives nodes the peers of a shape. In every shape but the bridge all regular nodes dial the bios
node as well, so that it can reach them while the chain starts.
-/

namespace Testnet.Peering

/-- Connects the regular nodes among themselves and then with the bios node. -/
def withBios (nodes : List Node) (connected : Logged (List Node)) : Logged (List Node) := do
  let ns ← connected
  pure (dialBios ns (regularPositions nodes))

/-- Connects nodes by a shape. A bridge needs the number of accounts to know their halves; if it
cannot be formed nothing changes. Nodes of a file have the peers that the file says. -/
def connect (s : Shape) (producers : Nat) (nodes : List Node) :
    Logged (Change Rejection Unit) := do
  Logged.say .info ("Connecting " ++ toString nodes.length ++ " nodes as " ++ s.text)
  let positions := regularPositions nodes
  match s with
  | .line => return ⟨← withBios nodes (dialAll nodes (lineLinks positions)), .ok ()⟩
  | .ring => return ⟨← withBios nodes (dialAll nodes (ringLinks positions)), .ok ()⟩
  | .mesh => return ⟨← withBios nodes (dialAll nodes (meshLinks positions)), .ok ()⟩
  | .star => return ⟨← withBios nodes (star nodes), .ok ()⟩
  | .bridge =>
    match classify nodes producers with
    | .error e => return ⟨nodes, .error e⟩
    | .ok groups => return ⟨← bridge nodes groups, .ok ()⟩
  | .custom _ => return ⟨nodes, .ok ()⟩

end Testnet.Peering
