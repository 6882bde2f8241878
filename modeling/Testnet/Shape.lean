import Testnet.FileTree
import Testnet.Log
import Testnet.Overflow
import Testnet.Plan
import Testnet.Text.Blank

/-!
# Shapes

How the nodes of a network are connected: by one of five rules, or as a topology file says.
-/

namespace Testnet

inductive Shape where
  | line
  | ring
  | star
  | mesh
  | bridge
  | custom (source : Path)
deriving DecidableEq, Repr

namespace Shape

def text : Shape → String
  | line => "line"
  | ring => "ring"
  | star => "star"
  | mesh => "mesh"
  | bridge => "bridge"
  | custom source => source.text

def isCustom : Shape → Bool
  | custom _ => true
  | _ => false

/-- The shape of a rule, whatever the case of the ASCII letters. -/
def ofRule? (name : String) : Option Shape :=
  match String.ofList (name.toList.map Char.toLower) with
  | "line" => some line
  | "ring" => some ring
  | "star" => some star
  | "mesh" => some mesh
  | "bridge" => some bridge
  | _ => none

/-- A name without the blanks around it is a rule or else the path of a file. -/
def resolve (files : FileTree) (name : String) : Except Rejection Shape :=
  let bare := Text.trim name
  match ofRule? bare with
  | some s => .ok s
  | none => if files.isFile ⟨bare⟩ then .ok (custom ⟨bare⟩) else .error (.unknownShape name)

/-- Why a shape does not go with a plan. -/
inductive Misfit where
  | fewBridgeProducers (producerNodes : Nat)
  | fewBridgeNodes (totalNodes producerNodes : Nat)
deriving DecidableEq, Repr

def Misfit.message : Misfit → String
  | fewBridgeProducers producerNodes =>
    "Bridge topology requires at least 3 producer nodes (bios included), got " ++
      toString producerNodes
  | fewBridgeNodes totalNodes producerNodes =>
    "Bridge topology requires total nodes (" ++ toString totalNodes ++
      ") to exceed producer nodes (" ++ toString producerNodes ++ ")"

/-- The largest mesh that is not warned of. -/
def quietMesh : Nat := 50

/-- A bridge needs two producing nodes to part and another node between them. A large mesh is
allowed with a warning, which needs the number of its connections. -/
def check (s : Shape) (p : Plan) : Logged (Except (Stop Misfit) Unit) :=
  match s with
  | bridge =>
    pure <|
      if p.producingRegular < 2 then .error (.refused (.fewBridgeProducers p.producerNodes))
      else if p.totalNodes ≤ p.producerNodes then
        .error (.refused (.fewBridgeNodes p.totalNodes p.producerNodes))
      else .ok ()
  | mesh =>
    if p.totalNodes ≤ quietMesh then pure (.ok ())
    else
      match multiplyCounts (p.totalNodes - 1) (p.totalNodes - 2) with
      | .error e => pure (.error (.overflow e))
      | .ok links => do
        Logged.say .warn ("Mesh topology with " ++ toString p.totalNodes ++ " nodes creates " ++
          toString links ++ " connections")
        pure (.ok ())
  | _ => pure (.ok ())

end Shape

end Testnet
