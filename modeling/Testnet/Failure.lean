import Testnet.Config.Check
import Testnet.Peering.Graph
import Testnet.Shape

/-!
# Failures

All the ways in which a run can end without a result.
-/

namespace Testnet

inductive Failure where
  | rejected (why : Rejection)
  | config (why : Config.Fault)
  | file (why : FileFault)
  | timestamp (why : Genesis.BadTimestamp)
  /-- The shape does not go with the counts. -/
  | misfit (shape : Shape) (why : Shape.Misfit)
  /-- The nodes that were made are no graph. -/
  | graph (why : Peering.GraphFault)
  | noBios
  | overflow (what : Overflow)
deriving DecidableEq, Repr

namespace Failure

def message : Failure → String
  | rejected why => why.message
  | config why => why.message
  | file why => why.message
  | timestamp why => why.message
  | misfit shape why => "Invalid " ++ shape.text ++ " topology: " ++ why.message
  | graph why => "Generated peer graph is invalid: " ++ why.message
  | noBios => "Network has no bios node"
  | overflow what => what.message

/-- A failure out of a computation that may also overflow. -/
def ofStop {ε : Type} (f : ε → Failure) : Stop ε → Failure
  | .refused why => f why
  | .overflow what => overflow what

def ofGenesis : Genesis.Fault → Failure
  | .file why => file why
  | .rejected why => rejected why
  | .timestamp why => timestamp why

end Failure

/-- A run that says things and may fail. -/
abbrev Run := ExceptT Failure Logged

namespace Run

variable {ε α : Type}

/-- A step that cannot fail. -/
def lift (x : Logged α) : Run α := ExceptT.lift x

/-- A silent step whose faults become failures. -/
def ofExcept (f : ε → Failure) (x : Except ε α) : Run α := ExceptT.mk (pure (x.mapError f))

/-- A step whose faults become failures. -/
def ofLogged (f : ε → Failure) (x : Logged (Except ε α)) : Run α :=
  ExceptT.mk (do return (← x).mapError f)

def say (level : Level) (text : String) : Run Unit := lift (Logged.say level text)

end Run

end Testnet
