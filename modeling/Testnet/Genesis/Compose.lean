import Testnet.Genesis.Basic
import Testnet.Log
import Testnet.Node
import Testnet.Rejection
import Testnet.Timestamp

/-!
# Composing a genesis

A genesis is put together in layers: standard values, a file, the key of the bios node, and
overrides. Whatever layer the timestamp comes from, it is written out in full. Only an override may
ask for the time of the clock, so the time at which a genesis is composed is always given along.
-/

namespace Testnet.Genesis

/-- Values that stand above those of a file. -/
structure Overrides where
  maxBlockCpuUsage : Option UInt32
  maxTransactionCpuUsage : Option UInt32
  initialTimestamp : Option String
deriving DecidableEq, Repr

def Overrides.none : Overrides := ⟨.none, .none, .none⟩

/-- A text that is no timestamp, and why. -/
structure BadTimestamp where
  value : String
  why : Timestamp.Fault
deriving DecidableEq, Repr

def BadTimestamp.message (b : BadTimestamp) : String :=
  "Invalid genesis timestamp '" ++ b.value ++ "': " ++ b.why.message

/-- The timestamp of a text written out in full. -/
def normalTimestamp (s : String) : Except BadTimestamp String :=
  match Timestamp.ofText s with
  | .ok t => .ok t.text
  | .error why => .error ⟨s, why⟩

/-- Whether the overrides ask for the time of the clock. In a file no text does. -/
def Overrides.AsksClock (o : Overrides) : Prop := o.initialTimestamp = some "now"

instance (o : Overrides) : Decidable o.AsksClock := inferInstanceAs (Decidable (_ = _))

/-- The timestamp of a genesis that is overridden at some time, written out in full. -/
def Overrides.timestamp (o : Overrides) (now : Timestamp) (below : String) :
    Except BadTimestamp String :=
  if o.AsksClock then .ok now.text else normalTimestamp (o.initialTimestamp.getD below)

def overrideLimits (l : Limits) (o : Overrides) : Limits :=
  { l with
    maxBlockCpuUsage := o.maxBlockCpuUsage.getD l.maxBlockCpuUsage
    maxTransactionCpuUsage := o.maxTransactionCpuUsage.getD l.maxTransactionCpuUsage }

/-- The genesis after overriding, and whether its timestamp is one. The limits are overridden
either way. -/
def override (g : Genesis) (o : Overrides) (now : Timestamp) :
    Genesis × Except BadTimestamp Unit :=
  let limited := { g with limits := overrideLimits g.limits o }
  match o.timestamp now g.initialTimestamp with
  | .ok t => ({ limited with initialTimestamp := t }, .ok ())
  | .error e => (limited, .error e)

/-- Why no genesis can be composed. -/
inductive Fault where
  | file (fault : FileFault)
  | rejected (why : Rejection)
  | timestamp (bad : BadTimestamp)
deriving DecidableEq, Repr

/-- The genesis of a file, or the standard one if no file is given or there is none. -/
def base (files : FileTree) (path : Option Path) : Logged (Except FileFault Genesis) :=
  match path with
  | none => pure (.ok standard)
  | some path =>
    if files.exists? path then do
      Logged.say .info ("Loading genesis from " ++ path.text)
      pure (load files path)
    else do
      Logged.say .warn ("Genesis file " ++ path.text ++ " does not exist, using defaults")
      pure (.ok standard)

/-- The key of the bios node and the overrides on top of a genesis. -/
def finish (g : Genesis) (bios : Node) (o : Overrides) (now : Timestamp) : Except Fault Genesis :=
  match bios.firstPublicKey with
  | none => .error (.rejected .biosWithoutKey)
  | some key =>
    match ({ g with initialKey := key } : Genesis).override o now with
    | (done, .ok ()) => .ok done
    | (_, .error e) => .error (.timestamp e)

/-- The genesis of a network with the given bios node, composed at some time. -/
def compose (files : FileTree) (path : Option Path) (bios : Node) (o : Overrides)
    (now : Timestamp) : Logged (Except Fault Genesis) := do
  match ← base files path with
  | .error e => pure (.error (.file e))
  | .ok g => pure (g.finish bios o now)

end Testnet.Genesis
