import Testnet.CommandLine.Request
import Testnet.Config.Load
import Testnet.Output

/-!
# Running a command

A command either prints the topology of the network it builds or writes all of its files. It prints
nothing when it fails; the exit code says how.
-/

namespace Testnet.CommandLine

/-- What a command leaves behind. -/
structure Outcome where
  code : Nat
  printed : String
  files : FileTree
deriving Repr

/-- Codes for success, for a failure, for a misuse, and for arithmetic that left its word. -/
def success : Nat := 0

def failed : Nat := 1

def misused : Nat := 2

def overflowed : Nat := 101

def failureCode : Failure → Nat
  | .overflow _ => overflowed
  | _ => failed

def versionText : String := "clustergen 0.1.0\n"

/-- The directory for the files when none is given. -/
def standardOutput : Path := ⟨"cluster_output"⟩

/-- The configuration of a command: its file or the standard one, with its own settings. -/
def Invocation.configuration (i : Invocation) (files : FileTree) : Except Failure Config := do
  let c ←
    match i.config with
    | some path => Config.read files path
    | none => .ok .standard
  match (c.override i.overrides).value with
  | (changed, .ok ()) => .ok changed
  | (_, .error e) => .error (Failure.ofStop .config e)

def Outcome.failure (files : FileTree) (e : Failure) : Outcome := ⟨failureCode e, "", files⟩

/-- Prints the topology of the network of a configuration. -/
def preview (c : Config) (files : FileTree) (now : Timestamp) : Outcome :=
  match (build c files now .development ()).run.value with
  | .ok n => ⟨success, n.topology.text ++ "\n", files⟩
  | .error e => .failure files e

/-- Writes the files of the network of a configuration. -/
def produce (c : Config) (files : FileTree) (now : Timestamp) (output : Path) : Outcome :=
  match (generate c files now output).value with
  | (after, .ok _) => ⟨success, "", after⟩
  | (after, .error e) => .failure after e

def Invocation.run (i : Invocation) (files : FileTree) (now : Timestamp) : Outcome :=
  match i.configuration files with
  | .error e => .failure files e
  | .ok c =>
    if i.dryRun then preview c files now
    else produce c files now (i.output.getD standardOutput)

/-- What a command with the given arguments leaves behind when it runs at some time. How the help is
laid out is not for the command to say, so its text is given. -/
def run (help : String) (files : FileTree) (now : Timestamp) (arguments : List String) : Outcome :=
  match read arguments with
  | .help => ⟨success, help, files⟩
  | .version => ⟨success, versionText, files⟩
  | .misuse => ⟨misused, "", files⟩
  | .run i => i.run files now

end Testnet.CommandLine
