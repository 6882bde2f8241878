import Testnet.Build
import Testnet.Launch.Entry

/-!
# Output

Builds a network with development keys and writes its topology, genesis and launch plan into a
directory. Files written before a failure stay.
-/

namespace Testnet

structure OutputPaths where
  topology : Path
  genesis : Path
  launchPlan : Path
deriving DecidableEq, Repr

namespace OutputPaths

def within (directory : Path) : OutputPaths where
  topology := directory.join "topology.json"
  genesis := directory.join "genesis.json"
  launchPlan := directory.join "launch_plan.json"

end OutputPaths

namespace Config

/-- The launch options of a network whose files lie in a directory. -/
def launchOptions (c : Config) (directory : Path) : LaunchOptions :=
  ⟨(OutputPaths.within directory).genesis, c.nodes.extra, c.nodes.specific⟩

end Config

/-- What is written, and how far it came: the files after the last step that worked, and the
fault of the first that did not. -/
def writeOutput (files : FileTree) (directory : Path) (n : Network) (plan : List LaunchEntry) :
    FileTree × Except FileFault Unit :=
  let paths := OutputPaths.within directory
  match files.makeDirectories directory with
  | none => (files, .error (.noOutputDirectory directory))
  | some made =>
    match n.topology.store made paths.topology with
    | .error e => (made, .error e)
    | .ok first =>
      match n.genesis.store first paths.genesis with
      | .error e => (first, .error e)
      | .ok second =>
        match second.write paths.launchPlan (.text (LaunchEntry.planText plan)) with
        | none => (second, .error (.unwritten .launchPlan paths.launchPlan))
        | some third => (third, .ok ())

/-- The network of a configuration and its launch plan. -/
def prepare (c : Config) (files : FileTree) (now : Timestamp) (directory : Path) :
    Run (Network × List LaunchEntry) := do
  let n ← build c files now .development ()
  let plan ← Run.ofLogged .rejected (n.launchPlan (c.launchOptions directory))
  return (n, plan)

/-- Builds and writes a network. The files are returned whether or not all went well. -/
def generate (c : Config) (files : FileTree) (now : Timestamp) (directory : Path) :
    Logged (FileTree × Except Failure OutputPaths) := do
  match ← (prepare c files now directory).run with
  | .error e => pure (files, .error e)
  | .ok (n, plan) =>
    let paths := OutputPaths.within directory
    match writeOutput files directory n plan with
    | (after, .error e) => pure (after, .error (.file e))
    | (after, .ok ()) => do
      Logged.say .info ("Wrote " ++ paths.topology.text ++ " (" ++ toString n.nodes.length ++
        " node(s), " ++ toString n.started.length ++ " to start)")
      pure (after, .ok paths)

end Testnet
