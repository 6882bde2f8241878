import Testnet.CommandLine.Run

/-!
# The command

Runs a command on the files of the working directory: the files that it may read are gathered, the
clock is asked once, the run is computed, and the files that it left behind are written.
-/

namespace Testnet.CommandLine

/-- The options of the command as the help shows them, each with what it is for. -/
def optionHelp : List (String × String) :=
  [("-c, --config <CONFIG>", "Path to the cluster configuration YAML file"),
    ("-o, --output <OUTPUT>", "Output directory for topology, genesis and launch plan files " ++
      "[default: " ++ standardOutput.text ++ "]"),
    ("-s, --shape <SHAPE>", "Topology shape (line, ring, star, mesh, bridge) or topology file"),
    ("-n, --total-nodes <TOTAL_NODES>", "Total number of nodes, bios included"),
    ("-p, --pnodes <PNODES>", "Number of producing nodes, bios included"),
    ("    --producers <PRODUCERS>", "Number of unique producers"),
    ("    --shared-producers <SHARED_PRODUCERS>",
      "Number of producers shared by every producing node"),
    ("    --unstarted-nodes <UNSTARTED_NODES>",
      "Number of trailing nodes configured but not started"),
    ("-g, --genesis <GENESIS>", "Genesis file to start from"),
    ("    --max-block-cpu-usage <MAX_BLOCK_CPU_USAGE>", "Override max_block_cpu_usage in genesis"),
    ("    --max-transaction-cpu-usage <MAX_TRANSACTION_CPU_USAGE>",
      "Override max_transaction_cpu_usage in genesis"),
    ("    --dry-run", "Print the topology JSON instead of writing files"),
    ("-h, --help", "Print help"),
    ("-V, --version", "Print version")]

/-- What the command is for, how it is called, and its options. Each option has a line of its own,
and what it is for stands in the line below. -/
def helpText : String :=
  "\n".intercalate
    (["Deterministic test-cluster topology and producer binding generator for ledger node test " ++
        "harnesses", "", "Usage: clustergen [OPTIONS]", "", "Options:"] ++
      optionHelp.flatMap fun o => ["  " ++ o.1, "          " ++ o.2]) ++ "\n"

/-- The time of the clock, as it is stamped on a new file. -/
def askClock : IO Timestamp :=
  IO.FS.withTempFile fun _ place => do
    let stamp := (← place.metadata).modified
    return .ofSeconds stamp.sec.toNat stamp.nsec.toNat

/-- The working directory as a location. -/
def homeOf (directory : String) : Location :=
  (FileTree.parts ⟨directory⟩).filter (· != "")

/-- Adds what stands at a path, if anything does. -/
def gather (files : FileTree) (path : Path) : IO FileTree := do
  let place := (← IO.currentDir) / path.text
  if ← place.isDir then return (files.makeDirectories path).getD files
  if ← place.pathExists then
    let bytes ← IO.FS.readBinFile place
    let content := ((String.fromUTF8? bytes).map Content.text).getD .binary
    return (files.plant path content).getD files
  return files

/-- The files that a configuration refers to. -/
def references (c : Config) : List Path :=
  ⟨Text.trim c.network.shape⟩ :: c.genesis.path.toList

/-- The files that an invocation may read. -/
def gatherAll (i : Invocation) (home : Location) : IO FileTree := do
  let files ← i.config.toList.foldlM gather (.empty home)
  match i.configuration files with
  | .error _ => return files
  | .ok c => (references c ++ [i.output.getD standardOutput]).foldlM gather files

/-- Writes the files that were not there before. -/
def writeNew (before after : FileTree) : IO Unit := do
  for (place, entry) in after.entries do
    if before.entry? place ≠ some entry then
      let path := "/" ++ "/".intercalate place
      match entry with
      | .directory => IO.FS.createDirAll path
      | .file (.text s) => IO.FS.writeFile path s
      | .file .binary => pure ()

end Testnet.CommandLine

open Testnet in
def main (arguments : List String) : IO UInt32 := do
  let home := CommandLine.homeOf (← IO.currentDir).toString
  let before ←
    match CommandLine.read arguments with
    | .run i => CommandLine.gatherAll i home
    | _ => pure (.empty home)
  let now ← CommandLine.askClock
  let done := CommandLine.run CommandLine.helpText before now arguments
  CommandLine.writeNew before done.files
  IO.print done.printed
  return UInt32.ofNat done.code
