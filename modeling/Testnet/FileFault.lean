import Testnet.Path

/-!
# Faults of files

What a run could not do with a file, told by what the file holds.
-/

namespace Testnet

inductive FileKind where
  | topology
  | genesis
  | config
  | launchPlan
deriving DecidableEq, Repr

def FileKind.text : FileKind → String
  | topology => "topology file"
  | genesis => "genesis file"
  | config => "config file"
  | launchPlan => "launch plan"

inductive FileFault where
  | unopened (what : FileKind) (path : Path)
  | unread (what : FileKind) (path : Path)
  /-- The file was read but is no document of its kind. -/
  | unparsed (what : FileKind) (path : Path)
  | unwritten (what : FileKind) (path : Path)
  | noDirectory (path : Path)
  | noOutputDirectory (path : Path)
deriving DecidableEq, Repr

namespace FileFault

private def about (failure : String) (path : Path) : String :=
  "Failed to " ++ failure ++ " '" ++ path.text ++ "'"

def message : FileFault → String
  | unopened what path => about ("open " ++ what.text) path
  | unread what path => about ("read " ++ what.text) path
  | unparsed what path => about ("parse " ++ what.text) path
  | unwritten what path => about ("write " ++ what.text) path
  | noDirectory path => about "create directory" path
  | noOutputDirectory path => about "create output directory" path

end FileFault

end Testnet
