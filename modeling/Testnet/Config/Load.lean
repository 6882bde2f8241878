import Testnet.Config.Text
import Testnet.Failure
import Testnet.Text.Quoted

/-!
# Loading a configuration

A configuration is read from a file and checked. A directory can be opened but holds no
configuration, like a file of bytes that are no text.
-/

namespace Testnet.Config

/-- The configuration in the file at a path, unchecked. -/
def parse (files : FileTree) (path : Path) : Except FileFault Config :=
  match files.resolve path with
  | .found _ (.file (.text s)) =>
    match ofText? s with
    | some c => .ok c
    | none => .error (.unparsed .config path)
  | .found .. => .error (.unparsed .config path)
  | _ => .error (.unopened .config path)

/-- Reads and checks a configuration without a word. -/
def read (files : FileTree) (path : Path) : Except Failure Config :=
  match parse files path with
  | .error e => .error (.file e)
  | .ok c =>
    match c.check with
    | .error e => .error (Failure.ofStop .config e)
    | .ok () => .ok c

/-- Reads and checks a configuration, and says which. -/
def load (files : FileTree) (path : Path) : Run Config := do
  Run.say .info ("Loading configuration from: " ++ Text.quote path.text)
  Run.ofExcept id (read files path)

end Testnet.Config
