import Testnet.FileFault
import Testnet.FileTree
import Testnet.Topology.Basic

/-!
# Stored documents

Reading and writing topologies, and what other documents share with them: a document is written
only after the directories on the way to it have been made.
-/

namespace Testnet

namespace FileTree

/-- Writes a document; the directories made for it stay when it cannot be written. -/
def writeDocument (files : FileTree) (what : FileKind) (path : Path) (content : String) :
    Except FileFault FileTree :=
  let place (t : FileTree) : Except FileFault FileTree :=
    match t.write path (.text content) with
    | some t => .ok t
    | none => .error (.unwritten what path)
  match path.parent with
  | none => place files
  | some above =>
    match files.makeDirectories above with
    | some t => place t
    | none => .error (.noDirectory above)

/-- Reads a document with a parser for its kind. -/
def readDocument {α : Type} (files : FileTree) (what : FileKind) (parse : String → Option α)
    (path : Path) : Except FileFault α :=
  match files.readText path with
  | none => .error (.unread what path)
  | some s =>
    match parse s with
    | none => .error (.unparsed what path)
    | some a => .ok a

/-- A document is read where a text is that its parser takes. -/
theorem readDocument_eq_ok_iff {α : Type} {files : FileTree} {what : FileKind}
    {parse : String → Option α} {path : Path} {a : α} :
    files.readDocument what parse path = .ok a ↔
      ∃ s, files.readText path = some s ∧ parse s = some a := by
  unfold readDocument
  cases files.readText path with
  | none => simp
  | some s => cases hparse : parse s <;> simp [hparse]

end FileTree

namespace Topology

def load (files : FileTree) (path : Path) : Except FileFault Topology :=
  files.readDocument .topology ofText? path

def store (t : Topology) (files : FileTree) (path : Path) : Except FileFault FileTree :=
  files.writeDocument .topology path t.text

end Topology

end Testnet
