import Testnet.Path

/-!
# File trees

Files and directories, and the directory that a run works in. A path is followed component by
component, from the root or from the working directory: a dot stays, two dots go up by one, and all
but the last component must be directories.
-/

namespace Testnet

/-- What a file holds: a text, or bytes that are none. -/
inductive Content where
  | text (s : String)
  | binary
deriving DecidableEq, Repr

inductive Entry where
  | directory
  | file (content : Content)
deriving DecidableEq, Repr

/-- Names of the directories on the way from the root, and the last name. -/
abbrev Location := List String

structure FileTree where
  /-- The working directory. -/
  home : Location
  entries : List (Location × Entry)
deriving DecidableEq, Repr

/-- Where a path leads. -/
inductive Spot where
  | found (place : Location) (entry : Entry)
  /-- Nothing is there, but the directory that would hold it is. A slash at the end asks for a
  directory. -/
  | vacant (place : Location) (slash : Bool)
  /-- A directory on the way does not exist. -/
  | missing
  /-- Something on the way is no directory, or the path is none. -/
  | blocked
deriving DecidableEq, Repr

namespace FileTree

/-- A working directory without anything in it. -/
def empty (home : Location) : FileTree := ⟨home, []⟩

/-- The entry at a location. The root, the working directory and all between them always exist. -/
def entry? (t : FileTree) (place : Location) : Option Entry :=
  if place.isPrefixOf t.home then some .directory else t.entries.lookup place

/-- The tree with an entry added or replaced. -/
def put (t : FileTree) (place : Location) (e : Entry) : FileTree :=
  { t with entries := (place, e) :: t.entries.filter fun old => old.1 != place }

/-- Bytes in the longest name. -/
def nameLimit : Nat := 255

/-- Bytes in the longest path, and one. -/
def pathLimit : Nat := 4096

def follow (t : FileTree) : Location → List String → Spot
  | here, [] => .found here .directory
  | here, part :: rest =>
    if part = "" ∨ part = "." then follow t here rest
    else if part = ".." then follow t here.dropLast rest
    else if nameLimit < part.utf8ByteSize then .blocked
    else
      match t.entry? (here ++ [part]) with
      | some .directory => follow t (here ++ [part]) rest
      | some (.file c) => if rest.isEmpty then .found (here ++ [part]) (.file c) else .blocked
      | none =>
        if rest.all (·.isEmpty) then .vacant (here ++ [part]) (!rest.isEmpty) else .missing

def parts (p : Path) : List String := (Path.splitList p.text.toList).map String.ofList

def resolve (t : FileTree) (p : Path) : Spot :=
  if p.text.isEmpty then .missing
  else if pathLimit ≤ p.text.utf8ByteSize ∨ p.text.toList.any (·.toNat == 0) then .blocked
  else t.follow (if p.text.toList.head? = some '/' then [] else t.home) (parts p)

def exists? (t : FileTree) (p : Path) : Bool :=
  match t.resolve p with
  | .found .. => true
  | _ => false

def isFile (t : FileTree) (p : Path) : Bool :=
  match t.resolve p with
  | .found _ (.file _) => true
  | _ => false

/-- The text of a file; directories and files of other bytes have none. -/
def readText (t : FileTree) (p : Path) : Option String :=
  match t.resolve p with
  | .found _ (.file (.text s)) => some s
  | _ => none

/-- Writes a file into a directory that exists. -/
def write (t : FileTree) (p : Path) (c : Content) : Option FileTree :=
  match t.resolve p with
  | .found place (.file _) => some (t.put place (.file c))
  | .vacant place false => some (t.put place (.file c))
  | _ => none

/-- A directory at a path, made unless it is there. -/
def makeDirectory (t : FileTree) (p : Path) : Option FileTree :=
  match t.resolve p with
  | .found _ .directory => some t
  | .vacant place _ => some (t.put place .directory)
  | _ => none

/-- Goes up at most `steps` parents. -/
def makeWithin (t : FileTree) : Nat → Path → Option FileTree
  | 0, _ => none
  | steps + 1, p =>
    if p.text.isEmpty then some t
    else
      match t.resolve p with
      | .missing =>
        match p.parent with
        | none => none
        | some above => (makeWithin t steps above).bind (·.makeDirectory p)
      | _ => t.makeDirectory p

/-- A directory at a path, and all the directories on the way to it. Every parent is shorter than
its path. -/
def makeDirectories (t : FileTree) (p : Path) : Option FileTree :=
  t.makeWithin (p.text.length + 1) p

/-- Writes a file and makes the directories on the way to it. -/
def plant (t : FileTree) (p : Path) (c : Content) : Option FileTree :=
  match p.parent with
  | none => t.write p c
  | some above => (t.makeDirectories above).bind (·.write p c)

/-- The text files below the working directory whose name has an ending, in the order of their
paths. -/
def textFiles (t : FileTree) (ending : String) : List (String × String) :=
  (t.entries.filterMap fun
    | (place, .file (.text s)) =>
      if t.home.isPrefixOf place && ending.toList.isSuffixOf (place.getLastD "").toList then
        some ("/".intercalate (place.drop t.home.length), s)
      else none
    | _ => none).mergeSort fun a b => decide (a.1 ≤ b.1)

end FileTree

end Testnet
