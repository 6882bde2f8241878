/-!
# Paths

A path is a text whose components are separated by slashes. Empty components and dots only stand
for the place they are at, so `a//b`, `a/./b` and `a/b` name the same file.
-/

namespace Testnet

structure Path where
  text : String
deriving DecidableEq, Repr

namespace Path

/-- The path of `name` seen from `base`; a name that starts at the root stands alone. -/
def join (base : Path) (name : String) : Path :=
  if name.toList.head? = some '/' then ⟨name⟩
  else if base.text.isEmpty || base.text.toList.getLast? = some '/' then ⟨base.text ++ name⟩
  else ⟨base.text ++ "/" ++ name⟩

/-- The texts between the slashes; there is always one more than there are slashes. -/
def splitList : List Char → List (List Char)
  | [] => [[]]
  | c :: cs =>
    if c = '/' then [] :: splitList cs
    else
      match splitList cs with
      | [] => [[c]]
      | part :: parts => (c :: part) :: parts

/-- A component that does not lead anywhere else. -/
def isIdle (part : List Char) : Bool := part.isEmpty || part == ['.']

/-- What a path starts with besides its components: the root, or a dot that stands for the working
directory. -/
def anchorLength : List Char → Nat
  | '/' :: _ => 1
  | ['.'] => 1
  | '.' :: '/' :: _ => 1
  | _ => 0

/-- The path without its last component. The root and the empty path have none. -/
def parent (p : Path) : Option Path :=
  let cs := p.text.toList
  let anchor := cs.take (anchorLength cs)
  match ((splitList (cs.drop (anchorLength cs))).reverse.dropWhile isIdle) with
  | [] => if anchor = ['.'] then some ⟨""⟩ else none
  | _ :: before =>
    let kept := (before.dropWhile isIdle).reverse
    some ⟨String.ofList (anchor ++ ['/'].intercalate kept)⟩

end Path

end Testnet
