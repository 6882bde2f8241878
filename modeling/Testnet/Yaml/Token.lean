/-!
# YAML tokens

Tokens carry what is needed to build a document. The start and the end of a block are tokens too,
although they are only seen in the indentation.
-/

namespace Testnet.Yaml

/-- How a scalar is written. -/
inductive Style where
  | plain
  | quoted
  | literal
  | folded
deriving DecidableEq, Repr

/-- A tag as it is written: a handle that stands for the start of it, and the rest. A tag without a
handle is complete. -/
structure RawTag where
  handle : List Char
  suffix : List Char
deriving DecidableEq, Repr

inductive Token where
  | streamEnd
  | version (major minor : Nat)
  | tagHandle (handle start : List Char)
  | documentStart
  | documentEnd
  | blockSequenceStart
  | blockMappingStart
  | blockEnd
  | flowSequenceStart
  | flowSequenceEnd
  | flowMappingStart
  | flowMappingEnd
  | blockEntry
  | flowEntry
  | key
  | value
  | alias (name : String)
  | anchor (name : String)
  | tag (t : RawTag)
  | scalar (style : Style) (text : String)
deriving DecidableEq, Repr

end Testnet.Yaml
