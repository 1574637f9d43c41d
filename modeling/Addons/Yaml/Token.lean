/-!
# YAML tokens

What the characters of a YAML text say one after another: structure marks, properties of nodes, and
scalars. Block structure, which the text shows by indentation, is marked by tokens of its own.
-/

namespace Addons.Yaml

/-- How a scalar is written. -/
inductive ScalarStyle where
  | plain
  | quoted
  /-- A block whose line breaks stay. -/
  | literal
  /-- A block whose line breaks fold. -/
  | folded
  deriving DecidableEq, Repr, Inhabited

/-- A tag as written: a shorthand handle, empty if there is none, and the rest. -/
structure TagName where
  handle : List Char
  suffix : List Char
  deriving DecidableEq, Repr, Inhabited

inductive Token where
  | streamEnd
  | version (major minor : Nat)
  | tagDirective (handle expansion : List Char)
  | documentStart
  | documentEnd
  | blockSequenceStart
  | blockMappingStart
  | blockEnd
  | flowSequenceStart
  | flowSequenceEnd
  | flowMappingStart
  | flowMappingEnd
  | flowEntry
  | blockEntry
  | key
  | value
  | anchor (name : List Char)
  | alias (name : List Char)
  | tag (name : TagName)
  | scalar (style : ScalarStyle) (text : List Char)
  deriving DecidableEq, Repr, Inhabited

end Addons.Yaml
