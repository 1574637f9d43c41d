import Addons.Object.Metadata

/-!
# Shapes of typed objects

A typed object of the cluster fits a shape: each field that it has under a known name holds a value of
the right type. Every field may be absent or null, and unknown fields are ignored.
-/

namespace Addons

inductive Shape where
  | text
  | bool
  | int32
  | int64
  | time
  /-- A whole number or a text. -/
  | intOrText
  /-- A map of texts. -/
  | texts
  | metadata
  | list (item : Shape)
  | object (fields : List (String × Shape))
  deriving Repr, Inhabited

namespace Shape

mutual

/-- Whether a value that is present fits. -/
def fits : Shape → Json → Bool
  | .text, j => j.str?.isSome
  | .bool, j => j.bool?.isSome
  | .int32, j => (Json.int32? j).isSome
  | .int64, j => (Json.int64? j).isSome
  | .time, j => (Json.instant? j).isSome
  | .intOrText, j => j.str?.isSome || (Json.int32? j).isSome
  | .texts, j => (Json.strings? j).isSome
  | .metadata, j => (Metadata.ofJson? j).isSome
  | .list item, .arr items => items.all fun j => fits item j
  | .object fields, .obj given => fitsFields fields given
  | _, _ => false

def fitsFields : List (String × Shape) → Json.Fields → Bool
  | [], _ => true
  | (k, s) :: rest, given =>
    (match Table.find? given k with
      | none => true
      | some .null => true
      | some j => fits s j) && fitsFields rest given

end

/-- Asks for labels, each by its value or by an expression. -/
def selector : Shape :=
  .object [("matchLabels", .texts),
    ("matchExpressions", .list (.object [("key", .text), ("operator", .text), ("values", .list .text)]))]

end Shape

end Addons
