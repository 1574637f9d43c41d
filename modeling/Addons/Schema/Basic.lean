import Addons.Json.Basic

/-!
# Schemas

What the values of a resource's fields look like, with the words that explain them. A schema serves
twice: it is written into the definition of the resource's kind, and it guides the reading of YAML.
-/

namespace Addons

/-- A named field. -/
structure Property (σ : Type) where
  name : String
  /-- Explains the field; the words of its type do when empty. -/
  about : String := ""
  required : Bool := false
  default : Option Json := none
  schema : σ
  deriving Inhabited

inductive Schema where
  | text
  /-- A point in time. -/
  | time
  | bool
  /-- A signed integer of 64 bits. -/
  | int
  /-- A number that is not negative. -/
  | count
  /-- Any value at all. -/
  | free
  /-- One of a few names. -/
  | choice (about : String) (names : List String)
  /-- A value that may be null. -/
  | optional (s : Schema)
  | list (items : Schema)
  | record (about : String) (properties : List (Property Schema))
  deriving Inhabited

/-- The words for something, unless there are none. -/
def Json.describe (about : String) : Json.Fields :=
  if about.isEmpty then [] else [("description", .str about)]

namespace Schema

def typed (name : String) : Json.Fields := [("type", .str name)]

mutual

/-- The fields of a written schema, in increasing order of their names. -/
def fields : Schema → Json.Fields
  | .text => typed "string"
  | .time => ("format", .str "date-time") :: typed "string"
  | .bool => typed "boolean"
  | .int => ("format", .str "int64") :: typed "integer"
  | .count => ("format", .str "uint") :: ("minimum", .num (.float Double.zero)) :: typed "integer"
  | .free => typed "object" ++ [("x-kubernetes-preserve-unknown-fields", .bool true)]
  | .choice about names =>
    Json.describe about ++ ("enum", .arr (names.map Json.str)) :: typed "string"
  | .optional s => Table.insert "nullable" (.bool true) (fields s)
  | .list items => ("items", .obj (fields items)) :: typed "array"
  | .record about properties =>
    let required := (properties.filter Property.required).map Property.name
    Json.describe about ++
      ("properties", .obj (Table.ofList (propertyFields properties))) ::
      (if required.isEmpty then []
       else [("required", .arr ((required.mergeSort fun a b => a ≤ b).map Json.str))]) ++
      typed "object"

def propertyFields : List (Property Schema) → List (String × Json)
  | [] => []
  | ⟨name, about, _, default, schema⟩ :: rest =>
    let inner := Table.union (fields schema) (Json.describe about)
    let whole := match default with
      | some value => Table.insert "default" value inner
      | none => inner
    (name, .obj whole) :: propertyFields rest

end

/-- The schema as it stands in the definition of a kind. -/
def toJson (s : Schema) : Json := .obj s.fields

end Schema

end Addons
