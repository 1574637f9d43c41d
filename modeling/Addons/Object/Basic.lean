import Addons.Error
import Addons.Object.Metadata
import Addons.Object.TypeRef

/-!
# Objects

An untyped Kubernetes object: its type, its metadata, and all other fields as they are.
-/

namespace Addons

structure Object where
  /-- API version and kind, both or neither. -/
  type : Option TypeRef
  metadata : Metadata
  /-- Everything outside of type and metadata. -/
  data : Json.Fields
  deriving Repr, Inhabited

namespace Object

/-- The type of an object, and its fields less those that were tried for it. Where the API version is no
text, the kind stays an ordinary field. -/
def takeType (fields : Json.Fields) : Option TypeRef × Json.Fields :=
  match Table.find? fields "apiVersion" with
  | some (.str apiVersion) =>
    let rest := (fields.erase "apiVersion").erase "kind"
    match Table.find? fields "kind" with
    | some (.str kind) => (some ⟨apiVersion, kind⟩, rest)
    | _ => (none, rest)
  | some _ => (none, fields.erase "apiVersion")
  | none => (none, fields.erase "kind")

def ofJson? : Json → Option Object
  | .obj fields => do
    let metadata ← match Table.find? fields "metadata" with
      | some m => Metadata.ofJson? m
      | none => some {}
    let (type, data) := takeType (Table.erase fields "metadata")
    return ⟨type, metadata, data⟩
  | _ => none

def toJson (o : Object) : Json :=
  let typed : Json.Fields :=
    match o.type with
    | some t => Table.insert "apiVersion" (.str t.apiVersion) (Table.insert "kind" (.str t.kind) o.data)
    | none => o.data
  .obj (Table.insert "metadata" o.metadata.toJson typed)

/-- The name of an object, or the stem of one that is to be generated. -/
def anyName (o : Object) : String := (o.metadata.name.or o.metadata.generateName).getD ""

/-- The identity of an object. -/
def key (o : Object) : Except Error Key :=
  match o.type with
  | none => .error (.invalidObject "object has no apiVersion/kind")
  | some t =>
    match o.metadata.name with
    | none => .error (.invalidObject s!"{t.kind} has no metadata.name")
    | some name => .ok ⟨t, o.metadata.ns, name⟩

/-- An object from a JSON document. -/
def ofDocument (j : Json) : Except Error Object :=
  match ofJson? j with
  | some o => .ok o
  | none => .error .serialization

theorem ofDocument_eq_ok_iff {j : Json} {o : Object} : ofDocument j = .ok o ↔ ofJson? j = some o := by
  unfold ofDocument
  cases ofJson? j <;> simp

end Object

end Addons
