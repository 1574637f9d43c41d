import Addons.Object.Basic

/-!
# Typed resources

A resource of this operator is an object with a typed specification and perhaps a typed status.
-/

namespace Addons

/-- The API group of all resources here. -/
def apiGroup : String := "stowage.io"

def apiVersion : String := "stowage.io/v1alpha1"

/-- Guards the cleanup of produced objects. -/
def finalizerName : String := "stowage.io/cleanup"

/-- Marks objects written by this operator. -/
def managedByLabel : String := "app.kubernetes.io/managed-by"

def managedBy : String := "stowage"

/-- Link a component back to its composite. -/
def ownerNameLabel : String := "stowage.io/owner-name"

def ownerNamespaceLabel : String := "stowage.io/owner-namespace"

/-- Carried by every object rendered from a manifest component. -/
def manifestLabel : String := "stowage.io/manifest"

/-- Stamped on a manifest component each time it is removed and applied again. -/
def retriedAtAnnotation : String := "stowage.io/retried-at"

structure Resource (σ τ : Type) where
  metadata : Metadata
  spec : σ
  status : Option τ := none
  deriving Inhabited

/-- How resources of one kind are named, read and written. -/
structure ResourceKind (σ τ : Type) where
  kind : String
  readSpec : Json → Option σ
  writeSpec : σ → Json
  readStatus : Json → Option τ
  writeStatus : τ → Json

namespace ResourceKind

variable {σ τ : Type}

def type (k : ResourceKind σ τ) : TypeRef := ⟨apiVersion, k.kind⟩

/-- The key of a resource in a namespace. -/
def key (k : ResourceKind σ τ) (ns name : String) : Key := ⟨k.type, some ns, name⟩

/-- Read a resource; its type is not looked at. -/
def ofJson? (k : ResourceKind σ τ) (j : Json) : Option (Resource σ τ) := do
  let r ← Record.read? ["metadata", "spec", "status"] j
  return ⟨← r.required? "metadata" Metadata.ofJson?, ← r.required? "spec" k.readSpec,
    ← r.nullable? "status" k.readStatus⟩

/-- The resource of an untyped object. -/
def ofObject (k : ResourceKind σ τ) (o : Object) : Except Error (Resource σ τ) :=
  match k.ofJson? o.toJson with
  | some r => .ok r
  | none => .error .serialization

/-- The untyped object of a resource. -/
def toObject (k : ResourceKind σ τ) (r : Resource σ τ) : Object :=
  { type := some k.type
    metadata := r.metadata.truncateTimes
    data := Table.ofList (("spec", k.writeSpec r.spec) ::
      (r.status.toList.map fun s => ("status", k.writeStatus s))) }

end ResourceKind

namespace Resource

variable {σ τ : Type}

/-- The name, or the stem of a name that is to be generated. -/
def name (r : Resource σ τ) : String := (r.metadata.name.or r.metadata.generateName).getD ""

/-- The reference by which produced objects name this resource as their owner. -/
def ownerReference? (r : Resource σ τ) (type : TypeRef) : Option OwnerReference := do
  return { apiVersion := type.apiVersion, controller := some true, kind := type.kind,
           name := ← r.metadata.name, uid := ← r.metadata.uid }

/-- The namespace of a resource that has to have one. -/
def namespaceOf (r : Resource σ τ) (kind : String) : Except Error String :=
  match r.metadata.ns with
  | some ns => .ok ns
  | none => .error (.missingNamespace kind r.name)

end Resource

end Addons
