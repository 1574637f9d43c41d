import Addons.Composite.Reconcile

/-!
# Health of a composite

The worst component decides: one that is unhealthy, then one that is degraded, then all that are not up
yet. A composite without components is available.
-/

namespace Addons

/-- A component as it is named in messages, with its status if it has one. -/
abbrev ComponentHealth := String × Option Status

namespace Rollup

/-- The first component whose status is of a type. -/
def first? (type : StatusType) (components : List ComponentHealth) : Option (String × Status) :=
  components.findSome? fun c =>
    c.2.bind fun s => if s.type = type then some (c.1, s) else none

def isUp (c : ComponentHealth) : Bool := c.2.any fun s => s.type.isUp

/-- The names of the components that are not up. -/
def pending (components : List ComponentHealth) : List String :=
  (components.filter fun c => !isUp c).map Prod.fst

/-- The health of a composite from that of its components. -/
def status (now : Instant) (components : List ComponentHealth) : Status :=
  match first? .unhealthy components, first? .degraded components, pending components with
  | some (name, s), _, _ => .unhealthy now "ComponentUnhealthy" s!"{name}: {s.message}"
  | none, some (name, s), _ => .degraded now "ComponentDegraded" s!"{name}: {s.message}"
  | none, none, [] => .available now "Reconciled" s!"{components.length} components available"
  | none, none, name :: names =>
    .progressing now "ComponentsProgressing" ("waiting for " ++ ", ".intercalate (name :: names))

/-- The status that a live component shows. -/
def statusOf (o : Object) : Option Status := (Table.find? o.data "status").bind Status.ofJson?

/-- The components of one kind with their stored statuses. -/
def ofKind (owner : Owner) (type : TypeRef) : Session (List ComponentHealth) := do
  let objects ← Session.listAll type none (some owner.selector)
  return objects.map fun o => (s!"{type.kind}/{o.anyName}", statusOf o)

/-- The stored statuses of all components of an owner. -/
def collect (owner : Owner) : Session (List ComponentHealth) := do
  let helm ← ofKind owner helmAddons.type
  let manifests ← ofKind owner manifestAddons.type
  let issuers ← ofKind owner issuerAddons.type
  return helm ++ manifests ++ issuers

end Rollup

end Addons
