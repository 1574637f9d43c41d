import Addons.Component.Bundle
import Addons.Component.Produced
import Addons.Composite.Reconcile
import Addons.Composite.Rollup
import Addons.Workload.Health

/-!
# Installing and removing

What one pass of the operator does for a resource: bring its objects in line and derive its status, or
remove them. Input that is at fault shows in the status and is no error of the pass.
-/

namespace Addons

/-- What the operator works with besides the store. -/
structure Surroundings where
  now : Instant
  render : Renderer
  /-- How long to wait for workloads after a retry. -/
  awaitTimeout : Span := .ofSeconds 300

namespace Operator

/-- Run a session and report its outcome where that is asked for. -/
def measure {α : Type} (component : String) (install : Bool) (asked : Except Error α → Bool)
    (s : Session α) : Session α := do
  let r ← s.attempt
  if asked r then
    Session.report ⟨component, install, match r with | .ok _ => true | .error _ => false⟩
  Session.done r

/-- The namespace that a chart is installed into: its own unless it names one. -/
def targetNamespace (addon : HelmAddon) : Except Error String :=
  match addon.spec.targetNamespace.filter fun ns => !ns.isEmpty with
  | some ns => .ok ns
  | none => addon.namespaceOf helmAddons.kind

/-- Write the objects of a release and look at its outcome. The first time is measured, and every
failure. -/
def installHelm (env : Surroundings) (addon : HelmAddon) : Session Status := do
  let target ← targetNamespace addon
  measure addon.name true
    (fun r => addon.status.isNone || match r with | .ok _ => false | .error _ => true)
    (Release.apply addon target)
  let outcome ← Release.outcome addon
  return outcome.health env.now

def uninstallHelm (addon : HelmAddon) : Session Unit :=
  measure addon.name false (fun _ => true) (Release.remove addon)

/-- Write an issuer and look at its health. One that cannot be written as declared is degraded. -/
def installIssuer (env : Surroundings) (addon : IssuerAddon) : Session Status := do
  match ← (Issuer.apply addon).attempt with
  | .ok _ => Issuer.status env.now addon
  | .error (.invalidObject message) => return .degraded env.now "InvalidIssuer" message
  | .error e => throw e

def uninstallIssuer (addon : IssuerAddon) : Session Unit := do
  let _ ← Issuer.remove addon

/-- The status of a component whose manifest failed; failures of the cluster stay errors. -/
def renderFailed (env : Surroundings) (e : Error) : Except Error Status :=
  if e.isInput then .ok (.degraded env.now "RenderFailed" e.message) else .error e

/-- Wait for the workloads of a component that was applied anew; when they take too long their status as
it is then counts. -/
def awaitWorkloads (env : Surroundings) (objects : List Tracked) : Session Status := do
  let probe : Session (Option Status) := do return some (← Health.check env.now objects)
  match ← (Await.poll env.awaitTimeout.millis Await.interval probe Session.pause).attempt with
  | .ok s => return s
  | .error (.timeout _) => Health.check env.now objects
  | .error e => throw e

/-- Apply a bundle, or remove it and apply it anew when that is due, and look at its workloads. -/
def installManifest (env : Surroundings) (addon : ManifestAddon) : Session Status := do
  let ns ← addon.namespaceOf manifestAddons.kind
  let owner := addon.ownerReference? manifestAddons.type
  if ← addon.retryDue env.now then
    match ← (measure addon.name true (fun _ => true)
        (Bundle.retry env.now env.render addon owner)).attempt with
    | .ok report => awaitWorkloads env report.objects
    | .error e => renderFailed env e
  else
    match ← (measure addon.name true (fun r => match r with | .ok p => p.changed | .error _ => true)
        (Bundle.apply env.render ns addon.name addon.spec owner)).attempt with
    | .ok report => Health.check env.now report.objects
    | .error e => renderFailed env e

def uninstallManifest (addon : ManifestAddon) : Session Nat := do
  let ns ← addon.namespaceOf manifestAddons.kind
  measure addon.name false (fun _ => true) (Bundle.remove ns addon.name)

def ownerOf (set : AddonSet) : Except Error Owner :=
  (set.namespaceOf addonSets.kind).map fun ns => ⟨set.name, ns⟩

/-- Bring the components of a composite in line with what it declares. -/
def installSet (set : AddonSet) : Session Summary := do
  Reconcile.all (← ownerOf set) set.spec

/-- Remove all components of a composite. -/
def uninstallSet (set : AddonSet) : Session Summary := do
  Reconcile.all (← ownerOf set) {}

/-- The status of a composite whose components are in line. -/
def setStatus (env : Surroundings) (set : AddonSet) : Session SetStatus := do
  let health := Rollup.status env.now (← Rollup.collect (← ownerOf set))
  return {
    observedGeneration := set.metadata.generation
    components := set.spec.count
    status := some (health.withTransitionFrom (set.status.bind SetStatus.status)) }

end Operator

end Addons
