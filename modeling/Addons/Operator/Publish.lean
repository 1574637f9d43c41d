import Addons.Operator.Install

/-!
# Publishing statuses

A status is written to its resource when it says something new, times apart. It keeps the time at which
its type last changed.
-/

namespace Addons

/-- A status of a composite says something new. -/
def SetStatus.differsFrom (next : SetStatus) (previous : Option SetStatus) : Bool :=
  match previous with
  | none => true
  | some p =>
    let sameHealth := match p.status, next.status with
      | some a, some b => a.sameAs b
      | none, none => true
      | _, _ => false
    !(sameHealth && p.observedGeneration = next.observedGeneration && p.components = next.components)

namespace Operator

/-- The one who manages the statuses of components. -/
def statusManager : String := "stowage"

/-- What is written for a status, given the one that is stored; none if it says nothing new. -/
def statusToWrite (previous : Option Status) (next : Status) : Except Error (Option Status) :=
  if previous.any fun p => p.sameAs next then .ok none
  else
    let next := next.withTransitionFrom previous
    match next.validate with
    | .ok () => .ok (some next)
    | .error e => .error (.content e)

/-- Merge a status into that of a resource; the answer has to be such a resource again. -/
def publish {σ τ : Type} (k : ResourceKind σ τ) (key : Key) (status : Json) (manager : Option String) :
    Session Unit :=
  .mergeStatus key status manager fun
    | .ok o =>
      match k.ofObject o with
      | .ok _ => return ()
      | .error _ => .fail (.api none)
    | .error e => .fail e

/-- Write the status of a component. -/
def writeStatus {σ : Type} (k : ResourceKind σ Status) (r : Resource σ Status)
    (previous : Option Status) (next : Status) : Session Unit := do
  match ← statusToWrite previous next with
  | none => return ()
  | some status =>
    let ns ← r.namespaceOf k.kind
    publish k (k.key ns r.name) status.toJson (some statusManager)

/-- Write the status of a composite. -/
def writeSetStatus (set : AddonSet) (next : SetStatus) : Session Unit := do
  if next.differsFrom set.status then
    let ns ← set.namespaceOf addonSets.kind
    publish addonSets (addonSets.key ns set.name) next.toJson none

end Operator

end Addons
