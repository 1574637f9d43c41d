import Addons.Object.Applied
import Addons.Store.Session

/-!
# Idempotent writes

Writing an object so that a second time changes nothing, also against other writers.
-/

namespace Addons

inductive ApplyOutcome where
  | created
  | updated
  | unchanged
  deriving DecidableEq, Repr

def ApplyOutcome.name : ApplyOutcome → String
  | .created => "Created"
  | .updated => "Updated"
  | .unchanged => "Unchanged"

namespace Session

/-- Replace a live object unless the desired one is applied already. -/
def updateUnlessApplied (desired existing : Object) : Session ApplyOutcome :=
  if desired.isApplied existing then return .unchanged
  else do
    let _ ← replace (desired.adopt existing)
    return .updated

/-- Create an object, or update the one that is there. One that another writer creates in between counts
as there. -/
def createOrUpdate (desired : Object) : Session ApplyOutcome := do
  let key ← desired.key
  match ← find? key with
  | some existing => updateUnlessApplied desired existing
  | none =>
    match ← (createNew desired).attempt with
    | .ok _ => return .created
    | .error e =>
      if e.isAlreadyExists then do updateUnlessApplied desired (← require key) else throw e

def namespaceType : TypeRef := ⟨"v1", "Namespace"⟩

def namespaceKey (name : String) : Key := ⟨namespaceType, none, name⟩

/-- A namespace without any settings. -/
def namespaceObject (name : String) : Object :=
  ⟨some namespaceType, { name := some name }, []⟩

/-- Create a namespace unless it is there; whether it was created. -/
def ensureNamespace (name : String) : Session Bool := do
  match ← find? (namespaceKey name) with
  | some _ => return false
  | none =>
    match ← (createNew (namespaceObject name)).attempt with
    | .ok _ => return true
    | .error e => if e.isAlreadyExists then return false else throw e

end Session

end Addons
