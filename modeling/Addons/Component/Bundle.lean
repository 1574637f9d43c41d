import Addons.Component.Timeout
import Addons.Manifest.Render
import Addons.Object.Applied
import Addons.Object.Prepare
import Addons.Resource.Record
import Addons.Store.Session
import Addons.Text

/-!
# Manifest bundles

A manifest component is rendered, and its objects are brought in line with the render. What it has
produced is kept in a record beside it, object by object, so that an interrupted pass is taken up by the
next one.
-/

namespace Addons

/-- Renders the manifest at an address with patches and image substitutions. -/
abbrev Renderer := String → List Patch → List ImageSubstitution → Except Error ByteArray

/-- What applying a bundle did. -/
structure ApplyReport where
  fingerprint : String
  /-- Whether anything was written. -/
  changed : Bool
  /-- Objects created or adopted. -/
  applied : Nat := 0
  /-- Stale objects that are gone. -/
  pruned : Nat := 0
  /-- What is tracked afterwards. -/
  objects : List Tracked
  deriving Repr

namespace Bundle

def recordKey (ns name : String) : Key := manifestRecords.key ns name

/-- The record of a component. -/
def record? (ns name : String) : Session (Option ManifestRecord) := do
  match ← Session.find? (recordKey ns name) with
  | some o => return some (← manifestRecords.ofObject o)
  | none => return none

/-- Write a record; the answer has its new version. -/
def save (record : ManifestRecord) : Session ManifestRecord := do
  let stored ← Session.replace (manifestRecords.toObject record)
  manifestRecords.ofObject stored

/-- The labels of every object of a component. -/
def labels (name : String) : Table String String :=
  Table.ofList [(managedByLabel, managedBy), (manifestLabel, name)]

/-- The objects of a rendered manifest. -/
def prepare (rendered : ByteArray) (ns name : String) : Except Error (List Prepared) := do
  let source ← (Text.ofUtf8 rendered).mapError fun fault =>
    Error.invalidManifest s!"render is not UTF-8: {fault.text}"
  let docs ← (Manifest.parseDocuments source).mapError Error.content
  docs.mapM fun doc => Prepared.ofDocument doc ns (labels name)

/-- Create an object, or give one that is there the rendered content. -/
def createOrAdopt (p : Prepared) : Session Unit := do
  match ← (Session.createNew p.object).attempt with
  | .ok _ => return ()
  | .error e =>
    if e.isAlreadyExists then do
      let existing ← Session.require p.key
      let _ ← Session.replace (p.object.adopt existing)
    else throw e

/-- Write the rendered objects one by one, each tracked before the next is written. -/
def applyAll (record : ManifestRecord) : List Prepared → Session ManifestRecord
  | [] => return record
  | p :: rest => do
    createOrAdopt p
    if record.spec.tracksExactly p.tracked then applyAll record rest
    else applyAll (← save { record with spec := record.spec.track p.tracked }) rest

/-- Delete objects one by one, each forgotten before the next is deleted. -/
def prune (record : ManifestRecord) : List Tracked → Session ManifestRecord
  | [] => return record
  | t :: rest => do
    let _ ← Session.removeIfExists (Key.ofTracked t) .background
    prune (← save { record with spec := record.spec.untrack t }) rest

/-- The pending render has been applied. -/
def settle (record : ManifestRecord) : Session ManifestRecord :=
  if record.spec.isPending then save { record with spec := record.spec.promote } else return record

/-- Bring the objects in line with a render that its record has as pending. -/
def converge (record : ManifestRecord) (fingerprint : String) (rendered : List Prepared) :
    Session ApplyReport := do
  let record ← applyAll record rendered
  let stale := record.spec.stale (rendered.map Prepared.tracked)
  let record ← prune record stale
  let record ← settle record
  return { fingerprint, changed := true, applied := rendered.length, pruned := stale.length,
           objects := record.spec.objects }

/-- The record that a first apply creates. -/
def newRecord (ns name : String) (spec : ManifestSpec) (fingerprint : String)
    (owner : Option OwnerReference) : ManifestRecord :=
  { metadata := { name := some name, ns := some ns, ownerReferences := owner.map fun o => [o] }
    spec := .ofSpec spec fingerprint }

/-- Note a render as pending. -/
def begin (record : ManifestRecord) (spec : ManifestSpec) (fingerprint : String) :
    Session ManifestRecord :=
  let next := { record with spec := record.spec.beginChange fingerprint spec }
  if next.spec.same record.spec then return next else save next

/-- Render a component and bring its objects in line with the render. A render that was applied before and
is tracked in full writes nothing. -/
def apply (render : Renderer) (ns name : String) (spec : ManifestSpec) (owner : Option OwnerReference) :
    Session ApplyReport := do
  let bytes ← render spec.url spec.patches spec.images
  let fingerprint := Manifest.fingerprint bytes
  let rendered ← prepare bytes ns name
  match ← record? ns name with
  | none =>
    let created ← Session.createNew
      (manifestRecords.toObject (newRecord ns name spec fingerprint owner))
    converge (← manifestRecords.ofObject created) fingerprint rendered
  | some record =>
    if record.spec.isCurrent fingerprint (rendered.map Prepared.tracked) then
      return { fingerprint, changed := false, objects := record.spec.objects }
    else converge (← begin record spec fingerprint) fingerprint rendered

/-- Delete tracked objects in order; how many were there. -/
def removeTracked : List Tracked → Session Nat
  | [] => return 0
  | t :: rest => do
    let existed ← Session.removeIfExists (Key.ofTracked t) .background
    let more ← removeTracked rest
    return (if existed then 1 else 0) + more

/-- Delete everything that a component tracks, and last its record; how many objects were there. -/
def remove (ns name : String) : Session Nat := do
  match ← record? ns name with
  | none => return 0
  | some record =>
    let deleted ← removeTracked record.spec.objects
    let _ ← Session.removeIfExists (recordKey ns name) .background
    return deleted

/-- Namespace and name of a component that has both. -/
def identity (m : Metadata) : Except Error (String × String) :=
  match m.ns, m.name with
  | some ns, some name => .ok (ns, name)
  | _, _ => .error (.invalidObject "manifest component needs a name and namespace")

/-- Note on a component when it was tried again; the note counts as a change of its specification. -/
def stampRetry (now : Instant) (addon : ManifestAddon) : ManifestAddon :=
  let annotations := Table.insert retriedAtAnnotation now.textOffset
    (addon.metadata.annotations.getD [])
  { addon with metadata := { addon.metadata with annotations := some annotations } }

/-- Remove a component's objects, apply it anew, and note the time on the component. -/
def retry (now : Instant) (render : Renderer) (addon : ManifestAddon)
    (owner : Option OwnerReference) : Session ApplyReport := do
  let (ns, name) ← identity addon.metadata
  let _ ← remove ns name
  let report ← apply render ns name addon.spec owner
  let live ← manifestAddons.ofObject (← Session.require (manifestAddons.key ns name))
  let _ ← Session.replace (manifestAddons.toObject (stampRetry now live))
  return report

/-- Wait until the stored status of a component is available. -/
def await (ns name : String) (timeout : Span) : Session Status :=
  Await.poll timeout.millis Await.interval stored Session.pause
where
  /-- The status that the component has now. -/
  stored : Session (Option Status) := do
    match ← Session.find? (manifestAddons.key ns name) with
    | some o => return (← manifestAddons.ofObject o).status
    | none => return none

end Bundle

end Addons
