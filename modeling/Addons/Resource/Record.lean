import Addons.Manifest.Tracked
import Addons.Resource.Component

/-!
# Manifest records

The stored state of a manifest component: what was applied last, what is being applied, and the objects
that came of it, as an ordered set by identity.
-/

namespace Addons

structure RecordSpec where
  url : String
  /-- Fingerprint of the last render that was fully applied. -/
  checksum : String := ""
  /-- Fingerprint of a render whose application has begun; empty if none has. -/
  newChecksum : String := ""
  /-- In the order they were created. -/
  objects : List Tracked := []
  patches : List Patch := []
  images : List ImageSubstitution := []
  failurePolicy : FailurePolicy := .ignore
  timeout : Option Span := none
  deriving Repr, Inhabited

namespace RecordSpec

def fieldNames : List String :=
  ["url", "checksum", "newChecksum", "objects", "patches", "images", "failurePolicy", "timeout"]

def ofJson? (j : Json) : Option RecordSpec := do
  let r ← Record.read? fieldNames j
  return {
    url := ← r.required? "url" Json.str?
    checksum := ← r.default? "checksum" Json.str? ""
    newChecksum := ← r.default? "newChecksum" Json.str? ""
    objects := ← r.default? "objects" (Json.array? Tracked.ofJson?) []
    patches := ← r.default? "patches" (Json.array? Patch.ofJson?) []
    images := ← r.default? "images" (Json.array? ImageSubstitution.ofJson?) []
    failurePolicy := ← r.default? "failurePolicy" (Json.variant? FailurePolicy.ofName?) .ignore
    timeout := ← r.optional? "timeout" Json.span? }

def toJson (s : RecordSpec) : Json :=
  Json.ofFields? [("url", some (.str s.url)), ("checksum", some (.str s.checksum)),
    ("newChecksum", some (.str s.newChecksum)),
    ("objects", some (.arr (s.objects.map Tracked.toJson))),
    ("patches", Json.ofItems? Patch.toJson s.patches),
    ("images", Json.ofItems? ImageSubstitution.toJson s.images),
    ("failurePolicy", some (.str s.failurePolicy.name)),
    ("timeout", s.timeout.map fun t => .str t.text)]

/-- The record of a first apply. -/
def ofSpec (spec : ManifestSpec) (fingerprint : String) : RecordSpec :=
  { url := spec.url, checksum := fingerprint, patches := spec.patches, images := spec.images,
    failurePolicy := spec.failurePolicy, timeout := spec.timeout }

def isTracked (r : RecordSpec) (t : Tracked) : Bool := r.objects.any fun o => o.sameIdentity t

/-- The render was applied, and all that it produces is tracked. -/
def isCurrent (r : RecordSpec) (fingerprint : String) (rendered : List Tracked) : Bool :=
  r.checksum = fingerprint && r.newChecksum.isEmpty && rendered.all r.isTracked

/-- Mark a render as pending, unless it is the one applied last. -/
def beginChange (r : RecordSpec) (fingerprint : String) (spec : ManifestSpec) : RecordSpec :=
  { r with
    newChecksum := if r.checksum ≠ fingerprint then fingerprint else r.newChecksum
    url := spec.url, patches := spec.patches, images := spec.images,
    failurePolicy := spec.failurePolicy, timeout := spec.timeout }

/-- The same record, patches compared by what they do. -/
def same (r s : RecordSpec) : Bool :=
  r.url = s.url && r.checksum = s.checksum && r.newChecksum = s.newChecksum && r.objects = s.objects
    && Patch.sameAll r.patches s.patches && r.images = s.images
    && r.failurePolicy = s.failurePolicy && r.timeout = s.timeout

/-- A list with the entry of an object's identity replaced, or with the object at its end. -/
def put (t : Tracked) : List Tracked → List Tracked
  | [] => [t]
  | o :: rest => if o.sameIdentity t then t :: rest else o :: put t rest

/-- Track an object. -/
def track (r : RecordSpec) (t : Tracked) : RecordSpec := { r with objects := put t r.objects }

/-- Whether an object is tracked as it is, so that tracking it changes nothing. -/
def tracksExactly (r : RecordSpec) (t : Tracked) : Bool :=
  r.objects.find? (fun o => o.sameIdentity t) = some t

def untrack (r : RecordSpec) (t : Tracked) : RecordSpec :=
  { r with objects := r.objects.filter fun o => !o.sameIdentity t }

/-- Tracked objects that a render does not produce. -/
def stale (r : RecordSpec) (rendered : List Tracked) : List Tracked :=
  r.objects.filter fun o => !rendered.any fun t => t.sameIdentity o

/-- Whether a render is pending. -/
def isPending (r : RecordSpec) : Bool := !r.newChecksum.isEmpty

/-- The pending render has been applied. -/
def promote (r : RecordSpec) : RecordSpec :=
  if r.isPending then { r with checksum := r.newChecksum, newChecksum := "" } else r

end RecordSpec

abbrev ManifestRecord := Resource RecordSpec Empty

def manifestRecords : ResourceKind RecordSpec Empty :=
  ⟨"ManifestRecord", RecordSpec.ofJson?, RecordSpec.toJson, fun _ => none, fun e => nomatch e⟩

end Addons
