import Addons.Manifest.Image
import Addons.Manifest.Patch
import Addons.Resource.Basic
import Addons.Status

/-!
# Component resources

The three kinds of components: charts, manifest bundles and certificate issuers.
-/

namespace Addons

/-- What to do when a manifest component stays unhealthy. -/
inductive FailurePolicy where
  /-- Remove and apply it again once its timeout has passed. -/
  | retry
  | ignore
  deriving DecidableEq, Repr, Inhabited

namespace FailurePolicy

def name : FailurePolicy → String
  | .retry => "Retry"
  | .ignore => "Ignore"

def ofName? (s : String) : Option FailurePolicy := [retry, ignore].find? fun p => p.name = s

end FailurePolicy

/-- A list that is left out when it is empty. -/
def Json.ofItems? {α : Type} (write : α → Json) (l : List α) : Option Json :=
  if l.isEmpty then none else some (.arr (l.map write))

/-- A chart-based release. -/
structure HelmSpec where
  chart : String
  /-- An `https://` or `oci://` address. -/
  repository : String
  /-- The latest when empty. -/
  version : String
  values : Json
  targetNamespace : Option String
  /-- How often the repository is polled. -/
  interval : Span
  deriving Repr, Inhabited

namespace HelmSpec

def fieldNames : List String :=
  ["chart", "repository", "version", "values", "targetNamespace", "interval"]

def defaultInterval : Span := .ofSeconds 600

def ofJson? (j : Json) : Option HelmSpec := do
  let r ← Record.read? fieldNames j
  return {
    chart := ← r.required? "chart" Json.str?
    repository := ← r.required? "repository" Json.str?
    version := ← r.default? "version" Json.str? ""
    values := ← r.default? "values" some .null
    targetNamespace := ← r.optional? "targetNamespace" Json.str?
    interval := ← r.default? "interval" Json.span? defaultInterval }

def toJson (s : HelmSpec) : Json :=
  Json.ofFields? [("chart", some (.str s.chart)), ("repository", some (.str s.repository)),
    ("version", if s.version.isEmpty then none else some (.str s.version)),
    ("values", if s.values.isNull then none else some s.values),
    ("targetNamespace", s.targetNamespace.map Json.str), ("interval", some (.str s.interval.text))]

end HelmSpec

/-- A bundle of manifests fetched from an address. -/
structure ManifestSpec where
  url : String
  patches : List Patch := []
  images : List ImageSubstitution := []
  failurePolicy : FailurePolicy := .ignore
  /-- How long an unhealthy component is left alone before a retry. -/
  timeout : Option Span := none
  deriving Repr, Inhabited

namespace ManifestSpec

def fieldNames : List String := ["url", "patches", "images", "failurePolicy", "timeout"]

def ofJson? (j : Json) : Option ManifestSpec := do
  let r ← Record.read? fieldNames j
  return {
    url := ← r.required? "url" Json.str?
    patches := ← r.default? "patches" (Json.array? Patch.ofJson?) []
    images := ← r.default? "images" (Json.array? ImageSubstitution.ofJson?) []
    failurePolicy := ← r.default? "failurePolicy" (Json.variant? FailurePolicy.ofName?) .ignore
    timeout := ← r.optional? "timeout" Json.span? }

def toJson (s : ManifestSpec) : Json :=
  Json.ofFields? [("url", some (.str s.url)), ("patches", Json.ofItems? Patch.toJson s.patches),
    ("images", Json.ofItems? ImageSubstitution.toJson s.images),
    ("failurePolicy", some (.str s.failurePolicy.name)),
    ("timeout", s.timeout.map fun t => .str t.text)]

end ManifestSpec

/-- A certificate issuer, of one namespace or of the cluster. -/
structure IssuerSpec where
  clusterScoped : Bool
  issuer : Json
  deriving Repr, Inhabited

namespace IssuerSpec

def fieldNames : List String := ["clusterScoped", "issuer"]

def ofJson? (j : Json) : Option IssuerSpec := do
  let r ← Record.read? fieldNames j
  return ⟨← r.default? "clusterScoped" Json.bool? false, ← r.required? "issuer" some⟩

def toJson (s : IssuerSpec) : Json :=
  Json.ofFields [("clusterScoped", .bool s.clusterScoped), ("issuer", s.issuer)]

end IssuerSpec

abbrev HelmAddon := Resource HelmSpec Status

abbrev ManifestAddon := Resource ManifestSpec Status

abbrev IssuerAddon := Resource IssuerSpec Status

def helmAddons : ResourceKind HelmSpec Status :=
  ⟨"HelmAddon", HelmSpec.ofJson?, HelmSpec.toJson, Status.ofJson?, Status.toJson⟩

def manifestAddons : ResourceKind ManifestSpec Status :=
  ⟨"ManifestAddon", ManifestSpec.ofJson?, ManifestSpec.toJson, Status.ofJson?, Status.toJson⟩

def issuerAddons : ResourceKind IssuerSpec Status :=
  ⟨"IssuerAddon", IssuerSpec.ofJson?, IssuerSpec.toJson, Status.ofJson?, Status.toJson⟩

end Addons
