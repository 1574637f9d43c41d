import Addons.Resource.Component

/-!
# Composite resources

A composite lists the components that a cluster should carry, kind by kind.
-/

namespace Addons

/-- One declared component with its payload. -/
structure Entry (π : Type) where
  name : String
  /-- The namespace of the composite when empty. -/
  ns : String := ""
  /-- The component produces objects of the cluster. -/
  clusterScoped : Bool := false
  spec : π
  deriving Repr, Inhabited

namespace Entry

variable {π : Type}

def fieldNames : List String := ["name", "namespace", "clusterScoped", "spec"]

def ofJson? (read : Json → Option π) (j : Json) : Option (Entry π) := do
  let r ← Record.read? fieldNames j
  return {
    name := ← r.required? "name" Json.str?
    ns := ← r.default? "namespace" Json.str? ""
    clusterScoped := ← r.default? "clusterScoped" Json.bool? false
    spec := ← r.required? "spec" read }

def toJson (write : π → Json) (e : Entry π) : Json :=
  Json.ofFields [("name", .str e.name), ("namespace", .str e.ns),
    ("clusterScoped", .bool e.clusterScoped), ("spec", write e.spec)]

end Entry

/-- The payload of an issuer entry. -/
structure IssuerConfig where
  issuer : Json
  deriving Repr, Inhabited

namespace IssuerConfig

def ofJson? (j : Json) : Option IssuerConfig := do
  let r ← Record.read? ["issuer"] j
  return ⟨← r.required? "issuer" some⟩

def toJson (c : IssuerConfig) : Json := Json.ofFields [("issuer", c.issuer)]

end IssuerConfig

structure SetSpec where
  helm : List (Entry HelmSpec) := []
  manifests : List (Entry ManifestSpec) := []
  issuers : List (Entry IssuerConfig) := []
  deriving Repr, Inhabited

namespace SetSpec

/-- The number of declared components. -/
def count (s : SetSpec) : Nat := s.helm.length + s.manifests.length + s.issuers.length

def fieldNames : List String := ["helm", "manifests", "issuers"]

def ofJson? (j : Json) : Option SetSpec := do
  let r ← Record.read? fieldNames j
  return {
    helm := ← r.default? "helm" (Json.array? (Entry.ofJson? HelmSpec.ofJson?)) []
    manifests := ← r.default? "manifests" (Json.array? (Entry.ofJson? ManifestSpec.ofJson?)) []
    issuers := ← r.default? "issuers" (Json.array? (Entry.ofJson? IssuerConfig.ofJson?)) [] }

def toJson (s : SetSpec) : Json :=
  Json.ofFields [("helm", .arr (s.helm.map (Entry.toJson HelmSpec.toJson))),
    ("manifests", .arr (s.manifests.map (Entry.toJson ManifestSpec.toJson))),
    ("issuers", .arr (s.issuers.map (Entry.toJson IssuerConfig.toJson)))]

end SetSpec

structure SetStatus where
  /-- The generation that was reconciled last. -/
  observedGeneration : Option Int := none
  /-- The number of components made. -/
  components : Nat := 0
  status : Option Status := none
  deriving DecidableEq, Repr, Inhabited

namespace SetStatus

def fieldNames : List String := ["observedGeneration", "components", "status"]

def ofJson? (j : Json) : Option SetStatus := do
  let r ← Record.read? fieldNames j
  return {
    observedGeneration := ← r.optional? "observedGeneration" Json.int64?
    components := ← r.default? "components" Json.word64? 0
    status := ← r.optional? "status" Status.ofJson? }

def toJson (s : SetStatus) : Json :=
  Json.ofFields? [("observedGeneration", s.observedGeneration.map Json.ofInt),
    ("components", some (Json.ofNat s.components)), ("status", s.status.map Status.toJson)]

end SetStatus

abbrev AddonSet := Resource SetSpec SetStatus

def addonSets : ResourceKind SetSpec SetStatus :=
  ⟨"AddonSet", SetSpec.ofJson?, SetSpec.toJson, SetStatus.ofJson?, SetStatus.toJson⟩

end Addons
