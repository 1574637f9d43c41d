import Addons.Resource.Component
import Addons.Store.Upsert

/-!
# Components for other controllers

A chart component becomes a chart repository and a release, both named after it and owned by it. An issuer component
becomes an issuer of its namespace or of the whole cluster; one of the cluster has no namespace and cannot be owned
by a component that has one. Other controllers work on these objects and report on them by conditions.
-/

namespace Addons

/-! ## Produced objects -/

namespace Object

/-- An object that holds a specification, marked as written here. -/
def produced (type : TypeRef) (name : String) (ns : Option String) (owner : Option OwnerReference)
    (spec : Json) : Object :=
  { type := some type
    metadata := {
      name := some name
      ns
      labels := some [(managedByLabel, managedBy)]
      ownerReferences := owner.map fun o => [o] }
    data := [("spec", spec)] }

/-- The first condition of a type among those in the status. -/
def condition? (o : Object) (type : String) : Option Json := do
  let status ← Table.find? o.data "status"
  let conditions ← (← status.get? "conditions").arr?
  conditions.find? fun c => c.getStr? "type" = some type

end Object

/-! ## Chart releases -/

/-- What a release says of itself. -/
inductive ReleaseOutcome where
  | success
  | progressing
  | failed (reason message : String)
  deriving DecidableEq, Repr

namespace ReleaseOutcome

/-- Reasons that mean that a release failed for good. -/
def failedReasons : List String :=
  ["InstallFailed", "UpgradeFailed", "RollbackFailed", "UninstallFailed"]

/-- What the condition on its installation says of a release. -/
def ofObject (release : Object) : ReleaseOutcome :=
  match release.condition? "Released" with
  | none => .progressing
  | some c =>
    let reason := (c.getStr? "reason").getD ""
    match c.getStr? "status" with
    | some "True" => .success
    | some "False" =>
      if failedReasons.contains reason then .failed reason ((c.getStr? "message").getD "")
      else .progressing
    | _ => .progressing

def health (now : Instant) : ReleaseOutcome → Status
  | .success => .available now "" "release succeeded"
  | .progressing => .progressing now "" "release in progress"
  | .failed reason message => .unhealthy now reason message

end ReleaseOutcome

namespace Release

def repositoryType : TypeRef := ⟨"source.toolkit.fluxcd.io/v1", "HelmRepository"⟩

def type : TypeRef := ⟨"helm.toolkit.fluxcd.io/v2", "HelmRelease"⟩

/-- How often a failed installation or upgrade is tried again. -/
def retries : Nat := 3

def intervalText (addon : HelmAddon) : String := s!"{addon.spec.interval.seconds}s"

/-- Namespace and name of both produced objects. -/
def identity (addon : HelmAddon) : Except Error (String × String) :=
  match addon.metadata.ns with
  | some ns => .ok (ns, addon.name)
  | none => .error (.invalidObject "helm component needs a namespace")

/-- An object of a component, owned by it. -/
def produce (addon : HelmAddon) (type : TypeRef) (spec : String → String → Json) :
    Except Error Object := do
  let (ns, name) ← identity addon
  match addon.ownerReference? helmAddons.type with
  | some owner => return .produced type name (some ns) (some owner) (spec ns name)
  | none => throw (.invalidObject s!"helm component {addon.name} has no uid")

/-- The repository that a chart comes from. -/
def repository (addon : HelmAddon) : Except Error Object :=
  produce addon repositoryType fun _ _ =>
    Json.ofFields? [("url", some (.str addon.spec.repository)),
      ("interval", some (.str (intervalText addon))),
      ("type", if "oci://".toList.isPrefixOf addon.spec.repository.toList then some (.str "oci")
        else none)]

/-- The chart that a release installs. -/
def chart (addon : HelmAddon) (ns name : String) : Json :=
  Json.ofFields? [("chart", some (.str addon.spec.chart)),
    ("sourceRef", some (Json.ofFields
      [("kind", .str repositoryType.kind), ("name", .str name), ("namespace", .str ns)])),
    ("interval", some (.str (intervalText addon))),
    ("version", if addon.spec.version.isEmpty then none else some (.str addon.spec.version))]

def remediation (more : List (String × Json)) : Json :=
  Json.ofFields (("retries", Json.ofNat retries) :: more)

/-- The release of a component's chart into a namespace. -/
def release (addon : HelmAddon) (targetNamespace : String) : Except Error Object :=
  produce addon type fun ns name =>
    Json.ofFields? [("interval", some (.str (intervalText addon))),
      ("targetNamespace", some (.str targetNamespace)),
      ("releaseName", some (.str name)),
      ("chart", some (Json.ofFields [("spec", chart addon ns name)])),
      ("install", some (Json.ofFields [("createNamespace", .bool true), ("disableWait", .bool true),
        ("remediation", remediation [])])),
      ("upgrade", some (Json.ofFields [("remediation",
        remediation [("remediateLastFailure", .bool true), ("strategy", .str "rollback")])])),
      ("driftDetection", some (Json.ofFields [("mode", .str "enabled")])),
      ("values", if addon.spec.values.isNull then none else some addon.spec.values)]

/-- The key of one of the produced objects. -/
def key (addon : HelmAddon) (type : TypeRef) : Except Error Key :=
  (identity addon).map fun (ns, name) => ⟨type, some ns, name⟩

/-- Write the repository, then the release. -/
def apply (addon : HelmAddon) (targetNamespace : String) : Session Unit := do
  let repo ← repository addon
  let rel ← release addon targetNamespace
  let _ ← Session.createOrUpdate repo
  let _ ← Session.createOrUpdate rel

/-- Delete the release and then its repository; they need not exist. -/
def remove (addon : HelmAddon) : Session Unit := do
  let releaseKey ← key addon type
  let repositoryKey ← key addon repositoryType
  let _ ← Session.removeIfExists releaseKey .background
  let _ ← Session.removeIfExists repositoryKey .background

/-- The outcome of a release as stored; one that is missing is still to come. -/
def outcome (addon : HelmAddon) : Session ReleaseOutcome := do
  match ← Session.find? (← key addon type) with
  | some o => return .ofObject o
  | none => return .progressing

end Release

/-! ## Certificate issuers -/

namespace Issuer

def type (addon : IssuerAddon) : TypeRef :=
  ⟨"cert-manager.io/v1", if addon.spec.clusterScoped then "ClusterIssuer" else "Issuer"⟩

/-- The namespace of the issuer; none for one of the cluster. -/
def scopeNs (addon : IssuerAddon) : Except Error (Option String) :=
  if addon.spec.clusterScoped then .ok none
  else
    match addon.metadata.ns with
    | some ns => .ok (some ns)
    | none => .error (.invalidObject "issuer component needs a namespace")

/-- The issuer that a component declares. -/
def object (addon : IssuerAddon) : Except Error Object := do
  if !addon.spec.issuer.isObj then
    throw (.invalidObject s!"issuer component {addon.name} needs an issuer object")
  let ns ← scopeNs addon
  let owner := if addon.spec.clusterScoped then none else addon.ownerReference? issuerAddons.type
  return .produced (type addon) addon.name ns owner addon.spec.issuer

def key (addon : IssuerAddon) : Except Error Key :=
  (scopeNs addon).map fun ns => ⟨type addon, ns, addon.name⟩

/-- What the condition on its readiness says of an issuer. -/
def health (now : Instant) (issuer : Object) : Status :=
  match issuer.condition? "Ready" with
  | none => .progressing now "" "issuer has not reported readiness"
  | some c =>
    let reason := (c.getStr? "reason").getD ""
    let message := (c.getStr? "message").getD ""
    match c.getStr? "status" with
    | some "True" => .ready now reason message
    | some "False" => .degraded now reason message
    | _ => .progressing now reason message

def apply (addon : IssuerAddon) : Session ApplyOutcome := do
  Session.createOrUpdate (← object addon)

/-- Delete the issuer; whether it existed. -/
def remove (addon : IssuerAddon) : Session Bool := do
  Session.removeIfExists (← key addon) .background

/-- The health of the issuer as stored; one that is missing is still to come. -/
def status (now : Instant) (addon : IssuerAddon) : Session Status := do
  match ← Session.find? (← key addon) with
  | some o => return health now o
  | none => return .progressing now "" "issuer not created yet"

end Issuer

end Addons
