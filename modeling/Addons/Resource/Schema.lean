import Addons.Resource.Composite
import Addons.Resource.Record
import Addons.Schema.Basic

/-!
# Schemas of the resources

The fields of each resource as its users see them.
-/

namespace Addons

def Property.text (name about : String) : Property Schema :=
  { name, about, required := true, schema := .text }

/-- A text that is empty when left out. -/
def Property.textOrEmpty (name about : String) : Property Schema :=
  { name, about, default := some (.str ""), schema := .text }

def Property.textOrNull (name about : String) : Property Schema :=
  { name, about, schema := .optional .text }

/-- A list that is empty when left out. -/
def Property.items (name about : String) (items : Schema) : Property Schema :=
  { name, about, default := some (.arr []), schema := .list items }

def Status.schema : Schema :=
  .record "Status block written onto every component resource" [
    { name := "type", about := "Current health", required := true,
      schema := .choice ""
        ([.available, .progressing, .degraded, .ready, .unhealthy].map StatusType.name) },
    { name := "lastTransitionTime", about := "When `type` last changed", required := true,
      schema := .time },
    .textOrEmpty "reason"
      ("Machine-readable reason (required for Unhealthy/Degraded)\n\n" ++
        "Always serialized so that a merge patch clears a previous reason."),
    .textOrEmpty "message" "Human-readable detail"]

def Tracked.schema : Schema :=
  .record "Identity of one concrete object produced by rendering a manifest" [
    .text "apiVersion" "Full API version (e.g. \"apps/v1\", \"v1\")",
    .text "kind" "Object kind",
    .text "name" "Object name",
    .textOrNull "namespace" "Namespace (None for cluster-scoped objects)",
    .textOrEmpty "group" "API group (\"\" for the core group)"]

def PatchTarget.schema : Schema :=
  .record "" [
    .text "kind" "Kind to match (e.g. \"Deployment\")",
    .textOrNull "name" "Name to match (all names when unset)",
    .textOrNull "namespace" "Namespace to match (all namespaces when unset)"]

def Patch.schema : Schema :=
  .record "A JSON merge patch applied to matching documents" [
    { name := "target", about := "Documents to patch", required := true,
      schema := PatchTarget.schema },
    { name := "patch", about := "Merge patch body (`null` removes a key)", required := true,
      schema := .free }]

def ImageSubstitution.schema : Schema :=
  .record "Rewrites container images, kustomize style" [
    .text "name" "Image name to match, without tag or digest (e.g. \"ghcr.io/acme/app\")",
    .textOrNull "newName" "Replacement image name",
    .textOrNull "newTag" "Replacement tag",
    .textOrNull "digest" "Replacement digest (wins over `newTag`)"]

def FailurePolicy.schema : Schema :=
  .choice "What to do when a manifest component stays unhealthy"
    ([.retry, .ignore].map FailurePolicy.name)

def HelmSpec.schema : Schema :=
  .record "A chart-based release" [
    .text "chart" "Chart name in the repository",
    .text "repository" "Repository URL (`https://` or `oci://`)",
    { name := "version", about := "Chart version (latest when empty)", schema := .text },
    { name := "values", about := "Inline value overrides", schema := .free },
    .textOrNull "targetNamespace"
      "Namespace the chart installs into (defaults to the component namespace)",
    { name := "interval", about := "Repository polling interval",
      default := some (.str HelmSpec.defaultInterval.text), schema := .text }]

def ManifestSpec.schema : Schema :=
  .record "A raw manifest bundle fetched from a URL" [
    .text "url" "Manifest source (`https://`, `http://` or `file://`)",
    { name := "patches", about := "Merge patches applied to the fetched documents",
      schema := .list Patch.schema },
    { name := "images", about := "Image rewrites applied after patching",
      schema := .list ImageSubstitution.schema },
    { name := "failurePolicy", about := "What to do when the component stays unhealthy",
      default := some (.str FailurePolicy.ignore.name), schema := FailurePolicy.schema },
    .textOrNull "timeout" "How long an unhealthy component is left alone before a retry"]

def IssuerConfig.schema : Schema :=
  .record "" [
    { name := "issuer", about := "cert-manager issuer spec (`acme`, `ca`, `selfSigned`, ...)",
      required := true, schema := .free }]

def IssuerSpec.schema : Schema :=
  .record "A cert-manager Issuer or ClusterIssuer" [
    { name := "clusterScoped", about := "Produce a ClusterIssuer instead of an Issuer",
      default := some (.bool false), schema := .bool },
    { name := "issuer", required := true, schema := .free }]

def Entry.schema (spec : Schema) : Schema :=
  .record "Desired state of one managed unit" [
    .text "name" "Component name, unique per kind",
    .textOrEmpty "namespace" "Target namespace (defaults to the composite's namespace)",
    { name := "clusterScoped", about := "Whether the component produces cluster-scoped objects",
      default := some (.bool false), schema := .bool },
    { name := "spec", about := "Kind-specific payload", required := true, schema := spec }]

def SetSpec.schema : Schema :=
  .record "Top-level declaration of the components a cluster should carry" [
    .items "helm" "Chart-based releases" (Entry.schema HelmSpec.schema),
    .items "manifests" "Raw manifest bundles" (Entry.schema ManifestSpec.schema),
    .items "issuers" "Certificate issuers" (Entry.schema IssuerConfig.schema)]

def SetStatus.schema : Schema :=
  .record "" [
    { name := "observedGeneration", about := "Generation last reconciled",
      schema := .optional .int },
    { name := "components", about := "Number of components materialized",
      default := some (Json.ofNat 0), schema := .count },
    { name := "status", about := "Reconcile outcome", schema := .optional Status.schema }]

def RecordSpec.schema : Schema :=
  .record
    ("Tracking record for a manifest component\n\n" ++
      "`checksum` is the fingerprint of the last render that was fully applied. " ++
      "A non-empty `newChecksum` marks a render whose application has started but not finished.") [
    .text "url" "",
    .textOrEmpty "checksum" "",
    .textOrEmpty "newChecksum" "",
    .items "objects" "Objects created from the render, in creation order" Tracked.schema,
    { name := "patches", schema := .list Patch.schema },
    { name := "images", schema := .list ImageSubstitution.schema },
    { name := "failurePolicy", default := some (.str FailurePolicy.ignore.name),
      schema := FailurePolicy.schema },
    .textOrNull "timeout" ""]

end Addons
