import Addons.Object.Prepare
import Addons.Resource.Schema
import Addons.Yaml.Printer

/-!
# Definitions of the resource kinds

What a cluster has to be told before it takes resources of these kinds.
-/

namespace Addons

/-- A column shown in listings. -/
structure Column where
  name : String
  type : String
  /-- Where in a resource its value stands. -/
  path : String
  deriving Repr, Inhabited

structure Definition where
  kind : String
  shortNames : List String := []
  columns : List Column
  spec : Schema
  /-- Absent for kinds whose resources have no status. -/
  status : Option Schema := none
  deriving Inhabited

namespace Definition

def plural (d : Definition) : String := (⟨apiVersion, d.kind⟩ : TypeRef).plural

def singular (d : Definition) : String := String.ofList (d.kind.toList.map Char.toLower)

def schema (d : Definition) : Schema :=
  .record ("Auto-generated derived type for " ++ d.kind ++ "Spec via `CustomResource`")
    ({ name := "spec", required := true, schema := d.spec } ::
      d.status.toList.map fun s => { name := "status", schema := .optional s })

def columnJson (c : Column) : Json :=
  Json.ofFields [("name", .str c.name), ("type", .str c.type), ("jsonPath", .str c.path)]

def versionJson (d : Definition) : Json :=
  let root := Table.insert "title" (.str d.kind) d.schema.fields
  let parts := if d.status.isSome then [("status", Json.obj [])] else []
  Json.ofFields [("name", .str "v1alpha1"), ("served", .bool true), ("storage", .bool true),
    ("additionalPrinterColumns", .arr (d.columns.map columnJson)),
    ("schema", Json.ofFields [("openAPIV3Schema", .obj root)]),
    ("subresources", .obj parts)]

/-- The object that defines the kind. -/
def toJson (d : Definition) : Json :=
  let names := Json.ofFields [("categories", .arr []), ("kind", .str d.kind),
    ("plural", .str d.plural), ("shortNames", .arr (d.shortNames.map Json.str)),
    ("singular", .str d.singular)]
  Json.ofFields [("apiVersion", .str "apiextensions.k8s.io/v1"),
    ("kind", .str "CustomResourceDefinition"),
    ("metadata", Json.ofFields [("name", .str (d.plural ++ "." ++ apiGroup))]),
    ("spec", Json.ofFields [("group", .str apiGroup), ("names", names),
      ("scope", .str Scope.namespaced.name), ("versions", .arr [d.versionJson])])]

def addonSet : Definition :=
  { kind := addonSets.kind
    shortNames := ["addons"]
    columns := [⟨"Components", "integer", ".status.components"⟩,
      ⟨"Status", "string", ".status.status.type"⟩]
    spec := SetSpec.schema
    status := some SetStatus.schema }

def helmAddon : Definition :=
  { kind := helmAddons.kind
    columns := [⟨"Chart", "string", ".spec.chart"⟩, ⟨"Version", "string", ".spec.version"⟩,
      ⟨"Status", "string", ".status.type"⟩]
    spec := HelmSpec.schema
    status := some Status.schema }

def manifestAddon : Definition :=
  { kind := manifestAddons.kind
    columns := [⟨"URL", "string", ".spec.url"⟩, ⟨"Status", "string", ".status.type"⟩]
    spec := ManifestSpec.schema
    status := some Status.schema }

def issuerAddon : Definition :=
  { kind := issuerAddons.kind
    columns := [⟨"Cluster", "boolean", ".spec.clusterScoped"⟩, ⟨"Status", "string", ".status.type"⟩]
    spec := IssuerSpec.schema
    status := some Status.schema }

def manifestRecord : Definition :=
  { kind := manifestRecords.kind
    columns := [⟨"Checksum", "string", ".spec.checksum"⟩, ⟨"Pending", "string", ".spec.newChecksum"⟩]
    spec := RecordSpec.schema }

/-- All kinds, in the order in which to install them. -/
def all : List Definition := [addonSet, helmAddon, manifestAddon, issuerAddon, manifestRecord]

/-- All definitions as one YAML stream. -/
def stream : String := String.join (all.map fun d => "---\n" ++ Yaml.print d.toJson)

end Definition

end Addons
