import Addons.Codec
import Addons.Text

/-!
# Tracked objects

The identity of an object that a manifest produced, enough to find it again.
-/

namespace Addons

/-- Group and version of an API version; the core group is empty. -/
def splitApiVersion (apiVersion : String) : String × String :=
  match Text.splitLast? '/' apiVersion.toList with
  | some (group, version) => (String.ofList group, String.ofList version)
  | none => ("", apiVersion)

structure Tracked where
  apiVersion : String
  kind : String
  name : String
  /-- Absent for cluster-scoped objects. -/
  ns : Option String
  group : String
  deriving DecidableEq, Repr, Inhabited

namespace Tracked

/-- An identity whose group is that of its API version. -/
def new (apiVersion kind name : String) (ns : Option String) : Tracked :=
  ⟨apiVersion, kind, name, ns, (splitApiVersion apiVersion).1⟩

/-- The same object, whatever API version it was rendered with. -/
def sameIdentity (a b : Tracked) : Bool :=
  a.group = b.group && a.kind = b.kind && a.name = b.name && a.ns = b.ns

def display (t : Tracked) : String :=
  match t.ns with
  | some ns => s!"{ns}/{t.kind}/{t.name}"
  | none => s!"{t.kind}/{t.name}"

def fieldNames : List String := ["apiVersion", "kind", "name", "namespace", "group"]

def ofJson? (j : Json) : Option Tracked := do
  let r ← Record.read? fieldNames j
  return ⟨← r.required? "apiVersion" Json.str?, ← r.required? "kind" Json.str?,
    ← r.required? "name" Json.str?, ← r.optional? "namespace" Json.str?,
    ← r.default? "group" Json.str? ""⟩

def toJson (t : Tracked) : Json :=
  Json.ofFields? [("apiVersion", some (.str t.apiVersion)), ("kind", some (.str t.kind)),
    ("name", some (.str t.name)), ("namespace", t.ns.map Json.str), ("group", some (.str t.group))]

end Tracked

end Addons
