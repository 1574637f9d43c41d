import Addons.Codec
import Addons.Text

/-!
# Object metadata

The standard metadata of a Kubernetes object. Other fields are dropped when it is read, and times are
written in whole seconds. A selector asks for labels with given values, written `k=v,k2=v2`.
-/

namespace Addons

structure OwnerReference where
  apiVersion : String := ""
  blockOwnerDeletion : Option Bool := none
  controller : Option Bool := none
  kind : String := ""
  name : String := ""
  uid : String := ""
  deriving DecidableEq, Repr, Inhabited

/-- Who changed which fields when. -/
structure ManagedFields where
  apiVersion : Option String := none
  fieldsType : Option String := none
  fields : Option Json := none
  manager : Option String := none
  operation : Option String := none
  subresource : Option String := none
  time : Option Instant := none
  deriving Repr, Inhabited

structure Metadata where
  annotations : Option (Table String String) := none
  creationTimestamp : Option Instant := none
  deletionGracePeriodSeconds : Option Int := none
  deletionTimestamp : Option Instant := none
  finalizers : Option (List String) := none
  generateName : Option String := none
  generation : Option Int := none
  labels : Option (Table String String) := none
  managedFields : Option (List ManagedFields) := none
  name : Option String := none
  ns : Option String := none
  ownerReferences : Option (List OwnerReference) := none
  resourceVersion : Option String := none
  selfLink : Option String := none
  uid : Option String := none
  deriving Repr, Inhabited

/-- The fields of an object, which is not given in order. -/
def Record.named? : Json → Option Record
  | .obj fields => some ⟨fields, false⟩
  | _ => none

def Json.ofInstant (t : Instant) : Json := .str t.textSeconds

namespace OwnerReference

def ofJson? (j : Json) : Option OwnerReference := do
  let r ← Record.named? j
  return {
    apiVersion := (← r.optional? "apiVersion" Json.str?).getD ""
    blockOwnerDeletion := ← r.optional? "blockOwnerDeletion" Json.bool?
    controller := ← r.optional? "controller" Json.bool?
    kind := (← r.optional? "kind" Json.str?).getD ""
    name := (← r.optional? "name" Json.str?).getD ""
    uid := (← r.optional? "uid" Json.str?).getD "" }

def toJson (o : OwnerReference) : Json :=
  Json.ofFields? [("apiVersion", some (.str o.apiVersion)),
    ("blockOwnerDeletion", o.blockOwnerDeletion.map Json.bool),
    ("controller", o.controller.map Json.bool), ("kind", some (.str o.kind)),
    ("name", some (.str o.name)), ("uid", some (.str o.uid))]

end OwnerReference

namespace ManagedFields

def ofJson? (j : Json) : Option ManagedFields := do
  let r ← Record.named? j
  return {
    apiVersion := ← r.optional? "apiVersion" Json.str?
    fieldsType := ← r.optional? "fieldsType" Json.str?
    fields := ← r.optional? "fieldsV1" some
    manager := ← r.optional? "manager" Json.str?
    operation := ← r.optional? "operation" Json.str?
    subresource := ← r.optional? "subresource" Json.str?
    time := ← r.optional? "time" Json.instant? }

def toJson (m : ManagedFields) : Json :=
  Json.ofFields? [("apiVersion", m.apiVersion.map Json.str), ("fieldsType", m.fieldsType.map Json.str),
    ("fieldsV1", m.fields), ("manager", m.manager.map Json.str), ("operation", m.operation.map Json.str),
    ("subresource", m.subresource.map Json.str), ("time", m.time.map Json.ofInstant)]

end ManagedFields

namespace Metadata

def ofJson? (j : Json) : Option Metadata := do
  let r ← Record.named? j
  return {
    annotations := ← r.optional? "annotations" Json.strings?
    creationTimestamp := ← r.optional? "creationTimestamp" Json.instant?
    deletionGracePeriodSeconds := ← r.optional? "deletionGracePeriodSeconds" Json.int64?
    deletionTimestamp := ← r.optional? "deletionTimestamp" Json.instant?
    finalizers := ← r.optional? "finalizers" (Json.array? Json.str?)
    generateName := ← r.optional? "generateName" Json.str?
    generation := ← r.optional? "generation" Json.int64?
    labels := ← r.optional? "labels" Json.strings?
    managedFields := ← r.optional? "managedFields" (Json.array? ManagedFields.ofJson?)
    name := ← r.optional? "name" Json.str?
    ns := ← r.optional? "namespace" Json.str?
    ownerReferences := ← r.optional? "ownerReferences" (Json.array? OwnerReference.ofJson?)
    resourceVersion := ← r.optional? "resourceVersion" Json.str?
    selfLink := ← r.optional? "selfLink" Json.str?
    uid := ← r.optional? "uid" Json.str? }

def toJson (m : Metadata) : Json :=
  Json.ofFields? [("annotations", m.annotations.map Json.ofStrings),
    ("creationTimestamp", m.creationTimestamp.map Json.ofInstant),
    ("deletionGracePeriodSeconds", m.deletionGracePeriodSeconds.map Json.ofInt),
    ("deletionTimestamp", m.deletionTimestamp.map Json.ofInstant),
    ("finalizers", m.finalizers.map fun l => .arr (l.map Json.str)),
    ("generateName", m.generateName.map Json.str), ("generation", m.generation.map Json.ofInt),
    ("labels", m.labels.map Json.ofStrings),
    ("managedFields", m.managedFields.map fun l => .arr (l.map ManagedFields.toJson)),
    ("name", m.name.map Json.str), ("namespace", m.ns.map Json.str),
    ("ownerReferences", m.ownerReferences.map fun l => .arr (l.map OwnerReference.toJson)),
    ("resourceVersion", m.resourceVersion.map Json.str), ("selfLink", m.selfLink.map Json.str),
    ("uid", m.uid.map Json.str)]

/-- The metadata as it is after writing and reading: times in whole seconds. -/
def truncateTimes (m : Metadata) : Metadata :=
  { m with
    creationTimestamp := m.creationTimestamp.map Instant.truncate
    deletionTimestamp := m.deletionTimestamp.map Instant.truncate
    managedFields := m.managedFields.map fun l =>
      l.map fun e => { e with time := e.time.map Instant.truncate } }

def label? (m : Metadata) (k : String) : Option String := m.labels.bind fun t => t.find? k

end Metadata

namespace Selector

/-- The selector of a label map. -/
def ofLabels (labels : Table String String) : String :=
  ",".intercalate (labels.map fun e => e.1 ++ "=" ++ e.2)

/-- The terms of a selector; one without `=` is left out, and blanks around names and values do not
count. -/
def terms (selector : String) : List (String × String) :=
  (Text.splitAll ',' selector.toList).filterMap fun term =>
    (Text.splitFirst? '=' term).map fun p =>
      (Text.trim (String.ofList p.1), Text.trim (String.ofList p.2))

/-- Whether an object carries every label that a selector asks for. -/
def selects (selector : String) (m : Metadata) : Bool :=
  (terms selector).all fun t => m.label? t.1 = some t.2

end Selector

end Addons
