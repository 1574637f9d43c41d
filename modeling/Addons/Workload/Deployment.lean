import Addons.Workload.Pod

/-!
# Deployments and daemon sets

What is read of the two kinds of workloads.
-/

namespace Addons

/-- A condition of a deployment. -/
structure Condition where
  type : String
  status : String
  reason : Option String
  message : Option String
  deriving DecidableEq, Repr, Inhabited

structure DeploymentStatus where
  replicas : Option Int
  availableReplicas : Option Int
  conditions : List Condition
  deriving DecidableEq, Repr, Inhabited

structure Deployment where
  /-- The replicas asked for. -/
  replicas : Option Int
  status : Option DeploymentStatus
  deriving DecidableEq, Repr, Inhabited

structure DaemonSetStatus where
  desired : Int
  ready : Int
  misscheduled : Int
  available : Option Int
  unavailable : Option Int
  deriving DecidableEq, Repr, Inhabited

structure DaemonSet where
  name : Option String
  status : Option DaemonSetStatus
  deriving DecidableEq, Repr, Inhabited

/-- Whether a value is an object of the kind in `apps/v1` and fits its shape. A type that is given has to
be the right one. -/
def isAppsObject (kind : String) (shape : Shape) (j : Json) : Bool :=
  let given (field expected : String) : Bool :=
    match j.get? field with
    | none => true
    | some v => v.str? = some expected
  j.isObj && given "apiVersion" "apps/v1" && given "kind" kind && shape.fits j

/-- How pods are replaced after a change. -/
def Shape.updateStrategy : Shape :=
  .object [("type", .text),
    ("rollingUpdate", .object [("maxSurge", .intOrText), ("maxUnavailable", .intOrText)])]

/-- The fields of every condition. -/
def Shape.conditionFields : List (String × Shape) :=
  ("lastTransitionTime", .time) :: textFields ["message", "reason", "status", "type"]

/-- A field of an object, null and absent alike. -/
def Json.present? (j : Json) (k : String) : Option Json :=
  (j.get? k).filter fun v => !v.isNull

def Condition.ofJson (j : Json) : Condition :=
  ⟨(j.getStr? "type").getD "", (j.getStr? "status").getD "", j.getStr? "reason", j.getStr? "message"⟩

namespace Deployment

def shape : Shape :=
  .object [("metadata", .metadata),
    ("spec", .object [("minReadySeconds", .int32), ("paused", .bool),
      ("progressDeadlineSeconds", .int32), ("replicas", .int32), ("revisionHistoryLimit", .int32),
      ("selector", .selector), ("strategy", .updateStrategy), ("template", .podTemplate)]),
    ("status", .object [("availableReplicas", .int32), ("collisionCount", .int32),
      ("conditions", .list (.object (("lastUpdateTime", .time) :: Shape.conditionFields))),
      ("observedGeneration", .int64), ("readyReplicas", .int32), ("replicas", .int32),
      ("unavailableReplicas", .int32), ("updatedReplicas", .int32)])]

def ofJson? (j : Json) : Option Deployment :=
  if isAppsObject "Deployment" shape j then
    some {
      replicas := ((j.present? "spec").bind fun s => s.present? "replicas").bind Json.int?
      status := (j.present? "status").map fun s => {
        replicas := (s.present? "replicas").bind Json.int?
        availableReplicas := (s.present? "availableReplicas").bind Json.int?
        conditions := (((s.present? "conditions").bind Json.arr?).getD []).map Condition.ofJson } }
  else none

end Deployment

namespace DaemonSet

def shape : Shape :=
  .object [("metadata", .metadata),
    ("spec", .object [("minReadySeconds", .int32), ("revisionHistoryLimit", .int32),
      ("selector", .selector), ("template", .podTemplate), ("updateStrategy", .updateStrategy)]),
    ("status", .object [("collisionCount", .int32), ("conditions", .list (.object Shape.conditionFields)),
      ("currentNumberScheduled", .int32), ("desiredNumberScheduled", .int32),
      ("numberAvailable", .int32), ("numberMisscheduled", .int32), ("numberReady", .int32),
      ("numberUnavailable", .int32), ("observedGeneration", .int64),
      ("updatedNumberScheduled", .int32)])]

def ofJson? (j : Json) : Option DaemonSet :=
  if isAppsObject "DaemonSet" shape j then
    some {
      name := (j.present? "metadata").bind fun m => m.getStr? "name"
      status := (j.present? "status").map fun s =>
        let count (k : String) : Option Int := (s.present? k).bind Json.int?
        { desired := (count "desiredNumberScheduled").getD 0
          ready := (count "numberReady").getD 0
          misscheduled := (count "numberMisscheduled").getD 0
          available := count "numberAvailable"
          unavailable := count "numberUnavailable" } }
  else none

end DaemonSet

end Addons
