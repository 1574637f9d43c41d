import Addons.Object.Prepare
import Addons.Status
import Addons.Store.Session
import Addons.Workload.Deployment

/-!
# Health of workloads

Each workload gets a verdict. A class of workloads is tallied up to its first failure, and the tallies of
deployments and daemon sets make one status. The workloads among the tracked objects of a component are looked up one
after another.
-/

namespace Addons

inductive Verdict where
  | ready
  | progressing
  | failed (reason message : String)
  deriving DecidableEq, Repr, Inhabited

namespace Condition

/-- What one condition of a deployment says. A rollout past its deadline is a failure, one that is
neither complete nor overdue goes on, and of the other conditions all but availability and missing
replicas are failures. -/
def verdict (c : Condition) : Verdict :=
  let reason := c.reason.getD ""
  if c.type = "Available" ∧ c.status = "True" then .ready
  else if c.type = "Progressing" then
    if reason = "ProgressDeadlineExceeded" then failure
    else if c.status = "True" ∧ reason = "NewReplicaSetAvailable" then .ready
    else .progressing
  else if reason = "MinimumReplicasUnavailable" then .progressing
  else failure
where
  /-- A failure with the condition's own reason, or its type where that is empty. -/
  failure : Verdict :=
    .failed (((c.reason.filter fun r => !r.isEmpty)).getD c.type) (c.message.getD "")

end Condition

/-- The first failure of a list of verdicts. -/
def Verdict.firstFailure? (vs : List Verdict) : Option (String × String) :=
  vs.findSome? fun
    | .failed reason message => some (reason, message)
    | _ => none

namespace Deployment

def desired (d : Deployment) : Int :=
  (d.replicas.or (d.status.bind DeploymentStatus.replicas)).getD 1

def available (d : Deployment) : Int := (d.status.bind DeploymentStatus.availableReplicas).getD 0

/-- Failed by its first failing condition; ready when no condition says otherwise and the replicas asked
for are available. -/
def verdict (d : Deployment) : Verdict :=
  let vs := ((d.status.map DeploymentStatus.conditions).getD []).map Condition.verdict
  match Verdict.firstFailure? vs with
  | some (reason, message) => .failed reason message
  | none => if vs.contains .progressing || d.available != d.desired then .progressing else .ready

end Deployment

namespace DaemonSet

/-- Ready when every scheduled pod is ready and available; failed when pods run where they should not or
are unavailable. -/
def verdict (d : DaemonSet) : Verdict :=
  match d.status with
  | none => .progressing
  | some s =>
    let name := d.name.getD "<unnamed>"
    let unavailable := s.unavailable.getD 0
    if s.desired = s.ready ∧ s.desired = s.available.getD 0 then .ready
    else if s.misscheduled > 0 then
      .failed "DaemonSetMisscheduled"
        s!"{s.misscheduled} pod(s) of daemonset {name} are running where they should not"
    else if unavailable > 0 then
      .failed "DaemonSetUnavailable"
        s!"{unavailable} of {s.desired} pod(s) of daemonset {name} are unavailable"
    else .progressing

end DaemonSet

/-- The verdicts of one class of workloads up to the first failure. -/
structure Tally where
  progressing : Nat := 0
  failure : Option (String × String) := none
  deriving DecidableEq, Repr, Inhabited

namespace Tally

def ofVerdicts : List Verdict → Tally
  | [] => {}
  | .ready :: rest => ofVerdicts rest
  | .progressing :: rest =>
    let t := ofVerdicts rest
    { t with progressing := t.progressing + 1 }
  | .failed reason message :: _ => { failure := some (reason, message) }

end Tally

namespace Health

def deploymentsProgressing : String := "1 or more manifest deployments are still progressing"

def daemonSetsProgressing : String := "1 or more manifest daemonsets are still progressing"

def deploymentsAvailable : String := "all manifest deployments are available"

def daemonSetsAvailable : String := "all manifest daemonsets are available"

/-- One status for both classes. While both are still progressing the status is available and its
message says so. -/
def combine (now : Instant) (deployments daemonSets : Tally) : Status :=
  match deployments.failure, daemonSets.failure with
  | some (reason, message), _ => .unhealthy now reason message
  | none, some (reason, message) => .unhealthy now reason message
  | none, none =>
    match deployments.progressing, daemonSets.progressing with
    | 0, 0 => .available now "" s!"{deploymentsAvailable}, {daemonSetsAvailable}"
    | _ + 1, 0 => .progressing now "" deploymentsProgressing
    | 0, _ + 1 => .progressing now "" daemonSetsProgressing
    | _ + 1, _ + 1 => .available now "" s!"{deploymentsProgressing}, {daemonSetsProgressing}"

/-- The status of a component that tracks no objects. -/
def noObjects (now : Instant) : Status := .unhealthy now "NoObjects" "no objects detected"

/-- The status of workloads; one that was not found counts as progressing. -/
def aggregate (now : Instant) (deployments : List (Option Deployment))
    (daemonSets : List (Option DaemonSet)) : Status :=
  combine now
    (.ofVerdicts (deployments.map fun d => (d.map Deployment.verdict).getD .progressing))
    (.ofVerdicts (daemonSets.map fun d => (d.map DaemonSet.verdict).getD .progressing))

def readWorkload {α : Type} (read : Json → Option α) : Option Object → Except Error (Option α)
  | none => .ok none
  | some o =>
    match read o.toJson with
    | some a => .ok (some a)
    | none => .error .serialization

/-- The tracked workloads as they are; other objects do not count. -/
def lookUp : List Tracked → Session (List (Option Deployment) × List (Option DaemonSet))
  | [] => return ([], [])
  | t :: rest =>
    match t.workload? with
    | none => lookUp rest
    | some .deployment => do
      let live ← readWorkload Deployment.ofJson? (← Session.find? (Key.ofTracked t))
      let (deployments, daemonSets) ← lookUp rest
      return (live :: deployments, daemonSets)
    | some .daemonSet => do
      let live ← readWorkload DaemonSet.ofJson? (← Session.find? (Key.ofTracked t))
      let (deployments, daemonSets) ← lookUp rest
      return (deployments, live :: daemonSets)

/-- The health of a component from the objects that it tracks. -/
def check (now : Instant) (tracked : List Tracked) : Session Status := do
  if tracked.isEmpty then return noObjects now
  let (deployments, daemonSets) ← lookUp tracked
  return aggregate now deployments daemonSets

end Health

end Addons
