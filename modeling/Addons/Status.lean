import Addons.Codec
import Addons.Error
import Addons.Text

/-!
# Health of a component

Every component shows one status. One that says something is wrong carries a reason.
-/

namespace Addons

inductive StatusType where
  /-- All workloads serve. -/
  | available
  /-- Workloads are still rolling out. -/
  | progressing
  /-- Partly working, or an input error. -/
  | degraded
  /-- The produced resource reports itself ready. -/
  | ready
  /-- A workload reported a hard failure. -/
  | unhealthy
  deriving DecidableEq, Repr, Inhabited

namespace StatusType

def name : StatusType → String
  | .available => "Available"
  | .progressing => "Progressing"
  | .degraded => "Degraded"
  | .ready => "Ready"
  | .unhealthy => "Unhealthy"

def ofName? (s : String) : Option StatusType :=
  [available, progressing, degraded, ready, unhealthy].find? fun t => t.name = s

def requiresReason : StatusType → Bool
  | .degraded | .unhealthy => true
  | _ => false

def isUp : StatusType → Bool
  | .available | .ready => true
  | _ => false

end StatusType

structure Status where
  type : StatusType
  /-- When `type` last changed. -/
  lastTransitionTime : Instant
  reason : String
  message : String
  deriving DecidableEq, Repr, Inhabited

namespace Status

/-- A text, or another in its place if it is blank. -/
def nonBlank (s fallback : String) : String := if Text.isAllBlank s then fallback else s

def available (now : Instant) (reason message : String) : Status := ⟨.available, now, reason, message⟩

def progressing (now : Instant) (reason message : String) : Status :=
  ⟨.progressing, now, reason, message⟩

def ready (now : Instant) (reason message : String) : Status := ⟨.ready, now, reason, message⟩

def unhealthy (now : Instant) (reason message : String) : Status :=
  ⟨.unhealthy, now, nonBlank reason "Unhealthy", message⟩

def degraded (now : Instant) (reason message : String) : Status :=
  ⟨.degraded, now, nonBlank reason "Degraded", message⟩

/-- A new status of a type; a blank reason is replaced where one is required. -/
def new (now : Instant) (type : StatusType) (reason message : String) : Status :=
  match type with
  | .available => available now reason message
  | .progressing => progressing now reason message
  | .ready => ready now reason message
  | .unhealthy => unhealthy now reason message
  | .degraded => degraded now reason message

/-- A reason is there where one is required. -/
def Valid (s : Status) : Prop := s.type.requiresReason → ¬ Text.isAllBlank s.reason

instance : DecidablePred Valid := fun s => by unfold Valid; infer_instance

def validate (s : Status) : Except ContentError Unit :=
  if s.Valid then .ok () else .error (.missingReason s.type.name)

/-- Keep the time of the previous status if the type is the same. -/
def withTransitionFrom (s : Status) (previous : Option Status) : Status :=
  match previous with
  | some p => if p.type = s.type then { s with lastTransitionTime := p.lastTransitionTime } else s
  | none => s

/-- Two statuses say the same, times apart. -/
def sameAs (s t : Status) : Bool := s.type = t.type && s.reason = t.reason && s.message = t.message

def fieldNames : List String := ["type", "lastTransitionTime", "reason", "message"]

def ofJson? (j : Json) : Option Status := do
  let r ← Record.read? fieldNames j
  return ⟨← r.required? "type" (Json.variant? StatusType.ofName?),
    ← r.required? "lastTransitionTime" Json.instant?,
    ← r.default? "reason" Json.str? "", ← r.default? "message" Json.str? ""⟩

def toJson (s : Status) : Json :=
  Json.ofFields [("type", .str s.type.name), ("lastTransitionTime", .str s.lastTransitionTime.textFull),
    ("reason", .str s.reason), ("message", .str s.message)]

end Status

end Addons
