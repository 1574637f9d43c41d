import Addons.Resource.Component
import Addons.Store.Session

/-!
# Timeouts of a component

A component is polled at an interval until it is available or its time is up; the deadline is looked at after each
poll, before the wait for the next. An unhealthy manifest component with the retry policy is removed and applied
again once its timeout has passed since its specification last changed.
-/

namespace Addons

/-! ## Waiting for availability -/

namespace Await

/-- Milliseconds between two polls of a component. -/
def interval : Nat := 5000

variable {m : Type → Type} [Monad m] [MonadExceptOf Error m]

/-- Poll until the status is available; times are in milliseconds, of which some have passed already. A
component without a status is polled on. Waits of no length do not bring the end nearer, so there are only
so many of them. -/
def pollFrom (timeout interval : Nat) (probe : m (Option Status)) (sleep : Nat → m PUnit)
    (elapsed idle : Nat) : m Status := do
  match (← probe).filter fun s => s.type = .available with
  | some s => return s
  | none =>
    if _ : elapsed + interval ≤ timeout ∧ 0 < interval then do
      sleep interval
      pollFrom timeout interval probe sleep (elapsed + interval) idle
    else if _ : interval = 0 ∧ 0 < idle then
      pollFrom timeout interval probe sleep elapsed (idle - 1)
    else throw (.timeout s!"{timeout / 1000}s")
termination_by timeout - elapsed + idle

/-- The waits of no length after which there are no more. -/
def maxIdle : Nat := 10000

def poll (timeout interval : Nat) (probe : m (Option Status)) (sleep : Nat → m PUnit) : m Status :=
  pollFrom timeout interval probe sleep 0 maxIdle

end Await

/-! ## When to retry -/

/-- The last change of anything but the status: the latest of the managed fields, or the creation where
these hold no time. -/
def Metadata.lastSpecChange? (m : Metadata) : Option Instant :=
  let times := ((m.managedFields.getD []).filter fun e => e.subresource ≠ some "status").filterMap
    ManagedFields.time
  match times with
  | [] => m.creationTimestamp
  | t :: rest => some (rest.foldl Instant.max t)

namespace Span

/-- A span is for the calendar if its milliseconds fit 64 bits with a sign. -/
def fitsCalendar (s : Span) : Bool := s.nanos ≤ (Nat.pow 2 63 - 1) * 1000000

end Span

/-- Whether a component is to be removed and applied again. The time from which on it is has to be within
the calendar. -/
def Resource.retryDue (addon : ManifestAddon) (now : Instant) : Except Error Bool :=
  match addon.spec.failurePolicy, addon.status.map Status.type, addon.spec.timeout with
  | .retry, some .unhealthy, some timeout =>
    if timeout.fitsCalendar then
      match addon.metadata.lastSpecChange? with
      | some changed =>
        let due := changed.add timeout
        if due.inCalendar then .ok (decide (due ≤ now)) else .error .beyondCalendar
      | none => .ok true
    else .ok false
  | _, _, _ => .ok false

end Addons
