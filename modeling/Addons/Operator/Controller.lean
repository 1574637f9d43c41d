import Addons.Operator.Publish
import Addons.Store.Memory

/-!
# Controllers

A controller passes over a resource again and again: at once when it starts, soon after each change of the
resource, after a delay when a pass has failed, and now and then when nothing changes. A finalizer makes
sure that what the resource has produced is removed before the resource goes.
-/

namespace Addons

/-- What a pass has to do, by the finalizer of this operator. -/
inductive Phase where
  /-- Set the finalizers, the one of this operator among them. -/
  | mark (finalizers : List String)
  | install
  /-- Remove what was produced, then leave only other finalizers. -/
  | cleanup (others : List String)
  | idle
  deriving DecidableEq, Repr

namespace Phase

def ofMetadata (m : Metadata) : Phase :=
  let finalizers := m.finalizers.getD []
  match m.deletionTimestamp.isSome, finalizers.contains finalizerName with
  | false, false => .mark (finalizers ++ [finalizerName])
  | false, true => .install
  | true, true => .cleanup (finalizers.erase finalizerName)
  | true, false => .idle

end Phase

/-- When to come back to a resource that does not change. -/
inductive Requeue where
  | after (millis : Nat)
  /-- Only after a change. -/
  | onChange
  deriving DecidableEq, Repr

/-- What a controller does for the resources of a kind. -/
structure Controller (σ τ : Type) where
  kind : ResourceKind σ τ
  /-- Install a resource and publish its status. -/
  install : Surroundings → Resource σ τ → Session Unit
  cleanup : Resource σ τ → Session Unit

namespace Controller

/-- Milliseconds between passes over a resource that is in order. -/
def requeueInterval : Nat := 300000

/-- Milliseconds after a failed pass. -/
def errorInterval : Nat := 5000

/-- Milliseconds after a change of the resource. -/
def changeInterval : Nat := 1000

def helm : Controller HelmSpec Status where
  kind := helmAddons
  install env addon := do
    Operator.writeStatus helmAddons addon addon.status (← Operator.installHelm env addon)
  cleanup := Operator.uninstallHelm

def manifests : Controller ManifestSpec Status where
  kind := manifestAddons
  install env addon := do
    Operator.writeStatus manifestAddons addon addon.status (← Operator.installManifest env addon)
  cleanup addon := do
    let _ ← Operator.uninstallManifest addon

def issuers : Controller IssuerSpec Status where
  kind := issuerAddons
  install env addon := do
    Operator.writeStatus issuerAddons addon addon.status (← Operator.installIssuer env addon)
  cleanup := Operator.uninstallIssuer

def sets : Controller SetSpec SetStatus where
  kind := addonSets
  install env set := do
    let _ ← Operator.installSet set
    Operator.writeSetStatus set (← Operator.setStatus env set)
  cleanup set := do
    let _ ← Operator.uninstallSet set

variable {σ τ : Type}

def setFinalizers (k : Key) (names : List String) : Session Unit :=
  .setFinalizers k names fun
    | .ok _ => return ()
    | .error e => .fail e

/-- One pass over a resource. -/
def pass (c : Controller σ τ) (env : Surroundings) (r : Resource σ τ) : Session Requeue := do
  let ns ← r.namespaceOf c.kind.kind
  let key := c.kind.key ns r.name
  match Phase.ofMetadata r.metadata with
  | .mark finalizers =>
    setFinalizers key finalizers
    return .onChange
  | .install =>
    c.install env r
    return .after requeueInterval
  | .cleanup others =>
    c.cleanup r
    setFinalizers key others
    return .onChange
  | .idle => return .onChange

/-- The wait after a pass that has ended: the shortest that applies. None if only a change would bring the
controller back. -/
def waitAfter (changed : Bool) (result : Except Error Requeue) : Option Nat :=
  match changed, result with
  | true, _ => some changeInterval
  | false, .error _ => some errorInterval
  | false, .ok (.after millis) => some millis
  | false, .ok .onChange => none

/-- The resource under a key, if there is one that can be read. -/
def current (c : Controller σ τ) (h : Host) (key : Key) : Option (Resource σ τ) :=
  (h.memory.object? key).bind fun o => (c.kind.ofObject o).toOption

/-- The fatal error that a pass has ended with, if it has. -/
def fatal? : Except Error Requeue → Option Error
  | .error e => if e.isFatal then some e else none
  | .ok _ => none

/-- Pass over a resource until a number of milliseconds is over. A pass that waits beyond the end is cut
off, and a fatal error ends the controller. -/
def drive (c : Controller σ τ) (env : Surroundings) (key : Key) (left : Nat) (h : Host) :
    Except Error Host :=
  match c.current h key with
  | none => .ok h
  | some r =>
    let (result, h') := ((c.pass env r).within left).run h
    match result with
    | .ok (some result) =>
      match fatal? result with
      | some e => .error e
      | none =>
        let changed := (c.current h' key).any fun r' =>
          r'.metadata.resourceVersion ≠ r.metadata.resourceVersion
        match waitAfter changed result with
        | none => .ok h'
        | some wait =>
          let taken := h'.elapsed - h.elapsed + wait
          if _ : taken < left ∧ 0 < wait then
            drive c env key (left - taken) { h' with elapsed := h'.elapsed + wait }
          else .ok h'
    | _ => .ok h'
termination_by left

/-- The keys of the resources that a controller watches, all or those of one namespace. -/
def watched (c : Controller σ τ) (m : Memory) (ns : Option String) : List Key :=
  (m.objects.filter fun e => Memory.listed c.kind.type ns none e.1 e.2).filterMap fun e =>
    e.2.key.toOption

/-- Run a controller for a number of milliseconds. -/
def run (c : Controller σ τ) (env : Surroundings) (ns : Option String) (millis : Nat) (h : Host) :
    Except Error Host :=
  (c.watched h.memory ns).foldlM (fun h key => c.drive env key millis h) h

end Controller

end Addons
