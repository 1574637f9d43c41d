import Addons.Resource.Composite
import Addons.Store.Upsert

/-!
# Reconciling components

The components of an owner are brought in line with the entries that it declares: first every entry is
created, updated or moved, and then what is left of the installed components is deleted. The owner is the composite
on whose behalf components are kept; its labels are on every component it has. A summary says what a pass did, by the
names under which its components are shown.
-/

namespace Addons

/-! ## Owners -/

structure Owner where
  name : String
  ns : String
  deriving DecidableEq, Repr, Inhabited

namespace Owner

/-- The labels of every component of an owner. -/
def labels (o : Owner) : Table String String :=
  Table.ofList [(managedByLabel, managedBy), (ownerNameLabel, o.name), (ownerNamespaceLabel, o.ns)]

/-- Selects the components of an owner. -/
def selector (o : Owner) : String := Selector.ofLabels o.labels

/-- The namespace that a component is kept in. One that produces objects of the cluster is kept beside its
owner. -/
def targetNs {π : Type} (o : Owner) (e : Entry π) : String :=
  if e.clusterScoped || e.ns.isEmpty then o.ns else e.ns

end Owner

/-! ## Summaries -/

structure Summary where
  created : List String := []
  updated : List String := []
  unchanged : List String := []
  moved : List String := []
  deleted : List String := []
  deriving DecidableEq, Repr, Inhabited

namespace Summary

/-- The pass changed nothing. -/
def isNoop (s : Summary) : Bool :=
  s.created.isEmpty && s.updated.isEmpty && s.moved.isEmpty && s.deleted.isEmpty

/-- The number of components that are declared. -/
def declared (s : Summary) : Nat :=
  s.created.length + s.updated.length + s.unchanged.length + s.moved.length

/-- The counts that are not zero. -/
def text (s : Summary) : String :=
  let parts := [(s.created.length, "created"), (s.updated.length, "updated"), (s.moved.length, "moved"),
    (s.deleted.length, "deleted"), (s.unchanged.length, "unchanged")].filter fun p => p.1 != 0
  if parts.isEmpty then "no components"
  else ", ".intercalate (parts.map fun p => toString p.1 ++ " " ++ p.2)

/-- One pass after another. -/
def append (s t : Summary) : Summary :=
  ⟨s.created ++ t.created, s.updated ++ t.updated, s.unchanged ++ t.unchanged, s.moved ++ t.moved,
    s.deleted ++ t.deleted⟩

instance : Append Summary := ⟨append⟩

end Summary

/-! ## Passes -/

/-- A kind of components, and the specification that an entry declares. -/
structure ComponentKind (π σ : Type) where
  resource : ResourceKind σ Status
  specOf : Entry π → σ

def ComponentKind.helm : ComponentKind HelmSpec HelmSpec := ⟨helmAddons, Entry.spec⟩

def ComponentKind.manifests : ComponentKind ManifestSpec ManifestSpec := ⟨manifestAddons, Entry.spec⟩

def ComponentKind.issuers : ComponentKind IssuerConfig IssuerSpec :=
  ⟨issuerAddons, fun e => ⟨e.clusterScoped, e.spec.issuer⟩⟩

/-- What became of a declared entry. -/
inductive EntryOutcome where
  | created
  | updated
  | unchanged
  | moved
  deriving DecidableEq, Repr

/-- The summary of one entry. -/
def Summary.ofEntry (outcome : EntryOutcome) (label : String) : Summary :=
  match outcome with
  | .created => { created := [label] }
  | .updated => { updated := [label] }
  | .unchanged => { unchanged := [label] }
  | .moved => { moved := [label] }

namespace Reconcile

variable {π σ : Type}

/-- The component that an entry declares. -/
def materialize (k : ComponentKind π σ) (owner : Owner) (e : Entry π) : Object :=
  k.resource.toObject {
    metadata := { name := some e.name, ns := some (owner.targetNs e), labels := some owner.labels }
    spec := k.specOf e }

def keyOf (k : ComponentKind π σ) (owner : Owner) (e : Entry π) : Key :=
  k.resource.key (owner.targetNs e) e.name

/-- Take the installed component of a name, before all the one in the target namespace; others of that
name stay. -/
def takeMatch (name ns : String) (installed : List Object) : Option Object × List Object :=
  let named (o : Object) : Bool := o.anyName = name
  let here (o : Object) : Bool := named o && o.metadata.ns = some ns
  if installed.any here then (installed.find? here, installed.eraseP here)
  else (installed.find? named, installed.eraseP named)

def sameSpec : Option Json → Option Json → Bool
  | some a, some b => a.same b
  | none, none => true
  | _, _ => false

/-- The live component has the desired specification, and the desired labels among its own. -/
def isCurrent (desired existing : Object) : Bool :=
  ((desired.metadata.labels.getD []).all fun e => existing.metadata.label? e.1 = some e.2)
    && sameSpec (Table.find? desired.data "spec") (Table.find? existing.data "spec")

/-- Apply an entry, given the object that stands for it. One in another namespace is deleted before it is
created anew. -/
def applyTo (propagation : Propagation) (desired : Object) (ns : String) :
    Option Object → Session EntryOutcome
  | none => do
    let _ ← Session.createNew desired
    return .created
  | some existing =>
    if existing.metadata.ns = some ns then
      if isCurrent desired existing then return .unchanged
      else do
        let _ ← Session.replace (desired.adopt existing)
        return .updated
    else do
      let old ← existing.key
      let _ ← Session.removeIfExists old propagation
      let _ ← Session.createNew desired
      return .moved

/-- Apply one entry; the installed components that no entry has taken yet are threaded through. -/
def applyEntry (k : ComponentKind π σ) (owner : Owner) (propagation : Propagation)
    (installed : List Object) (e : Entry π) : Session (EntryOutcome × List Object) := do
  let ns := owner.targetNs e
  let _ ← Session.ensureNamespace ns
  let (taken, rest) := takeMatch e.name ns installed
  let existing ← match taken with
    | some o => pure (some o)
    | none => Session.find? (keyOf k owner e)
  let outcome ← applyTo propagation (materialize k owner e) ns existing
  return (outcome, rest)

/-- Apply the entries in order. -/
def applyEntries (k : ComponentKind π σ) (owner : Owner) (propagation : Propagation)
    (installed : List Object) : List (Entry π) → Session (Summary × List Object)
  | [] => return ({}, installed)
  | e :: rest => do
    let (outcome, installed) ← applyEntry k owner propagation installed e
    let (summary, left) ← applyEntries k owner propagation installed rest
    return (.ofEntry outcome (keyOf k owner e).display ++ summary, left)

/-- Delete components that are no longer declared, in the order in which they are given. Any order will do: what is
shown of this is shown for every list of such components. -/
def sweep (propagation : Propagation) : List Object → Session Summary
  | [] => return {}
  | o :: rest => do
    let key ← o.key
    let _ ← Session.removeIfExists key propagation
    let summary ← sweep propagation rest
    return { deleted := [key.display] } ++ summary

/-- Bring the components of one kind in line with the declared entries. What is left of the installed components is
deleted as it was listed. This order is one of many, none of which is promised, and no result about a pass depends on
it. -/
def pass (k : ComponentKind π σ) (owner : Owner) (entries : List (Entry π))
    (propagation : Propagation) : Session Summary := do
  let installed ← Session.listAll k.resource.type none (some owner.selector)
  let (applied, left) ← applyEntries k owner propagation installed entries
  let swept ← sweep propagation left
  return applied ++ swept

/-- Bring all components of an owner in line with a specification, kind by kind. -/
def all (owner : Owner) (spec : SetSpec) : Session Summary := do
  let helm ← pass .helm owner spec.helm .background
  let manifests ← pass .manifests owner spec.manifests .background
  let issuers ← pass .issuers owner spec.issuers .background
  return helm ++ manifests ++ issuers

end Reconcile

end Addons
