import Addons.Component.Produced
import Addons.Proofs.Json.Subset
import Addons.Proofs.Object.Identity
import Addons.Proofs.Store.Upserts

/-!
# Components that are declared anew

A chart or an issuer component that is declared a second time, with another specification and by another
owner, writes its objects over the first ones. Whether it does is decided object by object
(`Redeclared`): a specification that says anything new takes the place of the first one as a whole, one that
only leaves something out is not written. Either way all that it says is stored.
-/

namespace Addons

open Session (runs_lift_bind runs_bind_ok runs_createOrUpdate_ok)

/-! ## Produced objects -/

namespace Object

/-- The specification that an object holds. -/
def spec? (o : Object) : Option Json := Table.find? o.data "spec"

/-- All that the specification of an object says is said by that of another one. -/
def Repeats (o o' : Object) : Prop :=
  ∃ spec spec', o.spec? = some spec ∧ o'.spec? = some spec' ∧ spec.isSubset spec'

theorem spec?_of_unstamped {o o' : Object} (h : o.unstamped = o'.unstamped) : o.spec? = o'.spec? := by
  unfold spec?
  rw [data_of_unstamped h]

theorem owners_of_unstamped {o o' : Object} (h : o.unstamped = o'.unstamped) :
    o.metadata.ownerReferences = o'.metadata.ownerReferences :=
  congrArg (fun o => o.metadata.ownerReferences) h

section Produced

variable {t : TypeRef} {name : String} {ns : Option String} {owner owner₁ owner₂ : Option OwnerReference}
  {spec spec₁ spec₂ : Json}

theorem key_produced : (produced t name ns owner spec).key = .ok ⟨t, ns, name⟩ := rfl

theorem repeats_produced :
    (produced t name ns owner₂ spec₂).Repeats (produced t name ns owner₁ spec₁) ↔ spec₂.isSubset spec₁ := by
  constructor
  · rintro ⟨_, _, ⟨rfl⟩, ⟨rfl⟩, h⟩
    exact h
  · intro h
    exact ⟨spec₂, spec₁, rfl, rfl, h⟩

theorem isApplied_produced :
    (produced t name ns owner₂ spec₂).isApplied (produced t name ns owner₁ spec₁) = spec₂.isSubset spec₁ := by
  have hlabels : isSubsetStrings (some [(managedByLabel, managedBy)]) (some [(managedByLabel, managedBy)])
      = true := by decide
  have hdata : Json.isSubsetFields [("spec", spec₂)] [("spec", spec₁)] = spec₂.isSubset spec₁ := by
    simp [Json.isSubsetFields, Table.find?]
  show (Json.isSubsetFields [("spec", spec₂)] [("spec", spec₁)]
    && isSubsetStrings (some [(managedByLabel, managedBy)]) (some [(managedByLabel, managedBy)])
    && isSubsetStrings none none) = _
  rw [hdata, hlabels, Bool.and_true]
  exact Bool.and_true _

/-- A produced object has nothing of the live one to keep. -/
theorem unstamped_adopt_produced :
    ((produced t name ns owner₂ spec₂).adopt (produced t name ns owner₁ spec₁)).unstamped
      = (produced t name ns owner₂ spec₂).unstamped := rfl

end Produced

end Object

/-- What is stored of an object that was produced under one declaration and then under another. -/
structure Redeclared (first second : Object) (owner₁ owner₂ : Option OwnerReference) (stored : Object) :
    Prop where
  /-- A specification that says anything new is stored as it is, with its owner. -/
  anew : ¬second.Repeats first → stored.spec? = second.spec?
    ∧ stored.metadata.ownerReferences = owner₂.map fun o => [o]
  /-- One that says nothing new is not stored: the first one stays, with its owner. -/
  kept : second.Repeats first → stored.spec? = first.spec?
    ∧ stored.metadata.ownerReferences = owner₁.map fun o => [o]
  /-- All that the second one says is stored. -/
  within : ∃ spec live, second.spec? = some spec ∧ stored.spec? = some live ∧ spec.Within live

/-- What a store holds under a key is an object that was built twice, by one component and then another. -/
def StoredOf (key : Except Error Key) (first second : Except Error Object)
    (owner₁ owner₂ : Option OwnerReference) (m : Memory) : Prop :=
  ∃ k o₁ o₂ stored, key = .ok k ∧ first = .ok o₁ ∧ second = .ok o₂ ∧ m.object? k = some stored
    ∧ Redeclared o₁ o₂ owner₁ owner₂ stored

section Again

variable {t : TypeRef} {name : String} {ns : Option String} {owner₁ owner₂ : Option OwnerReference}
  {spec₁ spec₂ : Json} {m m₁ m₂ m' : Memory} {k : Key}

open Object (produced) in
/-- A produced object that is written over another one. -/
theorem Memory.Put.redeclared (hnone : m.object? k = none)
    (h₁ : m.Put k ((produced t name ns owner₁ spec₁).upserted (m.object? k)) m₁)
    (hkept : m₂.object? k = m₁.object? k)
    (h₂ : m₂.Put k ((produced t name ns owner₂ spec₂).upserted (m₂.object? k)) m') :
    ∃ stored, m'.object? k = some stored
      ∧ Redeclared (produced t name ns owner₁ spec₁) (produced t name ns owner₂ spec₂) owner₁ owner₂
        stored := by
  rw [hnone] at h₁
  obtain ⟨stored, hstored, hunstamped⟩ := h₁.again hkept h₂
  refine ⟨stored, hstored, ?_⟩
  unfold Object.upserted at hunstamped
  dsimp only at hunstamped
  rw [Object.isApplied_produced] at hunstamped
  by_cases hsub : spec₂.isSubset spec₁
  · rw [if_pos hsub] at hunstamped
    have hspec : stored.spec? = some spec₁ := Object.spec?_of_unstamped hunstamped
    have howners := Object.owners_of_unstamped hunstamped
    refine ⟨fun hnew => absurd (Object.repeats_produced.2 hsub) hnew, fun _ => ⟨hspec, howners⟩, ?_⟩
    exact ⟨spec₂, spec₁, rfl, hspec, Json.within_of_isSubset hsub⟩
  · rw [if_neg hsub, Object.unstamped_adopt_produced] at hunstamped
    have hspec : stored.spec? = some spec₂ := Object.spec?_of_unstamped hunstamped
    have howners := Object.owners_of_unstamped hunstamped
    refine ⟨fun _ => ⟨hspec, howners⟩, fun hold => absurd (Object.repeats_produced.1 hold) hsub, ?_⟩
    exact ⟨spec₂, spec₂, rfl, hspec, Json.within_refl spec₂⟩

end Again

/-! ## Charts -/

namespace Release

variable {addon addon₁ addon₂ : HelmAddon} {target target₁ target₂ : String} {m m₁ m₂ : Memory}
  {es es₁ es₂ : List Event}

/-- None of the objects of a component is stored. -/
def Absent (addon : HelmAddon) (m : Memory) : Prop :=
  ∀ t ∈ [repositoryType, type], ∀ k, key addon t = .ok k → m.object? k = none

theorem produce_eq_ok {t : TypeRef} {spec : String → String → Json} {o : Object}
    (h : produce addon t spec = .ok o) :
    ∃ ns owner j, addon.metadata.ns = some ns ∧ addon.ownerReference? helmAddons.type = some owner
      ∧ o = .produced t addon.name (some ns) (some owner) j := by
  unfold produce identity at h
  obtain ⟨⟨ns, name⟩, hidentity, h⟩ := of_bind_eq_ok h
  cases hns : addon.metadata.ns with
  | none =>
    rw [hns] at hidentity
    cases hidentity
  | some ns' =>
    rw [hns] at hidentity
    cases hidentity
    cases howner : addon.ownerReference? helmAddons.type with
    | none =>
      rw [howner] at h
      cases h
    | some owner =>
      rw [howner] at h
      exact ⟨ns, owner, spec ns addon.name, rfl, rfl, (Except.ok.inj h).symm⟩

theorem key_eq_ok {ns : String} (hns : addon.metadata.ns = some ns) (t : TypeRef) :
    key addon t = .ok ⟨t, some ns, addon.name⟩ := by
  unfold key identity
  rw [hns]
  rfl

/-- The repository and the release are kept in different places. -/
theorem slot_ne (ns : Option String) (name name' : String) :
    (Key.mk repositoryType ns name).slot ≠ (Key.mk type ns name').slot := by
  intro h
  have hkind : repositoryType.kind = type.kind := congrArg Slot.kind h
  exact absurd hkind (by decide)

/-- A deployment that succeeds puts both objects over the ones that were there. -/
theorem runs_apply_ok (h : (apply addon target).Runs m es (.ok ()) m₂) :
    ∃ repo rel, repository addon = .ok repo ∧ release addon target = .ok rel
      ∧ ∀ kr kl, repo.key = .ok kr → rel.key = .ok kl →
        ∃ m₁, m.Put kr (repo.upserted (m.object? kr)) m₁ ∧ m₁.Put kl (rel.upserted (m₁.object? kl)) m₂ := by
  unfold apply at h
  obtain ⟨repo, hrepo, h⟩ | ⟨e, -, -, he, -⟩ := runs_lift_bind.1 h
  · obtain ⟨rel, hrel, h⟩ | ⟨e, -, -, he, -⟩ := runs_lift_bind.1 h
    · obtain ⟨a, m₁, es₁, es₂, hputRepo, h⟩ := runs_bind_ok h
      obtain ⟨b, m', es₃, es₄, hputRel, -, -, rfl⟩ := runs_bind_ok h
      refine ⟨repo, rel, hrepo, hrel, fun kr kl hkr hkl => ⟨m₁, ?_, ?_⟩⟩
      · exact runs_createOrUpdate_ok hkr hputRepo
      · exact runs_createOrUpdate_ok hkl hputRel
    · cases he
  · cases he

/-- Two deployments in a row: each object of the second one is written over that of the first one. -/
theorem runs_apply_again (hns : addon₁.metadata.ns = addon₂.metadata.ns) (hname : addon₁.name = addon₂.name)
    (habsent : Absent addon₁ m) (h₁ : (apply addon₁ target₁).Runs m es₁ (.ok ()) m₁)
    (h₂ : (apply addon₂ target₂).Runs m₁ es₂ (.ok ()) m₂) :
    StoredOf (key addon₂ repositoryType) (repository addon₁) (repository addon₂)
        (addon₁.ownerReference? helmAddons.type) (addon₂.ownerReference? helmAddons.type) m₂
      ∧ StoredOf (key addon₂ type) (release addon₁ target₁) (release addon₂ target₂)
        (addon₁.ownerReference? helmAddons.type) (addon₂.ownerReference? helmAddons.type) m₂ := by
  obtain ⟨repo₁, rel₁, hrepo₁, hrel₁, hputs₁⟩ := runs_apply_ok h₁
  obtain ⟨repo₂, rel₂, hrepo₂, hrel₂, hputs₂⟩ := runs_apply_ok h₂
  rw [hrepo₁, hrel₁, hrepo₂, hrel₂]
  obtain ⟨ns, owner₁, _, hns₁, howner₁, rfl⟩ := produce_eq_ok hrepo₁
  obtain ⟨ns', owner₂, _, hns₂, howner₂, rfl⟩ := produce_eq_ok hrepo₂
  obtain ⟨_, _, _, hns₁', howner₁', rfl⟩ := produce_eq_ok hrel₁
  obtain ⟨_, _, _, hns₂', howner₂', rfl⟩ := produce_eq_ok hrel₂
  obtain rfl : ns = ns' := Option.some.inj (hns₁.symm.trans (hns.trans hns₂))
  obtain rfl := Option.some.inj (hns₁.symm.trans hns₁')
  obtain rfl := Option.some.inj (hns₂.symm.trans hns₂')
  obtain rfl := Option.some.inj (howner₁.symm.trans howner₁')
  obtain rfl := Option.some.inj (howner₂.symm.trans howner₂')
  rw [key_eq_ok hns₂, key_eq_ok hns₂, howner₁, howner₂, ← hname]
  rw [← hname] at hputs₂
  obtain ⟨m₁', hrepo₁, hrel₁⟩ := hputs₁ _ _ Object.key_produced Object.key_produced
  obtain ⟨m₂', hrepo₂, hrel₂⟩ := hputs₂ _ _ Object.key_produced Object.key_produced
  have hne := slot_ne (some ns) addon₁.name addon₁.name
  have hnoRepo := habsent repositoryType (by simp) _ (key_eq_ok hns₁ repositoryType)
  have hnoRel := (hrepo₁.others _ hne.symm).trans (habsent type (by simp) _ (key_eq_ok hns₁ type))
  constructor
  · obtain ⟨stored, hstored, hredeclared⟩ :=
      Memory.Put.redeclared hnoRepo hrepo₁ (hrel₁.others _ hne) hrepo₂
    exact ⟨_, _, _, stored, rfl, rfl, rfl, (hrel₂.others _ hne).trans hstored, hredeclared⟩
  · obtain ⟨stored, hstored, hredeclared⟩ :=
      Memory.Put.redeclared hnoRel hrel₁ (hrepo₂.others _ hne.symm) hrel₂
    exact ⟨_, _, _, stored, rfl, rfl, rfl, hstored, hredeclared⟩

end Release

/-! ## Issuers -/

namespace Issuer

variable {addon addon₁ addon₂ : IssuerAddon} {a₁ a₂ : ApplyOutcome} {m m₁ m₂ : Memory} {es₁ es₂ : List Event}

/-- The owner of an issuer; one of the cluster has none. -/
def owner? (addon : IssuerAddon) : Option OwnerReference :=
  if addon.spec.clusterScoped then none else addon.ownerReference? issuerAddons.type

theorem object_eq_ok {o : Object} (h : object addon = .ok o) :
    ∃ ns, scopeNs addon = .ok ns
      ∧ o = .produced (type addon) addon.name ns (owner? addon) addon.spec.issuer := by
  unfold object at h
  cases hobj : addon.spec.issuer.isObj with
  | false =>
    rw [hobj] at h
    cases h
  | true =>
    rw [hobj] at h
    obtain ⟨ns, hns, h⟩ := of_bind_eq_ok (x := scopeNs addon) h
    exact ⟨ns, hns, (Except.ok.inj h).symm⟩

/-- Two issuers of one scope in a row: the second one is written over the first. -/
theorem runs_apply_again (hcluster : addon₁.spec.clusterScoped = addon₂.spec.clusterScoped)
    (hscope : scopeNs addon₁ = scopeNs addon₂) (hname : addon₁.name = addon₂.name)
    (habsent : ∀ k, key addon₁ = .ok k → m.object? k = none) (h₁ : (apply addon₁).Runs m es₁ (.ok a₁) m₁)
    (h₂ : (apply addon₂).Runs m₁ es₂ (.ok a₂) m₂) :
    StoredOf (key addon₂) (object addon₁) (object addon₂) (owner? addon₁) (owner? addon₂) m₂ := by
  obtain ⟨o₁, ho₁, h₁⟩ | ⟨e, -, -, he, -⟩ := runs_lift_bind.1 h₁
  · obtain ⟨o₂, ho₂, h₂⟩ | ⟨e, -, -, he, -⟩ := runs_lift_bind.1 h₂
    · rw [ho₁, ho₂]
      obtain ⟨ns, hns₁, rfl⟩ := object_eq_ok ho₁
      obtain ⟨ns', hns₂, rfl⟩ := object_eq_ok ho₂
      obtain rfl : ns = ns' := Except.ok.inj (hns₁.symm.trans (hscope.trans hns₂))
      have htype : type addon₁ = type addon₂ := by
        unfold type
        rw [hcluster]
      have hkey₁ : key addon₁ = .ok ⟨type addon₁, ns, addon₁.name⟩ := by
        unfold key
        rw [hns₁]
        rfl
      have hkey₂ : key addon₂ = .ok ⟨type addon₁, ns, addon₁.name⟩ := by
        unfold key
        rw [hns₂, htype, hname]
        rfl
      rw [hkey₂]
      rw [← htype, ← hname] at h₂ ⊢
      have hput₁ := runs_createOrUpdate_ok Object.key_produced h₁
      have hput₂ := runs_createOrUpdate_ok Object.key_produced h₂
      obtain ⟨stored, hstored, hredeclared⟩ :=
        Memory.Put.redeclared (habsent _ hkey₁) hput₁ rfl hput₂
      exact ⟨_, _, _, stored, rfl, rfl, rfl, hstored, hredeclared⟩
    · cases he
  · cases he

end Issuer

/-! ## Both -/

/-- A component that is declared a second time, with any specification and by any owner. What its second
specification leaves out of the first one is not withdrawn, object by object, unless that specification also
says something new. -/
theorem redeclared_objects_stored :
    (∀ (addon₁ addon₂ : HelmAddon) (target₁ target₂ : String) (m m₁ m₂ : Memory) (es₁ es₂ : List Event),
      addon₁.metadata.ns = addon₂.metadata.ns → addon₁.name = addon₂.name → Release.Absent addon₁ m →
      (Release.apply addon₁ target₁).Runs m es₁ (.ok ()) m₁ →
      (Release.apply addon₂ target₂).Runs m₁ es₂ (.ok ()) m₂ →
      StoredOf (Release.key addon₂ Release.repositoryType) (Release.repository addon₁)
          (Release.repository addon₂) (addon₁.ownerReference? helmAddons.type)
          (addon₂.ownerReference? helmAddons.type) m₂
        ∧ StoredOf (Release.key addon₂ Release.type) (Release.release addon₁ target₁)
          (Release.release addon₂ target₂) (addon₁.ownerReference? helmAddons.type)
          (addon₂.ownerReference? helmAddons.type) m₂)
      ∧ ∀ (addon₁ addon₂ : IssuerAddon) (m m₁ m₂ : Memory) (es₁ es₂ : List Event) (a₁ a₂ : ApplyOutcome),
        addon₁.spec.clusterScoped = addon₂.spec.clusterScoped →
        Issuer.scopeNs addon₁ = Issuer.scopeNs addon₂ → addon₁.name = addon₂.name →
        (∀ k, Issuer.key addon₁ = .ok k → m.object? k = none) →
        (Issuer.apply addon₁).Runs m es₁ (.ok a₁) m₁ → (Issuer.apply addon₂).Runs m₁ es₂ (.ok a₂) m₂ →
        StoredOf (Issuer.key addon₂) (Issuer.object addon₁) (Issuer.object addon₂) (Issuer.owner? addon₁)
          (Issuer.owner? addon₂) m₂ := by
  constructor
  · intro addon₁ addon₂ target₁ target₂ m m₁ m₂ es₁ es₂ hns hname habsent h₁ h₂
    exact Release.runs_apply_again hns hname habsent h₁ h₂
  · intro addon₁ addon₂ m m₁ m₂ es₁ es₂ a₁ a₂ hcluster hscope hname habsent h₁ h₂
    exact Issuer.runs_apply_again hcluster hscope hname habsent h₁ h₂

namespace Redeclared

/-- A chart with values, deployed by an owner. -/
def cert (uid : String) (values : Json) : HelmAddon :=
  { metadata := { name := some "cert", ns := some "addons", uid := some uid }
    spec := {
      chart := "cert", repository := "https://charts.e", version := "1.0.0", values
      targetNamespace := none, interval := HelmSpec.defaultInterval }
    status := none }

/-- The chart with a value that its next declaration leaves out. -/
def debugged : HelmAddon := cert "uid-a" (.obj [("debug", .bool true), ("replicas", .ofNat 2)])

/-- The chart without that value, declared by another owner. -/
def quiet : HelmAddon := cert "uid-b" (.obj [("replicas", .ofNat 2)])

/-- An issuer of a namespace. -/
def issuing (uid : String) (issuer : Json) : IssuerAddon :=
  { metadata := { name := some "ca", ns := some "addons", uid := some uid }
    spec := ⟨false, issuer⟩
    status := none }

def selfSigned : IssuerAddon := issuing "uid-a" (.obj [("selfSigned", .obj [])])

def signed : IssuerAddon := issuing "uid-b" (.obj [("ca", .obj [("secretName", .str "root")])])

/-- A store without any objects. -/
def blank : Host := { memory := { now := default } }

def deployed (addon : HelmAddon) (h : Host) : Except Error Unit × Host := (Release.apply addon "cert").run h

def issued (addon : IssuerAddon) (h : Host) : Except Error ApplyOutcome × Host := (Issuer.apply addon).run h

def certKey : Key := ⟨Release.type, some "addons", "cert"⟩

/-- A release has a value for debugging. -/
def debugs (release : Object) : Bool :=
  (release.spec?.bind fun spec => spec.at? [.field "values", .field "debug"]).isSome

def ownerUids (o : Object) : Option (List String) :=
  o.metadata.ownerReferences.map fun l => l.map OwnerReference.uid

theorem deployments_checked :
    ((deployed debugged blank).1.toOption.any fun _ => true) = true
      ∧ ((deployed quiet (deployed debugged blank).2).1.toOption.any fun _ => true) = true
      ∧ (((deployed quiet (deployed debugged blank).2).2.memory.object? certKey).any fun o =>
        debugs o && ownerUids o = some ["uid-a"]) = true
      ∧ ((Release.release quiet "cert").toOption.any fun o => !debugs o && ownerUids o = some ["uid-b"])
        = true := by
  decide +kernel

theorem issuers_checked :
    ((issued selfSigned blank).1.toOption.any fun _ => true) = true
      ∧ ((issued signed (issued selfSigned blank).2).1.toOption.any fun _ => true) = true := by
  decide +kernel

theorem runs_deployed {addon : HelmAddon} {h : Host}
    (hok : ((deployed addon h).1.toOption.any fun _ => true) = true) :
    ∃ es, (Release.apply addon "cert").Runs h.memory es (.ok ()) (deployed addon h).2.memory := by
  obtain ⟨_, ha, -⟩ := ok_of_any hok
  obtain ⟨es, hrun⟩ := Session.runs_run (Release.apply addon "cert") h
  rw [show ((Release.apply addon "cert").run h).1 = .ok () from ha] at hrun
  exact ⟨es, hrun⟩

theorem runs_issued {addon : IssuerAddon} {h : Host}
    (hok : ((issued addon h).1.toOption.any fun _ => true) = true) :
    ∃ es a, (Issuer.apply addon).Runs h.memory es (.ok a) (issued addon h).2.memory := by
  obtain ⟨a, ha, -⟩ := ok_of_any hok
  obtain ⟨es, hrun⟩ := Session.runs_run (Issuer.apply addon) h
  rw [show ((Issuer.apply addon).run h).1 = .ok a from ha] at hrun
  exact ⟨es, a, hrun⟩

theorem quiet_over_debugged :
    (∃ m, StoredOf (Release.key quiet Release.type) (Release.release debugged "cert")
        (Release.release quiet "cert") (debugged.ownerReference? helmAddons.type)
        (quiet.ownerReference? helmAddons.type) m)
      ∧ ∃ m, StoredOf (Issuer.key signed) (Issuer.object selfSigned) (Issuer.object signed)
        (Issuer.owner? selfSigned) (Issuer.owner? signed) m := by
  obtain ⟨es₁, h₁⟩ := runs_deployed deployments_checked.1
  obtain ⟨es₂, h₂⟩ := runs_deployed deployments_checked.2.1
  obtain ⟨es₃, a₃, h₃⟩ := runs_issued issuers_checked.1
  obtain ⟨es₄, a₄, h₄⟩ := runs_issued issuers_checked.2
  have habsent : Release.Absent debugged blank.memory := fun _ _ _ _ => rfl
  exact ⟨⟨_, (redeclared_objects_stored.1 debugged quiet "cert" "cert" _ _ _ es₁ es₂ rfl rfl habsent h₁ h₂).2⟩,
    ⟨_, redeclared_objects_stored.2 selfSigned signed _ _ _ es₃ es₄ a₃ a₄ rfl rfl rfl (fun _ _ => rfl) h₃ h₄⟩⟩

/-- A value that is left out of a second declaration stays in the stored release, and so does the first
owner. -/
theorem left_out_value_stays :
    ∃ es₁ m₁ es₂ m₂ release stored, Release.Absent debugged blank.memory
      ∧ (Release.apply debugged "cert").Runs blank.memory es₁ (.ok ()) m₁
      ∧ (Release.apply quiet "cert").Runs m₁ es₂ (.ok ()) m₂
      ∧ Release.release quiet "cert" = .ok release ∧ m₂.object? certKey = some stored
      ∧ stored.spec? ≠ release.spec?
      ∧ stored.metadata.ownerReferences ≠ release.metadata.ownerReferences := by
  obtain ⟨hok₁, hok₂, hstored, hrelease⟩ := deployments_checked
  obtain ⟨es₁, h₁⟩ := runs_deployed hok₁
  obtain ⟨es₂, h₂⟩ := runs_deployed hok₂
  obtain ⟨stored, hfind, hleft⟩ := (Option.any_eq_true _ _).1 hstored
  obtain ⟨release, hrel, hbuilt⟩ := ok_of_any hrelease
  rw [Bool.and_eq_true, decide_eq_true_iff] at hleft hbuilt
  refine ⟨es₁, _, es₂, _, release, stored, fun _ _ _ _ => rfl, h₁, h₂, hrel, hfind, ?_, ?_⟩
  · intro hspec
    have hsame : debugs stored = debugs release := by
      unfold debugs
      rw [hspec]
    rw [← hsame, hleft.1] at hbuilt
    exact absurd hbuilt.1 (by decide)
  · intro howners
    have hsame : ownerUids stored = ownerUids release := by
      unfold ownerUids
      rw [howners]
    rw [hleft.2, hbuilt.2] at hsame
    exact absurd hsame (by decide)

end Redeclared

end Addons
