import Addons.Operator.Install
import Addons.Proofs.Composite.Idempotence

/-!
# What a composite shows

After an installation that succeeds, listing the components of a composite finds the status of each that is
declared, and of no other, and the worst of them decides what the composite shows
(`Operator.health_covers_declared`).
-/

namespace Addons

namespace Rollup

/-- The component has a status of the type, and it can be read. -/
def Shows (t : StatusType) (c : ComponentHealth) : Prop := ∃ s, c.2 = some s ∧ s.type = t

/-- The worst component decides. -/
structure Worst (components : List ComponentHealth) (t : StatusType) : Prop where
  unhealthy : t = .unhealthy ↔ ∃ c ∈ components, Shows .unhealthy c
  degraded : t = .degraded ↔ (∀ c ∈ components, ¬Shows .unhealthy c) ∧ ∃ c ∈ components, Shows .degraded c
  available : t = .available ↔ ∀ c ∈ components, Shows .available c ∨ Shows .ready c
  progressing : t = .progressing ↔ (∀ c ∈ components, ¬Shows .unhealthy c ∧ ¬Shows .degraded c)
    ∧ ∃ c ∈ components, ¬(Shows .available c ∨ Shows .ready c)

variable {t t' : StatusType} {c : ComponentHealth} {components components' : List ComponentHealth}

theorem Shows.type_eq (h : Shows t c) (h' : Shows t' c) : t = t' := by
  obtain ⟨s, hs, rfl⟩ := h
  obtain ⟨s', hs', rfl⟩ := h'
  rw [Option.some.inj (hs.symm.trans hs')]

theorem Worst.perm (h : Worst components t) (hperm : components.Perm components') : Worst components' t := by
  obtain ⟨hunhealthy, hdegraded, havailable, hprogressing⟩ := h
  simp only [hperm.mem_iff] at hunhealthy hdegraded havailable hprogressing
  exact ⟨hunhealthy, hdegraded, havailable, hprogressing⟩

theorem first?_eq_none : first? t components = none ↔ ∀ c ∈ components, ¬Shows t c := by
  unfold first?
  rw [List.findSome?_eq_none_iff]
  refine forall₂_congr fun c _ => ?_
  unfold Shows
  cases c.2 with
  | none => simp
  | some s => simp

theorem exists_of_first? {found : String × Status} (h : first? t components = some found) :
    ∃ c ∈ components, Shows t c := by
  by_contra hnone
  push Not at hnone
  rw [first?_eq_none.2 hnone] at h
  cases h

theorem isUp_iff : isUp c ↔ Shows .available c ∨ Shows .ready c := by
  unfold isUp Shows
  cases c.2 with
  | none => simp
  | some s => cases hs : s.type <;> simp [hs, StatusType.isUp]

theorem pending_eq_nil : pending components = [] ↔ ∀ c ∈ components, Shows .available c ∨ Shows .ready c := by
  unfold pending
  rw [List.map_eq_nil_iff, List.filter_eq_nil_iff]
  refine forall₂_congr fun c _ => ?_
  rw [← isUp_iff]
  simp

theorem worst_unhealthy (hc : c ∈ components) (h : Shows .unhealthy c) : Worst components .unhealthy := by
  refine ⟨iff_of_true rfl ⟨c, hc, h⟩, iff_of_false (fun h => nomatch h) fun hnone => hnone.1 c hc h,
    iff_of_false (fun h => nomatch h) fun hup => ?_,
    iff_of_false (fun h => nomatch h) fun hnone => (hnone.1 c hc).1 h⟩
  rcases hup c hc with hup | hup <;> cases h.type_eq hup

theorem worst_degraded (hnone : ∀ c ∈ components, ¬Shows .unhealthy c) (hc : c ∈ components)
    (h : Shows .degraded c) : Worst components .degraded := by
  refine ⟨iff_of_false (fun h => nomatch h) fun ⟨c, hc, h⟩ => hnone c hc h,
    iff_of_true rfl ⟨hnone, c, hc, h⟩, iff_of_false (fun h => nomatch h) fun hup => ?_,
    iff_of_false (fun h => nomatch h) fun hnone => (hnone.1 c hc).2 h⟩
  rcases hup c hc with hup | hup <;> cases h.type_eq hup

theorem worst_available (hup : ∀ c ∈ components, Shows .available c ∨ Shows .ready c) :
    Worst components .available := by
  refine ⟨iff_of_false (fun h => nomatch h) fun ⟨c, hc, h⟩ => ?_,
    iff_of_false (fun h => nomatch h) fun ⟨_, c, hc, h⟩ => ?_, iff_of_true rfl hup,
    iff_of_false (fun h => nomatch h) fun ⟨_, c, hc, h⟩ => h (hup c hc)⟩
  · rcases hup c hc with hup | hup <;> cases h.type_eq hup
  · rcases hup c hc with hup | hup <;> cases h.type_eq hup

theorem worst_progressing (hnone : ∀ c ∈ components, ¬Shows .unhealthy c ∧ ¬Shows .degraded c)
    (hc : c ∈ components) (hdown : ¬(Shows .available c ∨ Shows .ready c)) : Worst components .progressing :=
  ⟨iff_of_false (fun h => nomatch h) fun ⟨c, hc, h⟩ => (hnone c hc).1 h,
    iff_of_false (fun h => nomatch h) fun ⟨_, c, hc, h⟩ => (hnone c hc).2 h,
    iff_of_false (fun h => nomatch h) fun hup => hdown (hup c hc), iff_of_true rfl ⟨hnone, c, hc, hdown⟩⟩

theorem worst_status (now : Instant) (components : List ComponentHealth) :
    Worst components (status now components).type := by
  unfold status
  cases hunhealthy : first? .unhealthy components with
  | some found =>
    obtain ⟨c, hc, hshows⟩ := exists_of_first? hunhealthy
    exact worst_unhealthy hc hshows
  | none =>
    have hnone := first?_eq_none.1 hunhealthy
    cases hdegraded : first? .degraded components with
    | some found =>
      obtain ⟨c, hc, hshows⟩ := exists_of_first? hdegraded
      exact worst_degraded hnone hc hshows
    | none =>
      have hnone' := first?_eq_none.1 hdegraded
      cases hpending : pending components with
      | nil => exact worst_available (pending_eq_nil.1 hpending)
      | cons name names =>
        have hdown : ¬∀ c ∈ components, Shows .available c ∨ Shows .ready c := fun hup => by
          rw [pending_eq_nil.2 hup] at hpending
          cases hpending
        push Not at hdown
        obtain ⟨c, hc, hdown⟩ := hdown
        exact worst_progressing (fun c hc => ⟨hnone c hc, hnone' c hc⟩) hc (not_or.2 hdown)

end Rollup

theorem SetSpec.Distinct.apart {spec : SetSpec} (hd : spec.Distinct) (owner : Owner) : spec.Apart owner :=
  ⟨Reconcile.nodup_places hd.helm, Reconcile.nodup_places hd.manifests, Reconcile.nodup_places hd.issuers⟩

namespace Reconcile

section Kind

variable {π σ : Type} {k : ComponentKind π σ} {owner : Owner} {entries : List (Entry π)} {m : Memory}

variable (k owner) in
/-- The name under which a declared component is listed, and where it is kept. -/
def named (e : Entry π) : String × Slot := (s!"{k.resource.kind}/{e.name}", place k owner e)

end Kind

/-- The names and the places of all declared components. -/
def allNamed (owner : Owner) (spec : SetSpec) : List (String × Slot) :=
  spec.helm.map (named .helm owner) ++ spec.manifests.map (named .manifests owner)
    ++ spec.issuers.map (named .issuers owner)

/-- What is kept in a place, with the status that it shows. -/
def healthAt (m : Memory) (c : String × Slot) : ComponentHealth :=
  (c.1, (m.objects.find? c.2).bind Rollup.statusOf)

section Kind

variable {π σ : Type} {k : ComponentKind π σ} {owner : Owner} {entries : List (Entry π)} {m : Memory}

/-- A listing shows what is kept for the entries. -/
theorem AtRest.perm_health (ho : owner.Plain) (hm : m.Filed) (hnames : (entries.map Entry.name).Nodup)
    (h : AtRest k owner entries m) :
    ((components k owner m).map fun o => (s!"{k.resource.kind}/{o.anyName}", Rollup.statusOf o)).Perm
      ((entries.map (named k owner)).map (healthAt m)) := by
  obtain ⟨l, hperm, hl⟩ := h.threaded.located ho hm hnames
  refine (hperm.symm.map _).trans (List.Perm.of_eq ?_)
  clear hperm h hnames
  induction hl with
  | nil => rfl
  | @cons e o entries l hstands _ ih =>
    obtain ⟨hf, hstands⟩ := hstands
    have hname : o.anyName = e.name := hm.anyName_of_find? hf
    have hhead : (s!"{k.resource.kind}/{o.anyName}", Rollup.statusOf o) = healthAt m (named k owner e) := by
      unfold healthAt named
      rw [hf, hname]
      rfl
    rw [List.map_cons, hhead, ih, List.map_cons, List.map_cons]

theorem AtRest.ends_ofKind (ho : owner.Plain) (hm : m.Filed) (hnames : (entries.map Entry.name).Nodup)
    (h : AtRest k owner entries m) :
    (Rollup.ofKind owner k.resource.type).Ends m fun r m' => ∃ statuses, r = .ok statuses
      ∧ statuses.Perm ((entries.map (named k owner)).map (healthAt m)) ∧ m' = m.looked 0 1 := by
  unfold Rollup.ofKind
  refine Session.Ends.bind ((Session.ends_listAll h.list).imp ?_)
  rintro _ _ ⟨rfl, rfl⟩
  exact ⟨_, rfl, Session.ends_done ⟨_, rfl, h.perm_health ho hm hnames, rfl⟩⟩

end Kind

variable {owner : Owner} {spec : SetSpec} {m : Memory}

theorem AllAtRest.ends_collect (ho : owner.Plain) (hm : m.Filed) (hd : spec.Distinct)
    (h : AllAtRest owner spec m) :
    (Rollup.collect owner).Ends m fun r m' => ∃ statuses, r = .ok statuses
      ∧ statuses.Perm ((allNamed owner spec).map (healthAt m)) ∧ m' = m.looked 0 3 := by
  unfold Rollup.collect
  refine Session.Ends.bind ((h.helm.ends_ofKind ho hm hd.helm).imp ?_)
  rintro _ _ ⟨helm, rfl, hhelm, rfl⟩
  have hmanifests := (h.manifests.looked 0 1).ends_ofKind ho (hm.looked 0 1) hd.manifests
  refine ⟨helm, rfl, Session.Ends.bind (hmanifests.imp ?_)⟩
  rintro _ _ ⟨manifests, rfl, hmanifests, rfl⟩
  rw [Memory.looked_looked]
  have hissuers := (h.issuers.looked 0 2).ends_ofKind ho (hm.looked 0 2) hd.issuers
  refine ⟨manifests, rfl, Session.Ends.bind (hissuers.imp ?_)⟩
  rintro _ _ ⟨issuers, rfl, hissuers, rfl⟩
  rw [Memory.looked_looked]
  refine ⟨issuers, rfl, Session.ends_done ⟨_, rfl, ?_, rfl⟩⟩
  unfold allNamed
  rw [List.map_append, List.map_append]
  exact (hhelm.append hmanifests).append hissuers

theorem AtRest.stored {π σ : Type} {k : ComponentKind π σ} {entries : List (Entry π)}
    (h : AtRest k owner entries m) : ∀ c ∈ entries.map (named k owner), m.objects.find? c.2 ≠ none := by
  intro c hc
  obtain ⟨e, he, rfl⟩ := List.mem_map.1 hc
  obtain ⟨o, hf, -⟩ := h.threaded.stands e he
  exact Option.ne_none_iff_exists'.2 ⟨o, hf⟩

/-- What is declared is there. -/
theorem AllAtRest.stored (h : AllAtRest owner spec m) :
    ∀ c ∈ allNamed owner spec, m.objects.find? c.2 ≠ none := by
  intro c hc
  unfold allNamed at hc
  rw [List.mem_append, List.mem_append] at hc
  rcases hc with (hc | hc) | hc
  · exact h.helm.stored c hc
  · exact h.manifests.stored c hc
  · exact h.issuers.stored c hc

theorem length_allNamed : (allNamed owner spec).length = spec.count := by
  unfold allNamed SetSpec.count
  simp only [List.length_append, List.length_map]

end Reconcile

namespace Operator

open Reconcile (allNamed healthAt AllAtRest)

variable {set : AddonSet} {owner : Owner} {m m' : Memory} {es : List Event} {summary : Summary}

theorem runs_installSet (howner : ownerOf set = .ok owner) (h : (installSet set).Runs m es (.ok summary) m') :
    ∃ es, (Reconcile.all owner set.spec).Runs m es (.ok summary) m' := by
  unfold installSet at h
  obtain ⟨_, m₁, _, _, ⟨-, hok, rfl⟩, h⟩ := Session.runs_bind_ok h
  obtain rfl := Except.ok.inj (howner.symm.trans hok.symm)
  exact ⟨_, h⟩

section Site

open Reconcile (site siteAfter siteStore siteBefore declared vacant)

attribute [local irreducible] Reconcile.all

def siteSet : AddonSet := { metadata := { name := some "site", ns := some "infra" }, spec := siteAfter }

def failingStatus : Json :=
  .obj [("lastTransitionTime", .str "2024-01-01T00:00:00Z"), ("message", .str "0/1 ready"),
    ("type", .str "Unhealthy")]

/-- The store when one of two components has noted that it fails. -/
def failingStore : Host :=
  { siteStore with memory := (siteStore.memory.mergeStatus (helmAddons.key "two" "web") failingStatus).2 }

def installed : Host := ((installSet siteSet).run failingStore).2

theorem failing_checked :
    (((installSet siteSet).run failingStore).1.toOption.any fun _ => true) = true
      ∧ (((allNamed site siteAfter).map (healthAt installed.memory)).any fun c =>
        c.2.any fun s => s.type = .unhealthy) = true := by
  decide +kernel

theorem failingStore_filed : failingStore.memory.Filed := by
  obtain ⟨_, hbefore⟩ := Session.runs_run (Reconcile.all site siteBefore) vacant
  obtain ⟨_, hafter⟩ := Session.runs_run (Reconcile.all site siteAfter) (declared siteBefore vacant).2
  exact (hafter.filed (hbefore.filed (.of_nil rfl))).mergeStatus _ _

end Site

end Operator

end Addons
