import Addons.Operator.Controller
import Addons.Proofs.Component.Window
import Addons.Proofs.Operator.BadInput
import Mathlib.Data.List.Chain

/-!
# The time between retries

A component that was tried again is left alone for its timeout from when this was noted on it, and the note is the
last thing that a retry does. So two retries are the timeout apart if anything has written the component since the
first began; a retry that is cut short before its note is made again as soon as the component is still unhealthy
(`Operator.retries_spaced`).
-/

namespace Addons

namespace Operator

open Session (runs_bind runs_lift_bind runs_attempt)

variable {ns name : String}

/-- A pass of the controller over a component as it is stored. Any request may fail. -/
structure Visit (ns name : String) where
  env : Surroundings
  addon : ManifestAddon
  found : Memory
  answer : Except Error Unit
  left : Memory
  namespaced : ns ≠ ""
  filed : found.Filed
  /-- The store's clock shows a time that is not before the one at which the pass began. -/
  ticks : found.now.Ticks
  begun : env.now ≤ found.now
  stored : ∃ o, found.object? (manifestAddons.key ns name) = some o ∧ manifestAddons.ofObject o = .ok addon
  ran : ∃ es, (Controller.manifests.install env addon).Runs found es answer left

namespace Visit

/-- The pass removes the component and applies it anew. -/
def Retries (v : Visit ns name) : Prop := v.addon.retryDue v.env.now = .ok true

/-- What the journal says of the pass. -/
def notes (v : Visit ns name) : List Change := v.left.journal.drop v.found.journal.length

/-- The component was created or updated. -/
def Stamps (v : Visit ns name) : Prop := ∃ c ∈ v.notes, c.WritesAt (manifestAddons.key ns name).slot

/-- The retry has failed, and the rest of the pass is to report that. -/
def CutShort (v : Visit ns name) : Prop :=
  ∃ e es fs m, (Bundle.retry v.env.now v.env.render v.addon
      (v.addon.ownerReference? manifestAddons.type)).Runs v.found es (.error e) m
    ∧ ((liftM (renderFailed v.env e) : Session Status) >>=
      writeStatus manifestAddons v.addon v.addon.status).Runs m fs v.answer v.left

/-- The next pass finds the component as this one has left it. -/
def Before (v w : Visit ns name) : Prop :=
  w.found.object? (manifestAddons.key ns name) = v.left.object? (manifestAddons.key ns name)
    ∧ v.env.now ≤ w.env.now

end Visit

/-! ## A retry that gets through -/

/-- A component is in the place that it names. -/
theorem named_of_stored {m : Memory} {o : Object} {r : ManifestAddon} (hns : ns ≠ "") (hm : m.Filed)
    (ho : m.object? (manifestAddons.key ns name) = some o) (hr : manifestAddons.ofObject o = .ok r) :
    r.metadata.name = some name ∧ r.metadata.ns = some ns := by
  obtain ⟨k, hk, hslot⟩ := hm.key_of_find? ho
  obtain ⟨-, hname, hnamespace⟩ := Object.of_key_eq_ok hk
  obtain ⟨hname', hnamespace', -⟩ := Metadata.ofJson?_toJson (ResourceKind.ofObject_eq_ok hr).1
  have hkname : k.name = name := congrArg Slot.name hslot
  have hkns : k.ns.getD "" = ns := congrArg Slot.ns hslot
  refine ⟨by rw [hname', hname, hkname], ?_⟩
  rw [hnamespace', hnamespace]
  cases hnone : k.ns with
  | none =>
    rw [hnone] at hkns
    exact absurd hkns.symm hns
  | some ns' =>
    rw [hnone] at hkns
    exact congrArg some hkns

/-- A retry that succeeds has written the component. -/
theorem runs_retry_ok {now : Instant} {render : Renderer} {addon : ManifestAddon}
    {owner : Option OwnerReference} {report : ApplyReport} {m m' : Memory} {es : List Event} (hns : ns ≠ "")
    (hm : m.Filed) (hid : Bundle.identity addon.metadata = .ok (ns, name))
    (h : (Bundle.retry now render addon owner).Runs m es (.ok report) m') :
    ∃ cs, m.Leaves (manifestAddons.key ns name).slot cs m'
      ∧ ∃ c ∈ cs, c.WritesAt (manifestAddons.key ns name).slot := by
  rcases runs_lift_bind.1 h with ⟨_, hid', h⟩ | ⟨_, -, -, he, -⟩
  swap
  · cases he
  obtain rfl := Except.ok.inj (hid.symm.trans hid')
  obtain ⟨_, m₁, _, _, hremove, h⟩ := Session.runs_bind_ok h
  obtain ⟨_, m₂, _, _, happly, h⟩ := Session.runs_bind_ok h
  obtain ⟨o, m₃, _, _, hrequire, h⟩ := Session.runs_bind_ok h
  rcases runs_lift_bind.1 h with ⟨live, hlive, h⟩ | ⟨_, -, -, he, -⟩
  swap
  · cases he
  obtain ⟨stored, m₄, _, _, hreplace, -, -, rfl⟩ := Session.runs_bind_ok h
  -- the note is put where the component was read
  obtain ⟨-, -, hfound⟩ := Session.runs_require hrequire
  obtain ⟨hname, hnamespace⟩ :=
    named_of_stored hns (happly.filed (hremove.filed hm)) (hfound o rfl) hlive
  obtain ⟨k, hk, hjournal⟩ := Session.runs_replace_noted hreplace
  have hkey : (manifestAddons.toObject (Bundle.stampRetry now live)).key
      = .ok ⟨manifestAddons.type, live.metadata.ns, name⟩ := ResourceKind.key_toObject hname
  rw [hnamespace] at hkey
  obtain rfl := Except.ok.inj (hk.symm.trans hkey)
  obtain ⟨cs₁, h₁⟩ := hremove.leaves (manifestAddons.key ns name).slot
  obtain ⟨cs₂, h₂⟩ := happly.leaves (manifestAddons.key ns name).slot
  obtain ⟨cs₃, h₃⟩ := hrequire.leaves (manifestAddons.key ns name).slot
  obtain ⟨cs₄, h₄⟩ := hreplace.leaves (manifestAddons.key ns name).slot
  obtain rfl := List.append_cancel_left (h₄.journal.symm.trans hjournal)
  exact ⟨_, ((h₁.trans h₂).trans h₃).trans h₄, _, List.mem_append_right _ List.mem_cons_self, _, .inr rfl, rfl⟩

/-- An installation that is to try a component again reports what came of the retry. -/
theorem runs_install_due {env : Surroundings} {addon : ManifestAddon} {a : Except Error Status}
    {m m' : Memory} {es : List Event} (hns : addon.metadata.ns = some ns)
    (hdue : addon.retryDue env.now = .ok true) (h : (installManifest env addon).Runs m es a m') :
    ∃ r m₁ es₁ es₂, (Bundle.retry env.now env.render addon (addon.ownerReference? manifestAddons.type)).Runs m
        es₁ r m₁
      ∧ Session.Runs (match r with
        | .ok report => awaitWorkloads env report.objects
        | .error e => (liftM (renderFailed env e) : Session Status)) m₁ es₂ a m' := by
  unfold installManifest at h
  rw [Resource.namespaceOf_eq_ok hns] at h
  rcases runs_lift_bind.1 h with ⟨_, -, h⟩ | ⟨_, he, -⟩
  swap
  · cases he
  rw [hdue] at h
  rcases runs_lift_bind.1 h with ⟨_, ⟨rfl⟩, h⟩ | ⟨_, he, -⟩
  swap
  · cases he
  rw [if_pos rfl] at h
  rcases runs_bind.1 h with ⟨r, m₁, es₁, es₂, h₁, rfl, h₂⟩ | ⟨e, h₁, -⟩
  · obtain ⟨_, ⟨rfl⟩, hmeasured⟩ := runs_attempt.1 h₁
    refine ⟨r, m₁, es₁, es₂, runs_of_measure hmeasured, ?_⟩
    cases r <;> exact h₂
  · obtain ⟨_, he, -⟩ := runs_attempt.1 h₁
    cases he

namespace Visit

variable {v w : Visit ns name}

theorem named (v : Visit ns name) : v.addon.metadata.name = some name ∧ v.addon.metadata.ns = some ns := by
  obtain ⟨o, ho, hread⟩ := v.stored
  exact named_of_stored v.namespaced v.filed ho hread

/-- What a pass leaves of the component, by whether it has written it. -/
theorem leaves (v : Visit ns name) : ∃ cs, v.found.Leaves (manifestAddons.key ns name).slot cs v.left
    ∧ (v.Stamps ↔ ∃ c ∈ cs, c.WritesAt (manifestAddons.key ns name).slot) := by
  obtain ⟨es, hran⟩ := v.ran
  obtain ⟨cs, h⟩ := hran.leaves (manifestAddons.key ns name).slot
  refine ⟨cs, h, ?_⟩
  unfold Stamps notes
  rw [h.journal, List.drop_left]

/-- A retry that does not write the component was cut short. -/
theorem stamps_or_cutShort (hv : v.Retries) : v.Stamps ∨ v.CutShort := by
  obtain ⟨es, hran⟩ := v.ran
  obtain ⟨cs, hleaves, hstamps⟩ := v.leaves
  obtain ⟨hname, hns⟩ := v.named
  have hid : Bundle.identity v.addon.metadata = .ok (ns, name) := Bundle.identity_eq_ok hns hname
  obtain ⟨a, m₁, es₁, es₂, hinstall, -, hwrite⟩ := Session.runs_andThen.1 hran
  obtain ⟨r, m₂, fs₁, fs₂, hretry, hrest⟩ := runs_install_due hns hv hinstall
  cases r with
  | error e => exact .inr ⟨e, fs₁, _, m₂, hretry, Session.runs_andThen.2 ⟨a, m₁, fs₂, es₂, hrest, rfl, hwrite⟩⟩
  | ok report =>
    obtain ⟨cs₁, h₁, c, hc, hwrites⟩ := runs_retry_ok v.namespaced v.filed hid hretry
    obtain ⟨cs₂, h₂⟩ := hrest.leaves (manifestAddons.key ns name).slot
    obtain ⟨cs₃, h₃⟩ := hwrite.leaves (manifestAddons.key ns name).slot
    have hall := (h₁.trans h₂).trans h₃
    obtain rfl := List.append_cancel_left (hleaves.journal.symm.trans hall.journal)
    exact .inl (hstamps.2 ⟨c, List.mem_append_left _ (List.mem_append_left _ hc), hwrites⟩)

/-- What the next pass finds of the component: it was written by this one, or it is as this one has found it but
for its status. -/
theorem found_next (h : v.Before w) {o' : Object}
    (ho' : w.found.object? (manifestAddons.key ns name) = some o') :
    (v.Stamps → o'.metadata.managedFields = some (Memory.stamp v.found.now))
      ∧ (¬v.Stamps → ∃ o, v.found.object? (manifestAddons.key ns name) = some o ∧ o.Retained o') := by
  obtain ⟨cs, hleaves, hstamps⟩ := v.leaves
  have hleft : v.left.objects.find? (manifestAddons.key ns name).slot = some o' := h.1.symm.trans ho'
  exact ⟨fun hv => hleaves.written o' hleft (hstamps.1 hv), fun hv => hleaves.spared o' hleft
    fun c hc hwrites => hv (hstamps.2 ⟨c, hc, hwrites⟩)⟩

/-- What a pass finds of the component after some others: it was written since the first began, or it is as the
first has found it but for its status. -/
theorem found_after {vs : List (Visit ns name)} (h : List.IsChain Before (v :: (vs ++ [w]))) {o' : Object}
    (ho' : w.found.object? (manifestAddons.key ns name) = some o') :
    v.env.now ≤ w.env.now
      ∧ ((∃ u ∈ v :: vs, u.Stamps) → ∃ t : Instant, t.Ticks ∧ v.env.now ≤ t
        ∧ o'.metadata.managedFields = some (Memory.stamp t))
      ∧ ((∀ u ∈ v :: vs, ¬u.Stamps) →
        ∃ o, v.found.object? (manifestAddons.key ns name) = some o ∧ o.Retained o') := by
  induction vs generalizing v with
  | nil =>
    obtain ⟨hnext, -⟩ := List.isChain_cons_cons.1 h
    obtain ⟨hwritten, hspared⟩ := found_next hnext ho'
    refine ⟨hnext.2, ?_, fun hnone => hspared (hnone v List.mem_cons_self)⟩
    rintro ⟨u, hu, hstamps⟩
    obtain rfl := List.mem_singleton.1 hu
    exact ⟨_, u.ticks, u.begun, hwritten hstamps⟩
  | cons u us ih =>
    obtain ⟨hnext, hrest⟩ := List.isChain_cons_cons.1 h
    obtain ⟨hlater, hwritten, hspared⟩ := ih hrest
    refine ⟨Instant.le_trans hnext.2 hlater, fun hsome => ?_, fun hnone => ?_⟩
    · by_cases hafter : ∃ u' ∈ u :: us, u'.Stamps
      · obtain ⟨t, hticks, hbegun, hmanaged⟩ := hwritten hafter
        exact ⟨t, hticks, Instant.le_trans hnext.2 hbegun, hmanaged⟩
      · -- only the first pass has written the component, and what it left was kept
        obtain ⟨o, ho, hretained⟩ := hspared fun u' hu' hstamps => hafter ⟨u', hu', hstamps⟩
        obtain ⟨u', hu', hstamps⟩ := hsome
        rcases List.mem_cons.1 hu' with rfl | hu'
        · exact ⟨_, u'.ticks, u'.begun, hretained.managed.trans ((found_next hnext ho).1 hstamps)⟩
        · exact absurd ⟨u', hu', hstamps⟩ hafter
    · obtain ⟨o, ho, hretained⟩ := hspared fun u' hu' => hnone u' (List.mem_cons_of_mem v hu')
      obtain ⟨o₀, ho₀, hretained₀⟩ := (found_next hnext ho).2 (hnone v List.mem_cons_self)
      exact ⟨o₀, ho₀, hretained₀.trans hretained⟩

end Visit

/-- Of two retries the later comes the timeout after the earlier, in whole seconds, if the component was written
since the earlier began. It was not only if the earlier one was cut short; then the component is tried again as
soon as it is found unhealthy. -/
theorem retries_spaced {v w : Visit ns name} {vs : List (Visit ns name)}
    (h : List.IsChain Visit.Before (v :: (vs ++ [w]))) (hv : v.Retries) :
    (v.Stamps ∨ v.CutShort)
      ∧ ((∃ u ∈ v :: vs, u.Stamps) → w.Retries →
        ∃ timeout, w.addon.spec.timeout = some timeout ∧ v.env.now.truncate.add timeout ≤ w.env.now)
      ∧ ((∀ u ∈ v :: vs, ¬u.Stamps) → (w.Retries ↔ w.addon.status.map Status.type = some .unhealthy)) := by
  obtain ⟨o, ho, hread⟩ := v.stored
  obtain ⟨o', ho', hread'⟩ := w.stored
  obtain ⟨hlater, hwritten, hspared⟩ := Visit.found_after h ho'
  refine ⟨Visit.stamps_or_cutShort hv, fun hstamps hw => ?_, fun hnone => ⟨fun hw => ?_, fun hunhealthy => ?_⟩⟩
  · obtain ⟨t, hticks, hbegun, hmanaged⟩ := hwritten hstamps
    have hchanged := Metadata.lastSpecChange?_of_stamp hticks (ResourceKind.ofObject_eq_ok hread').1 hmanaged
    obtain ⟨-, -, timeout, htimeout, -, hdue⟩ := Resource.retryDue_eq_true_iff.1 hw
    exact ⟨timeout, htimeout, Instant.le_trans (hticks.truncate_add_le hbegun timeout) (hdue _ hchanged).2⟩
  · exact (Resource.retryDue_eq_true_iff.1 hw).2.1
  · obtain ⟨o₀, ho₀, hretained⟩ := hspared hnone
    obtain rfl := Option.some.inj (ho.symm.trans ho₀)
    obtain ⟨hspec, hchanged⟩ := hretained.read hread hread'
    obtain ⟨hpolicy, -, timeout, htimeout, hfits, hdue⟩ := Resource.retryDue_eq_true_iff.1 hv
    rw [← hspec] at hpolicy htimeout
    rw [← hchanged] at hdue
    exact Resource.retryDue_eq_true_iff.2 ⟨hpolicy, hunhealthy, timeout, htimeout, hfits,
      fun changed hc => ⟨(hdue changed hc).1, Instant.le_trans (hdue changed hc).2 hlater⟩⟩

section Unnoted

open Addons.Bundle (echo levelSlot)

/-- A day after the start of the calendar, and of the component. -/
def dayLater : Surroundings := { now := ⟨86400, 0⟩, render := echo }

/-- A store with a failing component, a day old. -/
def aged : Memory :=
  match Memory.seed { now := default } (manifestAddons.toObject (failing .retry)) with
  | .ok (_, m) => { m with now := dayLater.now }
  | .error _ => { now := dayLater.now }

/-- The component is applied, and the next update of it will fail. -/
def brittle : Host :=
  let h := ((Bundle.apply echo "default" "metrics" (failing .retry).spec none).run { memory := aged }).2
  { h with memory := h.memory.failOn .update "ManifestAddon" }

/-- The store after the controller has passed over the component. -/
def passed (h : Host) : Host :=
  match Controller.manifests.current h (manifestAddons.key "default" "metrics") with
  | some addon => ((Controller.manifests.install dayLater addon).run h).2
  | none => h

/-- The component that is found is to be tried again, a minute after its last change. -/
def dueIn (h : Host) : Bool :=
  (Controller.manifests.current h (manifestAddons.key "default" "metrics")).any fun addon =>
    addon.spec.timeout = some (.ofSeconds 60) && (addon.retryDue dayLater.now).toOption = some true

/-- What a pass has noted. -/
def notesOf (h : Host) : List Change := (passed h).memory.journal.drop h.memory.journal.length

attribute [local irreducible] Bundle.apply

theorem unnoted_checked :
    dueIn brittle = true ∧ dueIn (passed brittle) = true
      ∧ brittle.memory.now = dayLater.now ∧ (passed brittle).memory.now = dayLater.now
      ∧ .delete ⟨⟨"v1", "ConfigMap"⟩, some "default", "a"⟩ ∈ notesOf brittle
      ∧ .delete ⟨⟨"v1", "ConfigMap"⟩, some "default", "a"⟩ ∈ notesOf (passed brittle)
      ∧ ((notesOf brittle).all fun c => c.key.type.kind != "ManifestAddon") = true := by
  decide +kernel

theorem aged_filed : aged.Filed := by
  unfold aged
  split
  · rename_i hseed
    have hfiled := Memory.Filed.seed (.of_nil rfl) hseed
    exact hfiled.of_objects rfl le_rfl
  · exact .of_nil rfl

theorem brittle_filed : brittle.memory.Filed := by
  obtain ⟨es, h⟩ :=
    Session.runs_run (Bundle.apply echo "default" "metrics" (failing .retry).spec none) { memory := aged }
  exact (h.filed aged_filed).of_objects rfl le_rfl

theorem passed_filed {h : Host} (hm : h.memory.Filed) : (passed h).memory.Filed := by
  unfold passed
  split
  · rename_i addon _
    obtain ⟨es, hrun⟩ := Session.runs_run (Controller.manifests.install dayLater addon) h
    exact hrun.filed hm
  · exact hm

/-- A pass over a component that is due is a visit that tries it again. -/
theorem exists_visit {h : Host} (hm : h.memory.Filed) (hnow : h.memory.now = dayLater.now)
    (hdue : dueIn h = true) : ∃ v : Visit "default" "metrics", v.env = dayLater ∧ v.found = h.memory
      ∧ v.left = (passed h).memory ∧ v.Retries ∧ v.addon.spec.timeout = some (.ofSeconds 60) := by
  obtain ⟨addon, haddon, hchecked⟩ := (Option.any_eq_true ..).1 hdue
  rw [Bool.and_eq_true, decide_eq_true_eq, decide_eq_true_eq] at hchecked
  obtain ⟨htimeout, hretry⟩ := hchecked
  obtain ⟨o, ho, hread⟩ := Option.bind_eq_some_iff.1 haddon
  have hread : manifestAddons.ofObject o = .ok addon := ok_of_toOption hread
  have hleft : (passed h).memory = ((Controller.manifests.install dayLater addon).run h).2.memory := by
    unfold passed
    rw [haddon]
  have hticks : dayLater.now.Ticks := ⟨rfl, rfl⟩
  refine ⟨{
    env := dayLater
    addon := addon
    found := h.memory
    answer := ((Controller.manifests.install dayLater addon).run h).1
    left := ((Controller.manifests.install dayLater addon).run h).2.memory
    namespaced := by decide
    filed := hm
    ticks := hnow ▸ hticks
    begun := hnow ▸ Instant.le_iff.2 (.inr ⟨rfl, le_rfl⟩)
    stored := ⟨o, ho, hread⟩
    ran := Session.runs_run _ h }, rfl, rfl, hleft.symm, ok_of_toOption hretry, htimeout⟩

/-- Two passes at one time, of which the first cannot note its retry. -/
theorem exists_twice : ∃ v w : Visit "default" "metrics", v.Before w ∧ v.Retries ∧ w.Retries
    ∧ v.env = dayLater ∧ w.env = dayLater ∧ v.notes = notesOf brittle ∧ w.notes = notesOf (passed brittle)
    ∧ w.addon.spec.timeout = some (.ofSeconds 60) := by
  obtain ⟨hdue, hdue', hnow, hnow', -⟩ := unnoted_checked
  obtain ⟨v, hv, hvfound, hvleft, hvretries, -⟩ := exists_visit brittle_filed hnow hdue
  obtain ⟨w, hw, hwfound, hwleft, hwretries, htimeout⟩ := exists_visit (passed_filed brittle_filed) hnow' hdue'
  refine ⟨v, w, ⟨by rw [hwfound, hvleft], ?_⟩, hvretries, hwretries, hv, hw, ?_, ?_, htimeout⟩
  · rw [hv, hw]
    exact Instant.le_iff.2 (.inr ⟨rfl, le_rfl⟩)
  · unfold Visit.notes notesOf
    rw [hvleft, hvfound]
  · unfold Visit.notes notesOf
    rw [hwleft, hwfound]

/-- A retry that was not noted was cut short, and the next pass tries again. -/
theorem unnoted_retry_repeated : ∃ v w : Visit "default" "metrics", List.IsChain Visit.Before [v, w]
    ∧ v.Retries ∧ ¬v.Stamps ∧ v.CutShort ∧ w.addon.status.map Status.type = some .unhealthy ∧ w.Retries := by
  obtain ⟨v, w, hbefore, hv, hw, -, -, hnotes, -, -⟩ := exists_twice
  have hchain : List.IsChain Visit.Before (v :: ([] ++ [w])) := List.isChain_pair.2 hbefore
  have hnone : ¬v.Stamps := by
    rintro ⟨c, hc, k, hwrites, hslot⟩
    obtain ⟨-, -, -, -, -, -, hothers⟩ := unnoted_checked
    have hkind := List.all_eq_true.1 hothers c (hnotes ▸ hc)
    rw [hwrites.key_eq] at hkind
    exact bne_iff_ne.1 hkind (congrArg Slot.kind hslot)
  obtain ⟨hcut, -, hiff⟩ := retries_spaced hchain hv
  have hall : ∀ u ∈ v :: [], ¬u.Stamps := fun u hu => List.mem_singleton.1 hu ▸ hnone
  exact ⟨v, w, hchain, hv, hnone, hcut.resolve_left hnone, (hiff hall).1 hw, (hiff hall).2 ((hiff hall).1 hw)⟩

/-- The objects of a component are deleted for a retry in two passes at one time. -/
theorem retried_twice_at_once : ∃ v w : Visit "default" "metrics", v.Before w ∧ v.Retries ∧ w.Retries
    ∧ .delete ⟨⟨"v1", "ConfigMap"⟩, some "default", "a"⟩ ∈ v.notes
    ∧ .delete ⟨⟨"v1", "ConfigMap"⟩, some "default", "a"⟩ ∈ w.notes
    ∧ ∃ timeout, w.addon.spec.timeout = some timeout ∧ ¬v.env.now.truncate.add timeout ≤ w.env.now := by
  obtain ⟨v, w, hbefore, hv, hw, hvenv, hwenv, hvnotes, hwnotes, htimeout⟩ := exists_twice
  obtain ⟨-, -, -, -, hdelete, hdelete', -⟩ := unnoted_checked
  refine ⟨v, w, hbefore, hv, hw, hvnotes ▸ hdelete, hwnotes ▸ hdelete', _, htimeout, ?_⟩
  rw [hvenv, hwenv]
  decide

end Unnoted

end Operator

end Addons
