import Addons.Operator.Install
import Addons.Proofs.Bundle.Frame
import Addons.Proofs.Bundle.Strays

/-!
# Input that is at fault

A manifest component whose source cannot be fetched, patched, read or prepared is left alone by an
installation, unless it is to be tried again: then it is removed before its source is looked at, and what is
left is what a removal leaves (`Operator.bad_input_spares`).
-/

namespace Addons

namespace Bundle

variable {ns name : String} {m m' : Memory} {es : List Event} {render : Renderer} {spec : ManifestSpec}
variable {owner : Option OwnerReference} {e : Error}

/-- A removal of a component came to a result, and nothing else was done. -/
structure Cleared (ns name : String) (m : Memory) (es : List Event) (r : Except Error Nat) (m' : Memory) :
    Prop where
  run : (remove ns name).Runs m es r m'
  /-- Nothing was created or updated, and what was deleted is the record or tracked by it. -/
  noted : m.Noted (Removes ns name m) es m'
  /-- Every other object is as it was. -/
  spared : ∀ s, m'.objects.find? s = m.objects.find? s
    ∨ m'.objects.find? s = none ∧ (s = own ns name ∨ ∃ t ∈ trackedIn ns name m, t.slot = s)
  /-- A removal that gets through leaves nothing of the component. -/
  gone : ∀ n, r = .ok n → ∀ s, m'.objects.find? s ≠ none
    ↔ m.objects.find? s ≠ none ∧ s ≠ own ns name ∧ ∀ t ∈ trackedIn ns name m, t.slot ≠ s

theorem Cleared.of_runs {r : Except Error Nat} (h : (remove ns name).Runs m es r m') :
    Cleared ns name m es r m' := by
  refine ⟨h, does_remove es r m' h, runs_remove_spares h, ?_⟩
  rintro n rfl
  exact (runs_remove_ok h).2

/-- An apply of a source that is at fault asks for nothing. -/
theorem runs_apply_of_error {a : Except Error ApplyReport} (hbad : documents render ns name spec = .error e)
    (h : (apply render ns name spec owner).Runs m es a m') : es = [] ∧ a = .error e ∧ m' = m := by
  rcases Session.runs_lift_bind.1 h with ⟨bytes, hbytes, h⟩ | ⟨e', he', rfl, rfl, rfl⟩
  · rcases Session.runs_lift_bind.1 h with ⟨rendered, hrendered, -⟩ | ⟨e', he', rfl, rfl, rfl⟩
    · have hok : documents render ns name spec = .ok rendered := documents_eq_ok.2 ⟨bytes, hbytes, hrendered⟩
      rw [hbad] at hok
      cases hok
    · unfold documents at hbad
      rw [hbytes] at hbad
      exact ⟨rfl, congrArg _ (Except.error.inj (he'.symm.trans hbad)), rfl⟩
  · unfold documents at hbad
    rw [he'] at hbad
    exact ⟨rfl, congrArg _ (Except.error.inj hbad), rfl⟩

/-- A retry of a source that is at fault is a removal, and fails with the removal or with the source. -/
theorem runs_retry_of_error {now : Instant} {addon : ManifestAddon} {a : Except Error ApplyReport}
    (hns : addon.metadata.ns = some ns) (hname : addon.metadata.name = some name)
    (hbad : documents render ns name addon.spec = .error e)
    (h : (retry now render addon owner).Runs m es a m') :
    (∃ n, Cleared ns name m es (.ok n) m' ∧ a = .error e)
      ∨ ∃ e', Cleared ns name m es (.error e') m' ∧ a = .error e' := by
  have hidentity : identity addon.metadata = .ok (ns, name) := by
    unfold identity
    rw [hns, hname]
  unfold retry at h
  rw [hidentity] at h
  rcases Session.runs_lift_bind.1 h with ⟨_, ⟨rfl⟩, h⟩ | ⟨_, he, -⟩
  swap
  · cases he
  rcases Session.runs_bind.1 h with ⟨n, m₁, es₁, es₂, h₁, rfl, h₂⟩ | ⟨e', h₁, rfl⟩
  swap
  · exact .inr ⟨e', .of_runs h₁, rfl⟩
  rcases Session.runs_bind.1 h₂ with ⟨report, _, _, _, h₃, -, -⟩ | ⟨e', h₃, rfl⟩
  · obtain ⟨-, he, -⟩ := runs_apply_of_error hbad h₃
    cases he
  · obtain ⟨rfl, he, rfl⟩ := runs_apply_of_error hbad h₃
    rw [List.append_nil]
    exact .inl ⟨n, .of_runs h₁, he⟩

end Bundle

namespace Operator

variable {α : Type} {m m' : Memory} {es : List Event}

/-- Measuring a session does not change what it does. -/
theorem runs_of_measure {component : String} {install : Bool} {asked : Except Error α → Bool}
    {s : Session α} {a : Except Error α} (h : (measure component install asked s).Runs m es a m') :
    s.Runs m es a m' := by
  unfold measure at h
  rcases Session.runs_bind.1 h with ⟨r, m₁, es₁, es₂, h₁, rfl, h₂⟩ | ⟨e, h₁, -⟩
  · obtain ⟨_, ⟨rfl⟩, hrun⟩ := Session.runs_attempt.1 h₁
    dsimp only at h₂
    by_cases hasked : asked r
    · rw [if_pos hasked] at h₂
      obtain ⟨rfl, rfl, rfl⟩ := h₂
      rw [List.append_nil]
      exact hrun
    · rw [if_neg hasked] at h₂
      obtain ⟨rfl, rfl, rfl⟩ := h₂
      rw [List.append_nil]
      exact hrun
  · obtain ⟨_, he, -⟩ := Session.runs_attempt.1 h₁
    cases he

/-- What is measured and fails, where the failure is only reported, leaves what it left. -/
theorem runs_of_measured_error {β : Type} {component : String} {install : Bool}
    {asked : Except Error α → Bool} {s : Session α} {f : Except Error α → Session β}
    {g : Error → Except Error β} {b : Except Error β}
    (h : ((measure component install asked s).attempt >>= f).Runs m es b m')
    (hf : ∀ e, f (.error e) = Session.done (g e))
    (hs : ∀ a es m', s.Runs m es a m' → ∃ e, a = .error e) :
    ∃ e, s.Runs m es (.error e) m' ∧ b = g e := by
  rcases Session.runs_bind.1 h with ⟨r, m₁, es₁, es₂, h₁, rfl, h₂⟩ | ⟨e, h₁, -⟩
  · obtain ⟨_, ⟨rfl⟩, hmeasured⟩ := Session.runs_attempt.1 h₁
    have hrun := runs_of_measure hmeasured
    obtain ⟨e, rfl⟩ := hs _ _ _ hrun
    rw [hf] at h₂
    obtain ⟨rfl, hb, rfl⟩ := h₂
    rw [List.append_nil]
    exact ⟨e, hrun, hb⟩
  · obtain ⟨_, he, -⟩ := Session.runs_attempt.1 h₁
    cases he

/-- A component whose input is at fault is left alone by an installation, unless it is to be tried again. Then
the installation is a removal: one that gets through, so that the fault of the input is reported, or one that
fails before. -/
theorem bad_input_spares {env : Surroundings} {addon : ManifestAddon} {ns name : String} {e : Error}
    {a : Except Error Status} (hns : addon.metadata.ns = some ns) (hname : addon.metadata.name = some name)
    (hbad : Bundle.documents env.render ns name addon.spec = .error e)
    (h : (installManifest env addon).Runs m es a m') :
    (addon.retryDue env.now ≠ .ok true → m' = m)
      ∧ (addon.retryDue env.now = .ok true →
        (∃ n, Bundle.Cleared ns name m es (.ok n) m' ∧ a = renderFailed env e)
          ∨ ∃ e', Bundle.Cleared ns name m es (.error e') m' ∧ a = renderFailed env e') := by
  have hnamespace : addon.namespaceOf manifestAddons.kind = .ok ns := by
    unfold Resource.namespaceOf
    rw [hns]
  have hnamed : addon.name = name := by
    unfold Resource.name
    rw [hname]
    rfl
  unfold installManifest at h
  rw [hnamespace, hnamed] at h
  rcases Session.runs_lift_bind.1 h with ⟨_, ⟨rfl⟩, h⟩ | ⟨_, he, -⟩
  swap
  · cases he
  rcases Session.runs_lift_bind.1 h with ⟨due, hdue, h⟩ | ⟨e', hdue, rfl, rfl, rfl⟩
  · rw [hdue]
    cases due with
    | true =>
      rw [if_pos rfl] at h
      refine ⟨fun hne => absurd rfl hne, fun _ => ?_⟩
      obtain ⟨e₀, hretry, ha⟩ := runs_of_measured_error h (fun _ => rfl) fun _ _ _ hr => by
        rcases Bundle.runs_retry_of_error hns hname hbad hr with ⟨-, -, he⟩ | ⟨e', -, he⟩
        · exact ⟨e, he⟩
        · exact ⟨e', he⟩
      rcases Bundle.runs_retry_of_error hns hname hbad hretry with ⟨n, hcleared, he⟩ | ⟨e', hcleared, he⟩
      · exact .inl ⟨n, hcleared, Except.error.inj he ▸ ha⟩
      · exact .inr ⟨e', hcleared, Except.error.inj he ▸ ha⟩
    | false =>
      rw [if_neg Bool.false_ne_true] at h
      refine ⟨fun _ => ?_, fun h => nomatch h⟩
      obtain ⟨_, happly, -⟩ := runs_of_measured_error h (fun _ => rfl) fun _ _ _ hr =>
        ⟨e, (Bundle.runs_apply_of_error hbad hr).2.1⟩
      exact (Bundle.runs_apply_of_error hbad happly).2.2
  · rw [hdue]
    exact ⟨fun _ => rfl, fun h => nomatch h⟩

section Unreachable

open Addons.Bundle (applied levelOne levelSlot)

/-- A store that a component has been applied to. -/
def running : Host := (applied levelOne { memory := { now := default } }).2

/-- The sources cannot be reached any more. -/
def cutOff : Surroundings := { now := default, render := fun url _ _ => .error (.fetch url 503) }

/-- The component, whose workloads are found not to serve. -/
def failing (policy : FailurePolicy) : ManifestAddon :=
  { metadata := { name := some "metrics", ns := some "default" }
    spec := { levelOne with failurePolicy := policy, timeout := some (.ofSeconds 60) }
    status := some (.unhealthy default "DaemonSetUnavailable" "0/3 available") }

theorem unreachable_source_spared :
    ((installManifest cutOff (failing .ignore)).run running).2.memory = running.memory
      ∧ ∃ es r, Bundle.Cleared "default" "metrics" running.memory es r
        ((installManifest cutOff (failing .retry)).run running).2.memory := by
  obtain ⟨es₁, h₁⟩ := Session.runs_run (installManifest cutOff (failing .ignore)) running
  obtain ⟨es₂, h₂⟩ := Session.runs_run (installManifest cutOff (failing .retry)) running
  have hwaits : (failing .ignore).retryDue cutOff.now ≠ .ok true := fun h => nomatch h
  have hdue : (failing .retry).retryDue cutOff.now = .ok true := rfl
  refine ⟨(bad_input_spares rfl rfl rfl h₁).1 hwaits, es₂, ?_⟩
  rcases (bad_input_spares rfl rfl rfl h₂).2 hdue with ⟨n, hcleared, -⟩ | ⟨e', hcleared, -⟩
  · exact ⟨_, hcleared⟩
  · exact ⟨_, hcleared⟩

theorem running_checked :
    (running.memory.objects.find? levelSlot).isSome = true
      ∧ (((installManifest cutOff (failing .retry)).run running).2.memory.objects.find? levelSlot).isSome
        = false := by
  decide +kernel

/-- A component that is to be tried again loses what is running when its source cannot be reached. -/
theorem retried_component_lost :
    ∃ e es a m, Bundle.documents cutOff.render "default" "metrics" (failing .retry).spec = .error e
      ∧ (installManifest cutOff (failing .retry)).Runs running.memory es a m
      ∧ running.memory.objects.find? levelSlot ≠ none ∧ m.objects.find? levelSlot = none := by
  obtain ⟨hthere, hgone⟩ := running_checked
  obtain ⟨es, h⟩ := Session.runs_run (installManifest cutOff (failing .retry)) running
  refine ⟨_, es, _, _, rfl, h, Option.isSome_iff_ne_none.1 hthere, ?_⟩
  rw [← Option.not_isSome_iff_eq_none, hgone]
  exact Bool.false_ne_true

end Unreachable

end Operator

end Addons
