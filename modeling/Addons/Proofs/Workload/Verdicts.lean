import Addons.Workload.Health
import Mathlib.Data.List.Forall2
import Mathlib.Logic.Basic

/-!
# What the health of workloads comes from

A class of workloads can do two things to the health of a component: it fails (`Health.Fails`) or waits
(`Health.Waits`). Both are about which workloads there are and not about their order, and they say what type the
status has (`Health.type_aggregate`); only for the blame it matters who comes first. The same holds of one deployment
and its conditions, which are hard failures, rollouts that go on, or neither.
-/

namespace Addons

namespace Verdict

variable {v : Verdict} {vs : List Verdict} {reason message : String}

def IsFailed (v : Verdict) : Prop := ∃ reason message, v = .failed reason message

@[simp] theorem isFailed_failed : (failed reason message).IsFailed := ⟨reason, message, rfl⟩

@[simp] theorem not_isFailed_ready : ¬ready.IsFailed := nofun

@[simp] theorem not_isFailed_progressing : ¬progressing.IsFailed := nofun

theorem eq_progressing_iff : v = .progressing ↔ ¬v.IsFailed ∧ v ≠ .ready := by
  cases v <;> simp

/-- The reason and message of a failure. -/
def failure? : Verdict → Option (String × String)
  | .failed reason message => some (reason, message)
  | _ => none

theorem failure?_eq_some_iff : v.failure? = some (reason, message) ↔ v = .failed reason message := by
  cases v <;> simp [failure?]

theorem failure?_eq_none_iff : v.failure? = none ↔ ¬v.IsFailed := by
  cases v <;> simp [failure?]

theorem firstFailure?_eq (vs : List Verdict) : firstFailure? vs = vs.findSome? failure? := rfl

theorem firstFailure?_eq_some_iff : firstFailure? vs = some (reason, message) ↔
    ∃ before v after, vs = before ++ v :: after ∧ v = .failed reason message ∧ ∀ b ∈ before, ¬b.IsFailed := by
  simp only [firstFailure?_eq, List.findSome?_eq_some_iff, failure?_eq_some_iff, failure?_eq_none_iff]

theorem firstFailure?_eq_none_iff : firstFailure? vs = none ↔ ∀ v ∈ vs, ¬v.IsFailed := by
  simp only [firstFailure?_eq, List.findSome?_eq_none_iff, failure?_eq_none_iff]

end Verdict

/-! ## Conditions -/

namespace Condition

variable {c : Condition}

/-- A rollout that has missed its deadline. -/
def Overdue (c : Condition) : Prop := c.type = "Progressing" ∧ c.reason = some "ProgressDeadlineExceeded"

/-- A rollout that is complete. -/
def RolledOut (c : Condition) : Prop :=
  c.type = "Progressing" ∧ c.status = "True" ∧ c.reason = some "NewReplicaSetAvailable"

def Up (c : Condition) : Prop := c.type = "Available" ∧ c.status = "True"

def ShortOfReplicas (c : Condition) : Prop := c.reason = some "MinimumReplicasUnavailable"

/-- An overdue rollout, or what is not about a rollout and neither fine nor a wait for replicas. -/
def HardFailure (c : Condition) : Prop :=
  c.Overdue ∨ (c.type ≠ "Progressing" ∧ ¬c.Up ∧ ¬c.ShortOfReplicas)

/-- A rollout that is neither overdue nor complete, or another wait for replicas. -/
def StillRolling (c : Condition) : Prop :=
  (c.type = "Progressing" ∧ ¬c.Overdue ∧ ¬c.RolledOut) ∨ (c.type ≠ "Progressing" ∧ ¬c.Up ∧ c.ShortOfReplicas)

theorem reason_getD_eq_iff {s : String} (hs : s ≠ "") : c.reason.getD "" = s ↔ c.reason = some s := by
  cases c.reason with
  | none => simpa using hs.symm
  | some r => simp

/-- The three things that a condition can say. -/
theorem verdict_cases (c : Condition) :
    (c.HardFailure ∧ ¬c.StillRolling ∧ c.verdict = verdict.failure c)
      ∨ (¬c.HardFailure ∧ c.StillRolling ∧ c.verdict = .progressing)
      ∨ (¬c.HardFailure ∧ ¬c.StillRolling ∧ c.verdict = .ready) := by
  have hreason (s : String) (hs : s ≠ "") := reason_getD_eq_iff (c := c) hs
  unfold verdict HardFailure StillRolling Overdue RolledOut Up ShortOfReplicas
  simp only [hreason "ProgressDeadlineExceeded" (by decide), hreason "NewReplicaSetAvailable" (by decide),
    hreason "MinimumReplicasUnavailable" (by decide)]
  -- A condition of a rollout is never about availability, so the order in which the two are asked for is free.
  by_cases hrollout : c.type = "Progressing"
  · by_cases hoverdue : c.reason = some "ProgressDeadlineExceeded"
    · simp [hrollout, hoverdue]
    · by_cases hdone : c.status = "True" ∧ c.reason = some "NewReplicaSetAvailable"
      · simp [hrollout, hdone]
      · simp [hrollout, hoverdue, hdone]
  · by_cases hup : c.type = "Available" ∧ c.status = "True"
    · simp [hup]
    · by_cases hshort : c.reason = some "MinimumReplicasUnavailable"
      · simp [hrollout, hup, hshort]
      · simp [hrollout, hup, hshort]

theorem isFailed_verdict_iff : c.verdict.IsFailed ↔ c.HardFailure := by
  rcases verdict_cases c with ⟨h, -, hv⟩ | ⟨h, -, hv⟩ | ⟨h, -, hv⟩ <;> simp [h, hv, verdict.failure]

theorem verdict_eq_progressing_iff : c.verdict = .progressing ↔ c.StillRolling := by
  rcases verdict_cases c with ⟨-, h, hv⟩ | ⟨-, h, hv⟩ | ⟨-, h, hv⟩ <;> simp [h, hv, verdict.failure]

end Condition

/-! ## Deployments -/

namespace Deployment

variable {d d' : Deployment}

def conditions (d : Deployment) : List Condition := (d.status.map DeploymentStatus.conditions).getD []

theorem verdict_of_failure {reason message : String}
    (h : Verdict.firstFailure? (d.conditions.map Condition.verdict) = some (reason, message)) :
    d.verdict = .failed reason message := by
  unfold conditions at h
  unfold verdict
  simp only [h]

theorem verdict_of_no_failure (h : Verdict.firstFailure? (d.conditions.map Condition.verdict) = none) :
    d.verdict = if (d.conditions.map Condition.verdict).contains .progressing || d.available != d.desired
      then .progressing else .ready := by
  unfold conditions at h
  unfold verdict
  simp only [h]
  rfl

/-- A deployment fails with its first hard failure. Without one it waits for a rollout or for replicas, or is
ready. -/
theorem verdict_cases (d : Deployment) :
    (∃ before c after, d.conditions = before ++ c :: after ∧ c.HardFailure ∧ (∀ b ∈ before, ¬b.HardFailure)
        ∧ d.verdict = c.verdict)
      ∨ ((∀ c ∈ d.conditions, ¬c.HardFailure) ∧ ((∃ c ∈ d.conditions, c.StillRolling) ∨ d.available ≠ d.desired)
        ∧ d.verdict = .progressing)
      ∨ ((∀ c ∈ d.conditions, ¬c.HardFailure ∧ ¬c.StillRolling) ∧ d.available = d.desired
        ∧ d.verdict = .ready) := by
  cases hfirst : Verdict.firstFailure? (d.conditions.map Condition.verdict) with
  | some found =>
    obtain ⟨vs, v, ws, hconditions, hv, hbefore⟩ := Verdict.firstFailure?_eq_some_iff.1 hfirst
    obtain ⟨before, rest, hsplit, rfl, hrest⟩ := List.map_eq_append_iff.1 hconditions
    obtain ⟨c, after, rfl, rfl, -⟩ := List.map_eq_cons_iff.1 hrest
    refine .inl ⟨before, c, after, hsplit, ?_, ?_, (verdict_of_failure hfirst).trans hv.symm⟩
    · rw [← Condition.isFailed_verdict_iff, hv]
      exact Verdict.isFailed_failed
    · intro b hb
      rw [← Condition.isFailed_verdict_iff]
      exact hbefore _ (List.mem_map_of_mem hb)
  | none =>
    have hnone : ∀ c ∈ d.conditions, ¬c.HardFailure := by
      simpa [Condition.isFailed_verdict_iff] using Verdict.firstFailure?_eq_none_iff.1 hfirst
    have hwaits : ((d.conditions.map Condition.verdict).contains .progressing || d.available != d.desired) = true
        ↔ (∃ c ∈ d.conditions, c.StillRolling) ∨ d.available ≠ d.desired := by
      simp [Condition.verdict_eq_progressing_iff]
    have hverdict := verdict_of_no_failure hfirst
    by_cases h : (∃ c ∈ d.conditions, c.StillRolling) ∨ d.available ≠ d.desired
    · exact .inr (.inl ⟨hnone, h, hverdict.trans (if_pos (hwaits.2 h))⟩)
    · have hready := hverdict.trans (if_neg (mt hwaits.1 h))
      rw [not_or, not_ne_iff] at h
      exact .inr (.inr ⟨fun c hc => ⟨hnone c hc, fun hrolling => h.1 ⟨c, hc, hrolling⟩⟩, h.2, hready⟩)

theorem isFailed_verdict_iff : d.verdict.IsFailed ↔ ∃ c ∈ d.conditions, c.HardFailure := by
  rcases verdict_cases d with ⟨before, c, after, hsplit, hc, -, hv⟩ | ⟨hnone, -, hv⟩ | ⟨hnone, -, hv⟩
  · rw [hv, Condition.isFailed_verdict_iff, hsplit]
    exact iff_of_true hc ⟨c, by simp, hc⟩
  · simpa [hv] using hnone
  · simpa [hv] using fun c hc => (hnone c hc).1

theorem verdict_eq_ready_iff : d.verdict = .ready ↔
    (∀ c ∈ d.conditions, ¬c.HardFailure ∧ ¬c.StillRolling) ∧ d.available = d.desired := by
  rcases verdict_cases d with ⟨before, c, after, hsplit, hc, -, hv⟩ | ⟨-, hwaits, hv⟩ | ⟨hnone, heq, hv⟩
  · have hfailed : d.verdict.IsFailed := isFailed_verdict_iff.2 ⟨c, by simp [hsplit], hc⟩
    refine iff_of_false (fun hready => ?_) fun h => (h.1 c (by simp [hsplit])).1 hc
    rw [hready] at hfailed
    exact Verdict.not_isFailed_ready hfailed
  · refine iff_of_false (by simp [hv]) fun h => ?_
    rcases hwaits with ⟨c, hc, hrolling⟩ | hne
    · exact (h.1 c hc).2 hrolling
    · exact hne h.2
  · exact iff_of_true hv ⟨hnone, heq⟩

/-- The deployment with other conditions, if it has a status. -/
def withConditions (d : Deployment) (cs : List Condition) : Deployment :=
  { d with status := d.status.map fun s => { s with conditions := cs } }

@[simp] theorem desired_withConditions (d : Deployment) (cs : List Condition) :
    (d.withConditions cs).desired = d.desired := by
  unfold desired withConditions
  cases d.status <;> rfl

@[simp] theorem available_withConditions (d : Deployment) (cs : List Condition) :
    (d.withConditions cs).available = d.available := by
  unfold available withConditions
  cases d.status <;> rfl

theorem mem_conditions_withConditions {cs : List Condition} {c : Condition} (h : cs.Perm d.conditions) :
    c ∈ (d.withConditions cs).conditions ↔ c ∈ d.conditions := by
  unfold conditions withConditions at *
  cases hs : d.status with
  | none => exact Iff.rfl
  | some s =>
    rw [hs] at h
    exact h.mem_iff

/-- The same deployment, its conditions in another order. -/
def Reordered (d d' : Deployment) : Prop := ∃ cs, cs.Perm d.conditions ∧ d' = d.withConditions cs

theorem Reordered.isFailed_iff (h : d.Reordered d') : d'.verdict.IsFailed ↔ d.verdict.IsFailed := by
  obtain ⟨cs, hcs, rfl⟩ := h
  simp only [isFailed_verdict_iff, mem_conditions_withConditions hcs]

theorem Reordered.progressing_iff (h : d.Reordered d') : d'.verdict = .progressing ↔ d.verdict = .progressing := by
  rw [Verdict.eq_progressing_iff, Verdict.eq_progressing_iff, h.isFailed_iff]
  obtain ⟨cs, hcs, rfl⟩ := h
  simp only [ne_eq, verdict_eq_ready_iff, mem_conditions_withConditions hcs, available_withConditions,
    desired_withConditions]

end Deployment

/-! ## Classes of workloads -/

namespace Health

section Class

variable {α : Type} (verdict : α → Verdict) {found found' : List (Option α)} {a : α} {reason message : String}

/-- One of the workloads of a class fails. -/
def Fails (found : List (Option α)) : Prop := ∃ a, some a ∈ found ∧ (verdict a).IsFailed

/-- One of the workloads of a class is missing or still progressing. -/
def Waits (found : List (Option α)) : Prop := none ∈ found ∨ ∃ a, some a ∈ found ∧ verdict a = .progressing

/-- The first workload of a class that fails gives a reason and a message. -/
def FirstFails (found : List (Option α)) (reason message : String) : Prop :=
  ∃ before a after, found = before ++ some a :: after ∧ verdict a = .failed reason message ∧ ¬Fails verdict before

/-- The tally of a class; a workload that is missing counts as progressing. -/
def tally (found : List (Option α)) : Tally := .ofVerdicts (found.map fun o => (o.map verdict).getD .progressing)

variable {verdict}

@[simp] theorem not_fails_nil : ¬Fails verdict [] := by simp [Fails]

@[simp] theorem fails_cons_none : Fails verdict (none :: found) ↔ Fails verdict found := by simp [Fails]

@[simp] theorem fails_cons_some : Fails verdict (some a :: found) ↔ (verdict a).IsFailed ∨ Fails verdict found := by
  simp [Fails, or_and_right, exists_or]

@[simp] theorem not_waits_nil : ¬Waits verdict [] := by simp [Waits]

@[simp] theorem waits_cons_none : Waits verdict (none :: found) := by simp [Waits]

@[simp] theorem waits_cons_some :
    Waits verdict (some a :: found) ↔ verdict a = .progressing ∨ Waits verdict found := by
  simp only [Waits, List.mem_cons, reduceCtorEq, false_or, Option.some.injEq, or_and_right, exists_or,
    exists_eq_left]
  tauto

theorem fails_perm (h : found.Perm found') : Fails verdict found ↔ Fails verdict found' := by
  simp only [Fails, h.mem_iff]

theorem waits_perm (h : found.Perm found') : Waits verdict found ↔ Waits verdict found' := by
  simp only [Waits, h.mem_iff]

theorem fails_congr {R : α → α → Prop} (hR : ∀ a b, R a b → ((verdict b).IsFailed ↔ (verdict a).IsFailed))
    (h : List.Forall₂ (Option.Rel R) found found') : Fails verdict found' ↔ Fails verdict found := by
  induction h with
  | nil => exact Iff.rfl
  | cons hab _ ih =>
    cases hab with
    | none => simpa using ih
    | some hab => rw [fails_cons_some, fails_cons_some, ih, hR _ _ hab]

theorem waits_congr {R : α → α → Prop}
    (hR : ∀ a b, R a b → (verdict b = .progressing ↔ verdict a = .progressing))
    (h : List.Forall₂ (Option.Rel R) found found') : Waits verdict found' ↔ Waits verdict found := by
  induction h with
  | nil => exact Iff.rfl
  | cons hab _ ih =>
    cases hab with
    | none => simp
    | some hab => rw [waits_cons_some, waits_cons_some, ih, hR _ _ hab]

theorem tally_cons_none : tally verdict (none :: found)
    = { tally verdict found with progressing := (tally verdict found).progressing + 1 } := rfl

theorem tally_cons_some : tally verdict (some a :: found) = match verdict a with
    | .ready => tally verdict found
    | .progressing => { tally verdict found with progressing := (tally verdict found).progressing + 1 }
    | .failed reason message => { failure := some (reason, message) } := by
  show Tally.ofVerdicts (verdict a :: _) = _
  cases verdict a <;> rfl

/-- The first failure of a class ends its tally. -/
theorem failure_tally_eq_none_iff : (tally verdict found).failure = none ↔ ¬Fails verdict found := by
  induction found with
  | nil => simp [tally, Tally.ofVerdicts]
  | cons o found ih =>
    cases o with
    | none => rw [tally_cons_none, ih, fails_cons_none]
    | some a =>
      rw [tally_cons_some, fails_cons_some]
      cases verdict a <;> simp [ih]

theorem firstFails_of_tally (h : (tally verdict found).failure = some (reason, message)) :
    FirstFails verdict found reason message := by
  induction found with
  | nil => cases h
  | cons o found ih =>
    cases o with
    | none =>
      obtain ⟨before, a, after, rfl, ha, hbefore⟩ := ih h
      exact ⟨none :: before, a, after, rfl, ha, by simpa using hbefore⟩
    | some b =>
      rw [tally_cons_some] at h
      cases hv : verdict b with
      | failed r m =>
        rw [hv] at h
        cases h
        exact ⟨[], b, found, rfl, hv, not_fails_nil⟩
      | ready | progressing =>
        rw [hv] at h
        obtain ⟨before, a, after, rfl, ha, hbefore⟩ := ih h
        exact ⟨some b :: before, a, after, rfl, ha, by simpa [hv] using hbefore⟩

theorem FirstFails.fails (h : FirstFails verdict found reason message) : Fails verdict found := by
  obtain ⟨before, a, after, rfl, ha, -⟩ := h
  exact ⟨a, by simp, reason, message, ha⟩

/-- The progress of a class counts only while nothing in it fails. -/
theorem waits_iff_tally (h : ¬Fails verdict found) :
    Waits verdict found ↔ (tally verdict found).progressing ≠ 0 := by
  induction found with
  | nil => simp [tally, Tally.ofVerdicts]
  | cons o found ih =>
    cases o with
    | none => simp [tally_cons_none]
    | some a =>
      rw [fails_cons_some, not_or] at h
      rw [tally_cons_some, waits_cons_some]
      cases hv : verdict a with
      | ready => simpa using ih h.2
      | progressing => simp
      | failed reason message => exact absurd (hv ▸ Verdict.isFailed_failed) h.1

end Class

/-! ## The status of both classes -/

variable {ds ds' : List (Option Deployment)} {dss dss' : List (Option DaemonSet)}

theorem aggregate_eq (now : Instant) (ds : List (Option Deployment)) (dss : List (Option DaemonSet)) :
    aggregate now ds dss = combine now (tally Deployment.verdict ds) (tally DaemonSet.verdict dss) := rfl

open Classical in
/-- A failure comes before everything else, and two classes that both wait cancel each other out. -/
theorem type_aggregate (now : Instant) (ds : List (Option Deployment)) (dss : List (Option DaemonSet)) :
    (aggregate now ds dss).type = if Fails Deployment.verdict ds ∨ Fails DaemonSet.verdict dss then .unhealthy
      else if Xor (Waits Deployment.verdict ds) (Waits DaemonSet.verdict dss) then .progressing
      else .available := by
  rw [aggregate_eq]
  unfold combine
  cases hd : (tally Deployment.verdict ds).failure with
  | some found =>
    rw [if_pos (.inl (firstFails_of_tally hd).fails)]
    rfl
  | none =>
    have hds := failure_tally_eq_none_iff.1 hd
    cases hs : (tally DaemonSet.verdict dss).failure with
    | some found =>
      rw [if_pos (.inr (firstFails_of_tally hs).fails)]
      rfl
    | none =>
      have hdss := failure_tally_eq_none_iff.1 hs
      -- Nothing fails, so the two counts are of whole classes.
      rw [if_neg (not_or.2 ⟨hds, hdss⟩), waits_iff_tally hds, waits_iff_tally hdss]
      cases (tally Deployment.verdict ds).progressing <;> cases (tally DaemonSet.verdict dss).progressing <;>
        simp [Xor, Status.available, Status.progressing]

/-- The blame is on the first deployment that fails, and on a daemon set only where no deployment does. -/
theorem blame_aggregate (now : Instant) (ds : List (Option Deployment)) (dss : List (Option DaemonSet)) :
    (Fails Deployment.verdict ds → ∃ reason message, FirstFails Deployment.verdict ds reason message
        ∧ aggregate now ds dss = .unhealthy now reason message)
      ∧ (¬Fails Deployment.verdict ds → Fails DaemonSet.verdict dss → ∃ reason message,
        FirstFails DaemonSet.verdict dss reason message ∧ aggregate now ds dss = .unhealthy now reason message) := by
  rw [aggregate_eq]
  unfold combine
  constructor
  · intro h
    cases hd : (tally Deployment.verdict ds).failure with
    | none => exact absurd h (failure_tally_eq_none_iff.1 hd)
    | some found => exact ⟨found.1, found.2, firstFails_of_tally hd, rfl⟩
  · intro h h'
    rw [failure_tally_eq_none_iff.2 h]
    cases hs : (tally DaemonSet.verdict dss).failure with
    | none => exact absurd h' (failure_tally_eq_none_iff.1 hs)
    | some found => exact ⟨found.1, found.2, firstFails_of_tally hs, rfl⟩

/-- What the status of deployments and daemon sets says of them. -/
structure Aggregates (ds : List (Option Deployment)) (dss : List (Option DaemonSet)) (s : Status) : Prop where
  unhealthy_iff : s.type = .unhealthy ↔ Fails Deployment.verdict ds ∨ Fails DaemonSet.verdict dss
  progressing_iff : s.type = .progressing ↔ ¬(Fails Deployment.verdict ds ∨ Fails DaemonSet.verdict dss)
    ∧ Xor (Waits Deployment.verdict ds) (Waits DaemonSet.verdict dss)
  available_iff : s.type = .available ↔ ¬(Fails Deployment.verdict ds ∨ Fails DaemonSet.verdict dss)
    ∧ ¬Xor (Waits Deployment.verdict ds) (Waits DaemonSet.verdict dss)
  of_deployments : Fails Deployment.verdict ds → ∃ reason message,
    FirstFails Deployment.verdict ds reason message
      ∧ s.reason = Status.nonBlank reason "Unhealthy" ∧ s.message = message
  of_daemonSets : ¬Fails Deployment.verdict ds → Fails DaemonSet.verdict dss → ∃ reason message,
    FirstFails DaemonSet.verdict dss reason message
      ∧ s.reason = Status.nonBlank reason "Unhealthy" ∧ s.message = message

theorem aggregates_aggregate (now : Instant) (ds : List (Option Deployment)) (dss : List (Option DaemonSet)) :
    Aggregates ds dss (aggregate now ds dss) where
  unhealthy_iff := by
    rw [type_aggregate]
    split_ifs <;> simp_all
  progressing_iff := by
    rw [type_aggregate]
    split_ifs <;> simp_all
  available_iff := by
    rw [type_aggregate]
    split_ifs <;> simp_all
  of_deployments h := by
    obtain ⟨reason, message, hfirst, heq⟩ := (blame_aggregate now ds dss).1 h
    exact ⟨reason, message, hfirst, by rw [heq]; rfl, by rw [heq]; rfl⟩
  of_daemonSets h h' := by
    obtain ⟨reason, message, hfirst, heq⟩ := (blame_aggregate now ds dss).2 h h'
    exact ⟨reason, message, hfirst, by rw [heq]; rfl, by rw [heq]; rfl⟩

/-- Neither the order of the workloads nor that of the conditions of a deployment matters to the type. -/
theorem type_aggregate_reordered {ds₁ : List (Option Deployment)} (now now' : Instant) (hds : ds.Perm ds₁)
    (hconditions : List.Forall₂ (Option.Rel Deployment.Reordered) ds₁ ds') (hdss : dss.Perm dss') :
    (aggregate now' ds' dss').type = (aggregate now ds dss).type := by
  have hfails : Fails Deployment.verdict ds' ↔ Fails Deployment.verdict ds :=
    (fails_congr (fun _ _ h => h.isFailed_iff) hconditions).trans (fails_perm hds.symm)
  have hwaits : Waits Deployment.verdict ds' ↔ Waits Deployment.verdict ds :=
    (waits_congr (fun _ _ h => h.progressing_iff) hconditions).trans (waits_perm hds.symm)
  have hfails' : Fails DaemonSet.verdict dss' ↔ Fails DaemonSet.verdict dss := fails_perm hdss.symm
  have hwaits' : Waits DaemonSet.verdict dss' ↔ Waits DaemonSet.verdict dss := waits_perm hdss.symm
  rw [type_aggregate, type_aggregate, propext hfails, propext hwaits, propext hfails', propext hwaits']

end Health

end Addons
