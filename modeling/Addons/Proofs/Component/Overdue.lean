import Addons.Proofs.Component.Window

/-!
# Timeouts that never end

Whether a retry is due is decided, and decided rightly, unless the timeout of a component that waits for a retry
ends beyond the calendar (`Resource.retryDue_exact`). There the answer would be that it is not due, as no time of
the calendar comes that late, but no answer is given (`Overdue.endless_undecided`).
-/

namespace Addons

/-! ## The end of a timeout -/

namespace Instant

variable {t now : Instant}

theorem le_refl (t : Instant) : t ≤ t := le_iff.2 (.inr ⟨rfl, Nat.le_refl _⟩)

theorem le_antisymm {a b : Instant} (h : a ≤ b) (h' : b ≤ a) : a = b := by
  rw [le_iff] at h h'
  obtain ⟨s, n⟩ := a
  obtain ⟨s', n'⟩ := b
  dsimp only at h h'
  rw [Instant.mk.injEq]
  omega

/-- Nanoseconds since the start of 1970, leap seconds left out. -/
def sinceEpoch (t : Instant) : Int := t.seconds * billion + t.nanos

/-- A span has passed since a time when the clock is on by that many nanoseconds. -/
theorem add_le_iff (ht : t.isLeap = false) (hnow : now.isLeap = false) (s : Span) :
    t.add s ≤ now ↔ t.sinceEpoch + s.nanos ≤ now.sinceEpoch := by
  unfold isLeap at ht hnow
  rw [decide_eq_false_iff_not] at ht hnow
  unfold add isLeap sinceEpoch
  rw [if_neg (by simpa using ht), le_iff]
  dsimp only
  unfold billion at *
  omega

theorem seconds_le_add (t : Instant) (s : Span) : t.seconds ≤ (t.add s).seconds := by
  unfold add
  dsimp only
  split
  · split
    · exact Int.le_refl _
    · exact Int.le_add_of_nonneg_right (Int.natCast_nonneg _)
  · exact Int.le_add_of_nonneg_right (Int.natCast_nonneg _)

/-- What ends beyond the calendar has not ended at any time of the calendar. -/
theorem not_add_le_of_beyond {s : Span} (ht : t.inCalendar = true) (hbeyond : (t.add s).inCalendar = false)
    (hnow : now.inCalendar = true) : ¬t.add s ≤ now := by
  have hle := seconds_le_add t s
  unfold inCalendar at ht hbeyond hnow
  simp only [Bool.and_eq_true, Bool.and_eq_false_iff, decide_eq_true_eq, decide_eq_false_iff_not] at ht hbeyond hnow
  rw [le_iff]
  omega

theorem max_eq (a b : Instant) : a.max b = a ∧ b ≤ a ∨ a.max b = b ∧ a ≤ b := by
  unfold max
  split
  case isTrue h => exact .inr ⟨rfl, h⟩
  case isFalse h =>
    rw [le_iff] at h
    exact .inl ⟨rfl, le_iff.2 (by omega)⟩

/-- The latest of some times is one of them, and none of them is later. -/
theorem foldl_max (ts : List Instant) (t : Instant) :
    ts.foldl Instant.max t ∈ t :: ts ∧ ∀ u ∈ t :: ts, u ≤ ts.foldl Instant.max t := by
  induction ts generalizing t with
  | nil =>
    refine ⟨List.mem_cons_self, fun u hu => ?_⟩
    rw [List.mem_singleton.1 hu]
    exact le_refl t
  | cons a ts ih =>
    rw [List.foldl_cons]
    obtain ⟨hmem, hlatest⟩ := ih (t.max a)
    have hmax : t ≤ t.max a ∧ a ≤ t.max a ∧ (t.max a = t ∨ t.max a = a) := by
      rcases max_eq t a with ⟨heq, hle⟩ | ⟨heq, hle⟩ <;> rw [heq]
      · exact ⟨le_refl t, hle, .inl rfl⟩
      · exact ⟨hle, le_refl a, .inr rfl⟩
    have hofMax := hlatest (t.max a) List.mem_cons_self
    constructor
    · rcases List.mem_cons.1 hmem with heq | hmem
      · rw [heq]
        rcases hmax.2.2 with heq | heq <;> rw [heq] <;> simp only [List.mem_cons, true_or, or_true]
      · exact List.mem_cons_of_mem _ (List.mem_cons_of_mem _ hmem)
    · intro u hu
      simp only [List.mem_cons] at hu
      rcases hu with rfl | rfl | hu
      · exact le_trans hmax.1 hofMax
      · exact le_trans hmax.2.1 hofMax
      · exact hlatest u (List.mem_cons_of_mem _ hu)

end Instant

/-! ## The last change -/

namespace Metadata

variable {m : Metadata} {t : Instant}

/-- The managed fields of an object note a write at this time that was not one of its status. -/
def NotedAt (m : Metadata) (t : Instant) : Prop :=
  ∃ l, m.managedFields = some l ∧ ∃ e ∈ l, e.subresource ≠ some "status" ∧ e.time = some t

/-- The last change of an object is the latest write noted, and its creation where none is. -/
def LastChanged (m : Metadata) (t : Instant) : Prop :=
  m.NotedAt t ∧ (∀ u, m.NotedAt u → u ≤ t) ∨ (∀ u, ¬m.NotedAt u) ∧ m.creationTimestamp = some t

theorem mem_times_iff : t ∈ ((m.managedFields.getD []).filter fun e => e.subresource ≠ some "status").filterMap
    ManagedFields.time ↔ m.NotedAt t := by
  unfold NotedAt
  simp only [List.mem_filterMap, List.mem_filter, decide_eq_true_eq]
  cases m.managedFields with
  | none => exact ⟨fun ⟨_, ⟨hmem, _⟩, _⟩ => absurd hmem List.not_mem_nil, fun ⟨_, hnone, _⟩ => nomatch hnone⟩
  | some l =>
    constructor
    · rintro ⟨e, ⟨hmem, hstatus⟩, htime⟩
      exact ⟨l, rfl, e, hmem, hstatus, htime⟩
    · rintro ⟨_, ⟨rfl⟩, e, hmem, hstatus, htime⟩
      exact ⟨e, ⟨hmem, hstatus⟩, htime⟩

theorem lastSpecChange?_eq_some_iff : m.lastSpecChange? = some t ↔ m.LastChanged t := by
  have hmem := fun u => mem_times_iff (m := m) (t := u)
  unfold lastSpecChange? LastChanged
  simp only [← hmem]
  generalize ((m.managedFields.getD []).filter fun e => e.subresource ≠ some "status").filterMap
    ManagedFields.time = times
  cases times with
  | nil => simp only [List.not_mem_nil, false_and, not_false_eq_true, implies_true, true_and, false_or]
  | cons first rest =>
    obtain ⟨hlatest, hle⟩ := Instant.foldl_max rest first
    constructor
    · intro h
      obtain rfl := Option.some.inj h
      exact .inl ⟨hlatest, hle⟩
    · rintro (⟨ht, hlast⟩ | ⟨hnone, -⟩)
      · exact congrArg some (Instant.le_antisymm (hlast _ hlatest) (hle t ht))
      · exact absurd List.mem_cons_self (hnone first)

end Metadata

/-! ## The decision -/

namespace Resource

variable {addon : ManifestAddon} {timeout : Span} {now later : Instant}

/-- The component waits for a retry: it has the policy, the status, and this timeout, whose milliseconds fit
64 bits with a sign. -/
structure Awaits (addon : ManifestAddon) (timeout : Span) : Prop where
  policy : addon.spec.failurePolicy = .retry
  status : addon.status.map Status.type = some .unhealthy
  declared : addon.spec.timeout = some timeout
  fits : timeout.nanos ≤ (2 ^ 63 - 1) * 1000000

/-- The component waits for a retry, and its timeout has passed (`Instant.add_le_iff`) since its last change, if
there is one. -/
def Overdue (addon : ManifestAddon) (now : Instant) : Prop :=
  ∃ timeout, addon.Awaits timeout ∧ ∀ changed, addon.metadata.LastChanged changed → changed.add timeout ≤ now

/-- The timeout for which the component waits ends beyond the calendar. -/
def Endless (addon : ManifestAddon) : Prop :=
  ∃ timeout, addon.Awaits timeout
    ∧ ∃ changed, addon.metadata.LastChanged changed ∧ (changed.add timeout).inCalendar = false

theorem Overdue.mono (h : addon.Overdue now) (hle : now ≤ later) : addon.Overdue later :=
  let ⟨timeout, hawaits, hpassed⟩ := h
  ⟨timeout, hawaits, fun changed hchanged => Instant.le_trans (hpassed changed hchanged) hle⟩

theorem fitsCalendar_iff : timeout.fitsCalendar = true ↔ timeout.nanos ≤ (2 ^ 63 - 1) * 1000000 := decide_eq_true_iff

/-- A component that does not wait for a retry is not due for one. -/
theorem retryDue_of_not_awaits (h : ∀ timeout, ¬addon.Awaits timeout) : addon.retryDue now = .ok false := by
  unfold retryDue
  split
  case h_2 => rfl
  rename_i timeout hpolicy hstatus htimeout
  split
  case isFalse => rfl
  rename_i hfits
  exact absurd ⟨hpolicy, hstatus, htimeout, fitsCalendar_iff.1 hfits⟩ (h timeout)

/-- What is asked of a component that waits. -/
theorem Awaits.retryDue_eq (h : addon.Awaits timeout) : addon.retryDue now =
    match addon.metadata.lastSpecChange? with
    | some changed =>
      if (changed.add timeout).inCalendar then .ok (decide (changed.add timeout ≤ now)) else .error .beyondCalendar
    | none => .ok true := by
  unfold retryDue
  rw [h.policy, h.status, h.declared]
  exact if_pos (fitsCalendar_iff.2 h.fits)

theorem Awaits.unique {timeout' : Span} (h : addon.Awaits timeout) (h' : addon.Awaits timeout') :
    timeout' = timeout :=
  Option.some.inj (h'.declared.symm.trans h.declared)

theorem retryDue_of_endless (h : addon.Endless) : addon.retryDue now = .error .beyondCalendar := by
  obtain ⟨timeout, hawaits, changed, hchanged, hbeyond⟩ := h
  rw [hawaits.retryDue_eq, Metadata.lastSpecChange?_eq_some_iff.2 hchanged]
  dsimp only
  rw [hbeyond, if_neg Bool.false_ne_true]

theorem retryDue_of_not_endless (h : ¬addon.Endless) (now : Instant) :
    ∃ due, addon.retryDue now = .ok due ∧ (due = true ↔ addon.Overdue now) := by
  by_cases hawaits : ∃ timeout, addon.Awaits timeout
  · obtain ⟨timeout, hawaits⟩ := hawaits
    rw [hawaits.retryDue_eq]
    cases hchange : addon.metadata.lastSpecChange? with
    | none =>
      refine ⟨true, rfl, fun _ => ⟨timeout, hawaits, fun changed hchanged => ?_⟩, fun _ => rfl⟩
      rw [Metadata.lastSpecChange?_eq_some_iff.2 hchanged] at hchange
      cases hchange
    | some changed =>
      have hchanged := Metadata.lastSpecChange?_eq_some_iff.1 hchange
      have hwithin : (changed.add timeout).inCalendar = true := by
        by_contra hbeyond
        exact h ⟨timeout, hawaits, changed, hchanged, Bool.eq_false_iff.2 hbeyond⟩
      dsimp only
      rw [if_pos hwithin]
      refine ⟨_, rfl, ?_⟩
      rw [decide_eq_true_iff]
      constructor
      · refine fun hpassed => ⟨timeout, hawaits, fun changed' hchanged' => ?_⟩
        rw [Metadata.lastSpecChange?_eq_some_iff.2 hchanged'] at hchange
        rwa [Option.some.inj hchange]
      · rintro ⟨timeout', hawaits', hpassed⟩
        rw [← hawaits.unique hawaits']
        exact hpassed changed hchanged
  · refine ⟨false, retryDue_of_not_awaits fun timeout hawait => hawaits ⟨timeout, hawait⟩, ?_⟩
    constructor
    · exact fun hfalse => absurd hfalse Bool.false_ne_true
    · exact fun ⟨timeout, hawait, _⟩ => absurd ⟨timeout, hawait⟩ hawaits

/-- Of a component whose timeout ends within the calendar it is decided at every time whether a retry is due, and
rightly; once it is due it stays due. If the timeout ends beyond, the retry is never due, but at no time is this
the answer. -/
theorem retryDue_exact (addon : ManifestAddon)
    (htimes : ∀ changed, addon.metadata.LastChanged changed → changed.inCalendar = true) (now : Instant)
    (hnow : now.inCalendar = true) :
    (¬addon.Endless → ∃ due, addon.retryDue now = .ok due ∧ (due = true ↔ addon.Overdue now))
      ∧ (addon.Endless → ¬addon.Overdue now ∧ addon.retryDue now = .error .beyondCalendar)
      ∧ ∀ later, now ≤ later → addon.retryDue now = .ok true → addon.retryDue later = .ok true := by
  refine ⟨fun hfinite => retryDue_of_not_endless hfinite now,
    fun hendless => ⟨?_, retryDue_of_endless hendless⟩, fun later hle hdue => ?_⟩
  · obtain ⟨timeout, hawaits, changed, hchanged, hbeyond⟩ := hendless
    rintro ⟨timeout', hawaits', hpassed⟩
    rw [hawaits.unique hawaits'] at hpassed
    exact Instant.not_add_le_of_beyond (htimes changed hchanged) hbeyond hnow (hpassed changed hchanged)
  · have hfinite : ¬addon.Endless := by
      intro hendless
      rw [retryDue_of_endless hendless] at hdue
      cases hdue
    obtain ⟨_, hnow, hiff⟩ := retryDue_of_not_endless hfinite now
    obtain ⟨due, hlater, hiff'⟩ := retryDue_of_not_endless hfinite later
    obtain rfl := Except.ok.inj (hnow.symm.trans hdue)
    rw [hlater, hiff'.2 ((hiff.1 rfl).mono hle)]

end Resource

namespace Overdue

/-- A component that was created when 2024 began, is unhealthy since, and has a timeout for its retry. -/
def waiting (timeout : Span) : ManifestAddon where
  metadata := { name := some "metrics", ns := some "addons", creationTimestamp := some ⟨1704067200, 0⟩ }
  spec := { url := "u", failurePolicy := .retry, timeout := some timeout }
  status := some ⟨.unhealthy, ⟨1704067200, 0⟩, "Crash", "boom"⟩

theorem lastChanged_waiting {timeout : Span} {changed : Instant} (h : (waiting timeout).metadata.LastChanged changed) :
    changed = ⟨1704067200, 0⟩ := by
  rcases h with ⟨⟨_, hnone, -⟩, -⟩ | ⟨-, hcreated⟩
  · cases hnone
  · exact (Option.some.inj hcreated).symm

/-- A million years. -/
def millionYears : Span := .ofSeconds (1000000 * 31557600)

theorem waiting_endless : (waiting millionYears).Endless :=
  ⟨millionYears, ⟨rfl, rfl, rfl, by decide⟩, ⟨1704067200, 0⟩, .inr ⟨fun _ ⟨_, hnone, _⟩ => (nomatch hnone), rfl⟩,
    by decide⟩

theorem waiting_not_endless : ¬(waiting (.ofSeconds 300)).Endless := by
  rintro ⟨timeout, hawaits, changed, hchanged, hbeyond⟩
  obtain rfl := lastChanged_waiting hchanged
  obtain rfl := Option.some.inj hawaits.declared
  revert hbeyond
  decide

/-- Five minutes are over after five minutes, and from then on. -/
theorem waited_five_minutes : (∃ due, (waiting (.ofSeconds 300)).retryDue ⟨1704067500, 0⟩ = .ok due
      ∧ (due = true ↔ (waiting (.ofSeconds 300)).Overdue ⟨1704067500, 0⟩))
    ∧ (waiting (.ofSeconds 300)).retryDue ⟨1704067500, 0⟩ = .ok true
    ∧ ∀ later, (⟨1704067500, 0⟩ : Instant) ≤ later → (waiting (.ofSeconds 300)).retryDue later = .ok true :=
  have hexact := Resource.retryDue_exact (waiting (.ofSeconds 300))
    (fun _ h => lastChanged_waiting h ▸ by decide) ⟨1704067500, 0⟩ (by decide)
  have hdue : (waiting (.ofSeconds 300)).retryDue ⟨1704067500, 0⟩ = .ok true := by
    rw [Resource.retryDue_eq_true_iff]
    exact ⟨rfl, rfl, _, rfl, by decide, fun _ h => by cases h; decide⟩
  ⟨hexact.1 waiting_not_endless, hdue, fun later hle => hexact.2.2 later hle hdue⟩

/-- A million years fit the type of a timeout, and 64 bits of milliseconds. The component does not come to its
retry within the calendar, but this is not the answer, at no time. -/
theorem endless_undecided : millionYears.seconds < 2 ^ 64 ∧ (waiting millionYears).Awaits millionYears
    ∧ (∀ now, now.inCalendar = true → ¬(waiting millionYears).Overdue now)
    ∧ ∀ now, ¬∃ due, (waiting millionYears).retryDue now = .ok due := by
  obtain ⟨timeout, hawaits, changed, hchanged, hbeyond⟩ := waiting_endless
  obtain rfl := lastChanged_waiting hchanged
  obtain rfl := Option.some.inj hawaits.declared
  refine ⟨by decide, hawaits, fun now hnow ⟨timeout, hawaits', hpassed⟩ => ?_, fun now ⟨due, hdue⟩ => ?_⟩
  · rw [hawaits.unique hawaits'] at hpassed
    exact Instant.not_add_le_of_beyond (by decide) hbeyond hnow (hpassed _ hchanged)
  · rw [Resource.retryDue_of_endless waiting_endless] at hdue
    cases hdue

end Overdue

end Addons
