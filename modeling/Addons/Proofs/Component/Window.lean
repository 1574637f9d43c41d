import Addons.Component.Timeout
import Addons.Proofs.Resource.Stored
import Addons.Proofs.Store.Stamps

/-!
# When a retry is due

A component is to be tried again exactly if it has the policy, the status and a timeout for that, and its timeout
has passed since its last change (`Resource.retryDue_eq_true_iff`). The last change is read from the object of the
component: on an object that was just written it is the time of the store (`Metadata.lastSpecChange?_of_stamp`),
and objects with the same times have the same (`Object.Retained.read`).
-/

namespace Addons

/-! ## Instants in order -/

namespace Instant

variable {a b c t : Instant}

theorem le_iff : a ≤ b ↔ a.seconds < b.seconds ∨ a.seconds = b.seconds ∧ a.nanos ≤ b.nanos := by
  show a.le b = true ↔ _
  unfold le
  simp only [Bool.or_eq_true, Bool.and_eq_true, decide_eq_true_eq]

theorem le_trans (h : a ≤ b) (h' : b ≤ c) : a ≤ c := by
  rw [le_iff] at h h' ⊢
  omega

/-- A time that a clock can show: one of the calendar, and none within a leap second. -/
structure Ticks (t : Instant) : Prop where
  inCalendar : t.inCalendar = true
  notLeap : t.isLeap = false

theorem Ticks.truncate (h : t.Ticks) : t.truncate = ⟨t.seconds, 0⟩ := by
  unfold Instant.truncate
  rw [h.notLeap]
  rfl

theorem add_start (n : Int) (s : Span) :
    (⟨n, 0⟩ : Instant).add s = ⟨n + (s.nanos / billion : Nat), s.nanos % billion⟩ := by
  have hleap : (⟨n, 0⟩ : Instant).isLeap = false := rfl
  unfold add
  rw [hleap, if_neg Bool.false_ne_true, Nat.zero_add]

/-- A leap second ends before the second that follows it. -/
theorem add_leap (n : Int) (s : Span) :
    (⟨n, billion⟩ : Instant).add s ≤ ⟨n + 1 + (s.nanos / billion : Nat), s.nanos % billion⟩ := by
  have hleap : (⟨n, billion⟩ : Instant).isLeap = true := rfl
  unfold add
  rw [hleap, if_pos rfl]
  dsimp only
  split
  · refine le_iff.2 (.inl ?_)
    dsimp only
    have hnonneg : (0 : Int) ≤ (s.nanos / billion : Nat) := Int.natCast_nonneg _
    omega
  · rw [Nat.add_sub_cancel_left]
    exact le_iff.2 (.inl (by dsimp only; omega))

theorem Ticks.regular (h : t.Ticks) : t.Regular := by
  have hlt : t.nanos < billion := Nat.not_le.1 (of_decide_eq_false h.notLeap)
  refine ⟨h.inCalendar, by omega, fun hleap => ?_⟩
  rw [h.notLeap] at hleap
  cases hleap

/-- What has begun later ends later. -/
theorem Ticks.truncate_add_le (hb : b.Ticks) (h : a ≤ b) (s : Span) :
    a.truncate.add s ≤ b.truncate.add s := by
  have hnotLeap := hb.notLeap
  unfold isLeap at hnotLeap
  rw [decide_eq_false_iff_not] at hnotLeap
  rw [hb.truncate, add_start]
  rw [le_iff] at h
  unfold Instant.truncate
  by_cases hleap : a.isLeap = true
  · rw [if_pos hleap]
    unfold isLeap at hleap
    rw [decide_eq_true_eq] at hleap
    refine le_trans (add_leap a.seconds s) (le_iff.2 ?_)
    dsimp only
    omega
  · rw [if_neg hleap, add_start, le_iff]
    dsimp only
    omega

end Instant

/-! ## Times that are read back -/

namespace Metadata

variable {m m' m₁ m₂ : Metadata}

/-- The times of an object are read from what was written of them. -/
theorem times_of_ofJson? (h : Metadata.ofJson? m.toJson = some m') : ∃ r : Record,
    r.field? "managedFields" = m.managedFields.map (fun l => .arr (l.map ManagedFields.toJson))
      ∧ r.field? "creationTimestamp" = m.creationTimestamp.map Json.ofInstant
      ∧ r.optional? "managedFields" (Json.array? ManagedFields.ofJson?) = some m'.managedFields
      ∧ r.optional? "creationTimestamp" Json.instant? = some m'.creationTimestamp := by
  unfold Metadata.ofJson? Metadata.toJson at h
  obtain ⟨r, hr, h⟩ := Option.bind_eq_some_iff.1 h
  have hfield := field?_of_named? hr (by simp)
  obtain ⟨_, -, h⟩ := Option.bind_eq_some_iff.1 h
  obtain ⟨created, hcreated, h⟩ := Option.bind_eq_some_iff.1 h
  -- six fields between the two
  iterate 6 obtain ⟨_, -, h⟩ := Option.bind_eq_some_iff.1 h
  obtain ⟨managed, hmanaged, h⟩ := Option.bind_eq_some_iff.1 h
  iterate 6 obtain ⟨_, -, h⟩ := Option.bind_eq_some_iff.1 h
  obtain rfl := Option.some.inj h
  exact ⟨r, hfield "managedFields", hfield "creationTimestamp", hmanaged, hcreated⟩

/-- Objects with the same times are read as last changed at the same time. -/
theorem lastSpecChange?_congr {m₁' m₂' : Metadata} (h₁ : Metadata.ofJson? m₁.toJson = some m₁')
    (h₂ : Metadata.ofJson? m₂.toJson = some m₂') (hmanaged : m₂.managedFields = m₁.managedFields)
    (hcreated : m₂.creationTimestamp = m₁.creationTimestamp) :
    m₂'.lastSpecChange? = m₁'.lastSpecChange? := by
  obtain ⟨r₁, hf₁, hc₁, hreadf₁, hreadc₁⟩ := times_of_ofJson? h₁
  obtain ⟨r₂, hf₂, hc₂, hreadf₂, hreadc₂⟩ := times_of_ofJson? h₂
  rw [hmanaged, ← hf₁] at hf₂
  rw [hcreated, ← hc₁] at hc₂
  rw [Record.optional?_congr hf₂, hreadf₁] at hreadf₂
  rw [Record.optional?_congr hc₂, hreadc₁] at hreadc₂
  unfold lastSpecChange?
  rw [Option.some.inj hreadf₂, Option.some.inj hreadc₂]

/-- An object that a store has just written was last changed at the time of the store. -/
theorem lastSpecChange?_of_stamp {t : Instant} (ht : t.Ticks) (h : Metadata.ofJson? m.toJson = some m')
    (hmanaged : m.managedFields = some (Memory.stamp t)) : m'.lastSpecChange? = some t.truncate := by
  obtain ⟨r, hfield, -, hread, -⟩ := times_of_ofJson? h
  rw [hmanaged] at hfield
  have hstorable : ∀ l ∈ some (Memory.stamp t), ∀ e ∈ l, e.Storable := by
    intro l hl e he
    obtain rfl := Option.some.inj hl
    obtain rfl := List.mem_singleton.1 he
    exact ⟨fun a ha => Option.some.inj ha ▸ ht.regular, nofun⟩
  have hstamp := Record.optional?_mapped
    (fun l hl => Json.array?_mapped fun e he => ManagedFields.ofJson?_toJson (hstorable l hl e he))
    (fun _ _ => nofun) hfield
  rw [hstamp] at hread
  unfold lastSpecChange?
  rw [← Option.some.inj hread]
  rfl

end Metadata

/-- What is kept of an object keeps its specification and the time of its last change. -/
theorem Object.Retained.read {σ τ : Type} {k : ResourceKind σ τ} {o o' : Object} {r r' : Resource σ τ}
    (h : o.Retained o') (hr : k.ofObject o = .ok r) (hr' : k.ofObject o' = .ok r') :
    r'.spec = r.spec ∧ r'.metadata.lastSpecChange? = r.metadata.lastSpecChange? := by
  obtain ⟨hmetadata, j, hj, hspec⟩ := ResourceKind.ofObject_eq_ok hr
  obtain ⟨hmetadata', j', hj', hspec'⟩ := ResourceKind.ofObject_eq_ok hr'
  refine ⟨?_, Metadata.lastSpecChange?_congr hmetadata hmetadata' h.managed h.created⟩
  rw [h.data "spec" (by decide), hj] at hj'
  rw [← Option.some.inj hj', hspec] at hspec'
  exact (Option.some.inj hspec').symm

/-! ## Due retries -/

/-- A retry is due after the timeout of an unhealthy component that has the policy for it. -/
theorem Resource.retryDue_eq_true_iff {addon : ManifestAddon} {now : Instant} :
    addon.retryDue now = .ok true ↔ addon.spec.failurePolicy = .retry
      ∧ addon.status.map Status.type = some .unhealthy
      ∧ ∃ timeout, addon.spec.timeout = some timeout ∧ timeout.fitsCalendar = true
        ∧ ∀ changed, addon.metadata.lastSpecChange? = some changed →
          (changed.add timeout).inCalendar = true ∧ changed.add timeout ≤ now := by
  constructor
  · intro h
    unfold retryDue at h
    split at h
    case h_2 => cases h
    rename_i timeout hpolicy hstatus htimeout
    refine ⟨hpolicy, hstatus, timeout, htimeout, ?_⟩
    split at h
    case isFalse => cases h
    rename_i hfits
    refine ⟨hfits, fun changed hchanged => ?_⟩
    rw [hchanged] at h
    dsimp only at h
    split at h
    case isFalse => cases h
    rename_i hcalendar
    exact ⟨hcalendar, of_decide_eq_true (Except.ok.inj h)⟩
  · rintro ⟨hpolicy, hstatus, timeout, htimeout, hfits, hdue⟩
    unfold retryDue
    rw [hpolicy, hstatus, htimeout]
    dsimp only
    rw [if_pos hfits]
    cases hchanged : addon.metadata.lastSpecChange? with
    | none => rfl
    | some changed =>
      obtain ⟨hcalendar, hle⟩ := hdue changed hchanged
      dsimp only
      rw [if_pos hcalendar, decide_eq_true hle]

end Addons
