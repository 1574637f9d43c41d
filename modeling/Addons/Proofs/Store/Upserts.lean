import Addons.Proofs.Store.Points

/-!
# What an idempotent write leaves

A write that succeeds leaves in its place what the desired object makes of the one that was there
(`Object.upserted`), and every other place as it was (`Session.runs_createOrUpdate_ok`). What the store notes on
the objects does not matter to that, so that of two writes in a row the second one meets the object of the
first (`Memory.Put.again`).
-/

namespace Addons

/-! ## The object that is kept -/

namespace Object

variable {desired live live' : Object}

/-- What is kept where an object is desired: itself where there was none, the live one where all that the
desired one says holds already, and else the desired one as it adopts the live one. -/
def upserted (desired : Object) : Option Object → Object
  | none => desired
  | some live => if desired.isApplied live then live else desired.adopt live

theorem annotations_of_unstamped (h : live.unstamped = live'.unstamped) :
    live.metadata.annotations = live'.metadata.annotations :=
  congrArg (fun o => o.metadata.annotations) h

/-- Desired and live objects are compared without what the store notes on them. -/
theorem isApplied_congr (h : live.unstamped = live'.unstamped) :
    desired.isApplied live = desired.isApplied live' := by
  unfold isApplied
  rw [data_of_unstamped h, labels_of_unstamped h, annotations_of_unstamped h]

theorem unstamped_adopt_congr (h : live.unstamped = live'.unstamped) :
    (desired.adopt live).unstamped = (desired.adopt live').unstamped := by
  have hfinalizers : live.metadata.finalizers = live'.metadata.finalizers :=
    congrArg (fun o => o.metadata.finalizers) h
  unfold adopt unstamped
  rw [annotations_of_unstamped h, hfinalizers]

theorem unstamped_upserted_congr (h : live.unstamped = live'.unstamped) :
    (desired.upserted (some live)).unstamped = (desired.upserted (some live')).unstamped := by
  show (if desired.isApplied live then live else desired.adopt live).unstamped
    = (if desired.isApplied live' then live' else desired.adopt live').unstamped
  rw [isApplied_congr h]
  split
  · exact h
  · exact unstamped_adopt_congr h

end Object

/-! ## The store -/

/-- An object is in its place, as it is but for what the store notes on it, and nothing else has changed. -/
structure Memory.Put (m : Memory) (k : Key) (o : Object) (m' : Memory) : Prop where
  stored : ∃ stored, m'.object? k = some stored ∧ stored.unstamped = o.unstamped
  others : ∀ s ≠ k.slot, m'.objects.find? s = m.objects.find? s

namespace Memory

variable {m m₁ m₂ m' : Memory} {k : Key} {o desired : Object}

theorem Put.of_objects (hm : m'.objects = m.objects) (ho : m.object? k = some o) : m.Put k o m' :=
  ⟨⟨o, (object?_congr hm k).trans ho, rfl⟩, fun s _ => by rw [hm]⟩

theorem Put.of_insert {stored : Object} (hm : m'.objects = m.objects.insert k.slot stored)
    (hs : stored.unstamped = o.unstamped) : m.Put k o m' := by
  refine ⟨⟨stored, object?_of_insert hm, hs⟩, fun s hne => ?_⟩
  rw [hm]
  exact Table.find?_insert_ne hne stored m.objects

theorem Put.of_same (hm : m₁.objects = m.objects) (h : m₁.Put k o m') : m.Put k o m' :=
  ⟨h.stored, fun s hne => by rw [h.others s hne, hm]⟩

/-- A second object is put over the first one, if that stays in its place in between. -/
theorem Put.again (h₁ : m.Put k o m₁) (hkept : m₂.object? k = m₁.object? k)
    (h₂ : m₂.Put k (desired.upserted (m₂.object? k)) m') :
    ∃ stored, m'.object? k = some stored ∧ stored.unstamped = (desired.upserted (some o)).unstamped := by
  obtain ⟨first, hfirst, hunstamped⟩ := h₁.stored
  obtain ⟨stored, hstored, hupserted⟩ := h₂.stored
  refine ⟨stored, hstored, ?_⟩
  rw [hupserted, hkept, hfirst]
  exact Object.unstamped_upserted_congr hunstamped

end Memory

namespace Session

variable {m m' : Memory} {es : List Event} {k : Key} {desired : Object}

theorem runs_updateUnlessApplied_ok {existing : Object} {a : ApplyOutcome} (hk : desired.key = .ok k)
    (hexisting : m.object? k = some existing)
    (h : (updateUnlessApplied desired existing).Runs m es (.ok a) m') :
    m.Put k (desired.upserted (some existing)) m' := by
  unfold updateUnlessApplied at h
  by_cases happlied : desired.isApplied existing
  · rw [if_pos happlied] at h
    obtain ⟨-, -, rfl⟩ := h
    have hupserted : desired.upserted (some existing) = existing := if_pos happlied
    rw [hupserted]
    exact .of_objects rfl hexisting
  · rw [if_neg happlied] at h
    obtain ⟨stored, m₁, es₁, es₂, hreplace, -, -, rfl⟩ := runs_bind_ok h
    obtain ⟨k', live, hk', -, -, hstamped, -, hm⟩ := runs_replace_ok hreplace
    obtain rfl := Except.ok.inj (hk.symm.trans hk')
    have hupserted : desired.upserted (some existing) = desired.adopt existing := if_neg happlied
    rw [hupserted]
    exact .of_insert hm hstamped.unstamped

/-- A creation that finds its place taken leaves the store alone. -/
theorem runs_createNew_taken {e : Error} (h : (createNew desired).Runs m es (.error e) m')
    (he : e.isAlreadyExists) : m'.objects = m.objects := by
  rcases runs_createNew h with ⟨-, hm, -⟩ | ⟨_, _, -, -, -, -, -, ha⟩
  · exact hm
  · rcases ha with ha | ⟨_, hfault, ha⟩
    · cases ha
    · obtain rfl := Except.error.inj ha
      rw [hfault.2] at he
      cases he

/-- A write that succeeds leaves what its object makes of the one that was there, and nothing else changes.
Where there was none and no other writer is about, the creation does not meet one. -/
theorem runs_createOrUpdate_ok {a : ApplyOutcome} (hk : desired.key = .ok k)
    (h : (createOrUpdate desired).Runs m es (.ok a) m') : m.Put k (desired.upserted (m.object? k)) m' := by
  unfold createOrUpdate at h
  obtain ⟨k', hk', h⟩ | ⟨e, he, -⟩ := runs_lift_bind.1 h
  · obtain rfl := Except.ok.inj (hk.symm.trans hk')
    obtain ⟨live?, m₁, es₁, es₂, hfind, h⟩ := runs_bind_ok h
    obtain ⟨-, hm₁, hlive⟩ := runs_find? hfind
    have hlive : m.object? k = live? := hlive live? rfl
    rw [hlive]
    cases live? with
    | some existing =>
      have hexisting : m₁.object? k = some existing := (Memory.object?_congr hm₁ k).trans hlive
      exact (runs_updateUnlessApplied_ok hk hexisting h).of_same hm₁
    | none =>
      obtain ⟨r, m₂, es₃, es₄, hattempt, h⟩ := runs_bind_ok h
      obtain ⟨_, ⟨rfl⟩, hcreate⟩ := runs_attempt.1 hattempt
      cases r with
      | ok stored =>
        obtain ⟨-, -, rfl⟩ := h
        obtain ⟨k', hk', hstamped, -, hm⟩ := runs_createNew_ok hcreate
        obtain rfl := Except.ok.inj (hk.symm.trans hk')
        exact (Memory.Put.of_insert hm hstamped.unstamped).of_same hm₁
      | error e =>
        dsimp only at h
        by_cases hexists : e.isAlreadyExists
        · rw [if_pos hexists] at h
          obtain ⟨existing, m₃, es₅, es₆, hrequire, -⟩ := runs_bind_ok h
          have hm₂ : m₂.objects = m₁.objects := runs_createNew_taken hcreate hexists
          have hnone : m₂.object? k = none := (Memory.object?_congr (hm₂.trans hm₁) k).trans hlive
          have hsome := (runs_require hrequire).2.2 existing rfl
          rw [hnone] at hsome
          cases hsome
        · rw [if_neg hexists] at h
          obtain ⟨-, hr, -⟩ := h
          cases hr
  · rw [hk] at he
    cases he

/-! ## What a write does on the way -/

variable {P : (Slot → Option Object) → Deed → Prop}

theorem heeds_updateUnlessApplied {existing : Object} (hk : desired.key = .ok k)
    (h : ∀ stored, P m.objects.find? ⟨k.slot, some stored⟩) :
    (updateUnlessApplied desired existing).Heeds P m := by
  unfold updateUnlessApplied
  split
  · exact heeds_done _
  · refine (heeds_replace fun k' stored hk' _ => ?_).bind fun _ _ _ _ => heeds_done _
    obtain rfl := Except.ok.inj (hk.symm.trans hk')
    exact h stored

/-- A write puts objects in its place, and does nothing else. -/
theorem heeds_createOrUpdate (hk : desired.key = .ok k)
    (h : ∀ stored, P m.objects.find? ⟨k.slot, some stored⟩) : (createOrUpdate desired).Heeds P m := by
  unfold createOrUpdate
  refine heeds_lift_bind fun k' hk' => ?_
  obtain rfl := Except.ok.inj (hk.symm.trans hk')
  refine (heeds_find? k).bind fun _ live? m₁ hfind => ?_
  obtain ⟨-, hm₁, -⟩ := runs_find? hfind
  rw [← hm₁] at h
  cases live? with
  | some existing => exact heeds_updateUnlessApplied hk h
  | none =>
    have hcreate : (createNew desired).Heeds P m₁ := heeds_createNew fun k' stored hk' _ _ => by
      obtain rfl := Except.ok.inj (hk.symm.trans hk')
      exact h stored
    refine hcreate.attempt.bind fun _ r m₂ hattempt => ?_
    cases r with
    | ok stored => exact heeds_done _
    | error e =>
      dsimp only
      split
      · rename_i hexists
        obtain ⟨_, ⟨rfl⟩, hcreated⟩ := runs_attempt.1 hattempt
        have hm₂ : m₂.objects = m₁.objects := runs_createNew_taken hcreated hexists
        refine (heeds_require k).bind fun _ existing m₃ hrequire => ?_
        rw [← hm₂, ← (runs_require hrequire).2.1] at h
        exact heeds_updateUnlessApplied hk h
      · exact heeds_done _

end Session

end Addons
