import Addons.Proofs.Store.Journal

/-!
# When an object was last written

A store notes the time on an object when it creates or updates it, and at no other time. So a run that has in
its journal that an object was written leaves it with the time of the store, and one that has not leaves the
object's times, and all of it but its status, as they were (`Session.Runs.leaves`).
-/

namespace Addons

/-- The object in a slot is created or updated. -/
def Change.WritesAt (c : Change) (s : Slot) : Prop := ∃ k, c.Writes k ∧ k.slot = s

/-- The object as it is after its status or its finalizers were written. -/
structure Object.Retained (o o' : Object) : Prop where
  managed : o'.metadata.managedFields = o.metadata.managedFields
  created : o'.metadata.creationTimestamp = o.metadata.creationTimestamp
  data : ∀ k ≠ "status", Table.find? o'.data k = Table.find? o.data k

namespace Object.Retained

variable {o o' o'' : Object}

theorem refl (o : Object) : o.Retained o := ⟨rfl, rfl, fun _ _ => rfl⟩

theorem trans (h : o.Retained o') (h' : o'.Retained o'') : o.Retained o'' :=
  ⟨h'.managed.trans h.managed, h'.created.trans h.created, fun k hk => (h'.data k hk).trans (h.data k hk)⟩

end Object.Retained

namespace Memory

variable {m m₁ m' : Memory} {s : Slot}

/-- What comes of the object in a slot, by what is noted in the journal. -/
structure Leaves (s : Slot) (m : Memory) (cs : List Change) (m' : Memory) : Prop where
  now : m'.now = m.now
  journal : m'.journal = m.journal ++ cs
  written : ∀ o', m'.objects.find? s = some o' → (∃ c ∈ cs, c.WritesAt s) →
    o'.metadata.managedFields = some (stamp m.now)
  spared : ∀ o', m'.objects.find? s = some o' → (∀ c ∈ cs, ¬c.WritesAt s) →
    ∃ o, m.objects.find? s = some o ∧ o.Retained o'

theorem Leaves.of_same (hnow : m'.now = m.now) (hjournal : m'.journal = m.journal)
    (hobjects : m'.objects = m.objects) : m.Leaves s [] m' := by
  refine ⟨hnow, hjournal.trans (List.append_nil _).symm, fun o' _ hwritten => ?_, fun o' ho' _ => ?_⟩
  · obtain ⟨c, hc, -⟩ := hwritten
    exact absurd hc List.not_mem_nil
  · rw [hobjects] at ho'
    exact ⟨o', ho', .refl o'⟩

theorem Leaves.trans {cs cs' : List Change} (h : m.Leaves s cs m₁) (h' : m₁.Leaves s cs' m') :
    m.Leaves s (cs ++ cs') m' := by
  refine ⟨h'.now.trans h.now, by rw [h'.journal, h.journal, List.append_assoc], ?_, ?_⟩
  · rintro o' ho' ⟨c, hc, hwrites⟩
    by_cases hlater : ∃ c ∈ cs', c.WritesAt s
    · rw [h'.written o' ho' hlater, h.now]
    · obtain ⟨o, ho, hretained⟩ := h'.spared o' ho' fun c hc hw => hlater ⟨c, hc, hw⟩
      rcases List.mem_append.1 hc with hc | hc
      · rw [hretained.managed, h.written o ho ⟨c, hc, hwrites⟩]
      · exact absurd ⟨c, hc, hwrites⟩ hlater
  · intro o' ho' hnone
    obtain ⟨o₁, ho₁, hretained'⟩ := h'.spared o' ho' fun c hc => hnone c (List.mem_append_right _ hc)
    obtain ⟨o, ho, hretained⟩ := h.spared o₁ ho₁ fun c hc => hnone c (List.mem_append_left _ hc)
    exact ⟨o, ho, hretained.trans hretained'⟩

variable {k : Key} {o stored : Object} {c : Change}

theorem Leaves.of_put (hc : c.Writes k) (hnow : m'.now = m.now) (hjournal : m'.journal = m.journal ++ [c])
    (hobjects : m'.objects = m.objects.insert k.slot stored)
    (hstored : stored.metadata.managedFields = some (stamp m.now)) : m.Leaves s [c] m' := by
  refine ⟨hnow, hjournal, ?_, ?_⟩
  · rintro o' ho' ⟨c', hc', k', hwrites, rfl⟩
    obtain rfl := List.mem_singleton.1 hc'
    obtain rfl : k' = k := hwrites.key_eq.symm.trans hc.key_eq
    rw [hobjects, Table.find?_insert_self] at ho'
    obtain rfl := Option.some.inj ho'
    exact hstored
  · intro o' ho' hnone
    have hne : s ≠ k.slot := fun hs => hnone c List.mem_cons_self ⟨k, hc, hs.symm⟩
    rw [hobjects, Table.find?_insert_ne hne] at ho'
    exact ⟨o', ho', .refl o'⟩

theorem Leaves.of_erase (hnow : m'.now = m.now) (hjournal : m'.journal = m.journal ++ [.delete k])
    (hobjects : m'.objects = m.objects.erase k.slot) : m.Leaves s [.delete k] m' := by
  refine ⟨hnow, hjournal, ?_, ?_⟩
  · rintro o' - ⟨c, hc, k', hwrites, -⟩
    obtain rfl := List.mem_singleton.1 hc
    rcases hwrites with h | h <;> cases h
  · intro o' ho' _
    have hne : s ≠ k.slot := by
      rintro rfl
      rw [hobjects, Table.find?_erase_self] at ho'
      cases ho'
    rw [hobjects, Table.find?_erase_ne hne] at ho'
    exact ⟨o', ho', .refl o'⟩

theorem Leaves.of_renew (hc : ∀ k, ¬c.Writes k) (ho : m.object? k = some o) (hretained : o.Retained stored)
    (hnow : m'.now = m.now) (hjournal : m'.journal = m.journal ++ [c])
    (hobjects : m'.objects = m.objects.insert k.slot stored) : m.Leaves s [c] m' := by
  refine ⟨hnow, hjournal, ?_, ?_⟩
  · rintro o' - ⟨c', hc', k', hwrites, -⟩
    obtain rfl := List.mem_singleton.1 hc'
    exact absurd hwrites (hc k')
  · intro o' ho' _
    rw [hobjects, Table.find?_insert] at ho'
    split at ho'
    · rename_i hs
      obtain rfl := Option.some.inj ho'
      exact ⟨o, hs ▸ ho, hretained⟩
    · exact ⟨o', ho', .refl o'⟩

/-- A request that is counted and fails leaves what was there. -/
theorem request_leaves {α : Type} {v : Verb} {kind : String} {go : Memory → Except Error α × Memory}
    (hgo : ∀ m₁ : Memory, m₁.objects = m.objects → m₁.journal = m.journal → m₁.now = m.now →
      ∃ cs, m.Leaves s cs (go m₁).2) : ∃ cs, m.Leaves s cs (m.request v kind go).2 := by
  unfold request
  dsimp only
  split
  · exact ⟨[], .of_same rfl rfl rfl⟩
  · exact hgo _ rfl rfl rfl

theorem Served.leaves (h : m.Served m') (s : Slot) : ∃ cs, m.Leaves s cs m' := by
  cases h with
  | get k =>
    refine request_leaves fun m₁ hobjects hjournal hnow => ⟨[], ?_⟩
    split <;> exact .of_same hnow hjournal hobjects
  | list t ns sel => exact request_leaves fun m₁ hobjects hjournal hnow => ⟨[], .of_same hnow hjournal hobjects⟩
  | create o =>
    unfold Memory.create
    cases o.key with
    | error e => exact ⟨[], .of_same rfl rfl rfl⟩
    | ok k =>
      refine request_leaves fun m₁ hobjects hjournal hnow => ?_
      dsimp only
      split
      · exact ⟨[], .of_same hnow hjournal hobjects⟩
      · exact ⟨[.create k], .of_put (.inl rfl) hnow (congrArg (· ++ _) hjournal)
          (congrArg (Table.insert k.slot _) hobjects) (congrArg (fun t => some (stamp t)) hnow)⟩
  | update o =>
    unfold Memory.update
    cases o.key with
    | error e => exact ⟨[], .of_same rfl rfl rfl⟩
    | ok k =>
      refine request_leaves fun m₁ hobjects hjournal hnow => ?_
      dsimp only
      split
      · exact ⟨[], .of_same hnow hjournal hobjects⟩
      · exact ⟨[], .of_same hnow hjournal hobjects⟩
      · split
        · exact ⟨[], .of_same hnow hjournal hobjects⟩
        · exact ⟨[.update k], .of_put (.inr rfl) hnow (congrArg (· ++ _) hjournal)
            (congrArg (Table.insert k.slot _) hobjects) (congrArg (fun t => some (stamp t)) hnow)⟩
  | delete k =>
    refine request_leaves fun m₁ hobjects hjournal hnow => ?_
    split
    · exact ⟨[], .of_same hnow hjournal hobjects⟩
    · exact ⟨[.delete k], .of_erase hnow (congrArg (· ++ _) hjournal)
        (congrArg (fun t => Table.erase t k.slot) hobjects)⟩
  | setFinalizers k names =>
    unfold Memory.setFinalizers
    cases ho : m.object? k with
    | none => exact ⟨[], .of_same rfl rfl rfl⟩
    | some o =>
      have hrenewed : m.Leaves s [.finalizers k names]
          (m.putVersion k { o with metadata := { o.metadata with finalizers := some names } }
            (.finalizers k names)).2 := by
        refine .of_renew (fun k' hwrites => ?_) ho ?_ rfl rfl rfl
        · rcases hwrites with h | h <;> cases h
        · exact ⟨rfl, rfl, fun _ _ => rfl⟩
      dsimp only
      split
      · exact ⟨_, hrenewed.trans (.of_erase rfl rfl rfl)⟩
      · exact ⟨_, hrenewed⟩
  | mergeStatus k status =>
    unfold Memory.mergeStatus
    cases ho : m.object? k with
    | none => exact ⟨[], .of_same rfl rfl rfl⟩
    | some o =>
      refine ⟨[.status k], .of_renew (fun k' hwrites => ?_) ho ?_ rfl rfl rfl⟩
      · rcases hwrites with h | h <;> cases h
      · exact ⟨rfl, rfl, fun k hk => Table.find?_insert_ne hk _ _⟩

end Memory

namespace Session

variable {α : Type} {m m' : Memory} {es : List Event}

/-- An update that has succeeded is noted. -/
theorem runs_replace_noted {o stored : Object} (h : (replace o).Runs m es (.ok stored) m') :
    ∃ k, o.key = .ok k ∧ m'.journal = m.journal ++ [.update k] := by
  obtain ⟨r, g, m₁, fs, hr, -, -, rfl, rfl⟩ := h
  generalize hanswer : (.ok stored : Except Error Object) = answer at hr
  cases hr with
  | refused _ => cases hanswer
  | lost _ => cases hanswer
  | served =>
    have hjournal := Answered.journal_update m o
    rw [← hanswer] at hjournal
    cases hk : o.key with
    | error e =>
      unfold Memory.update at hanswer
      rw [hk] at hanswer
      cases hanswer
    | ok k =>
      rw [hk] at hjournal
      exact ⟨k, rfl, hjournal⟩

/-- What a run leaves of the object in a slot, by what is noted in the journal. -/
theorem Runs.leaves {sn : Session α} {a : Except Error α} (h : sn.Runs m es a m') (s : Slot) :
    ∃ cs, m.Leaves s cs m' := by
  have hreaches := h.reaches
  clear h
  induction hreaches with
  | refl => exact ⟨[], .of_same rfl rfl rfl⟩
  | tail _ hserved ih =>
    obtain ⟨cs, hleaves⟩ := ih
    obtain ⟨cs', hleaves'⟩ := hserved.leaves s
    exact ⟨cs ++ cs', hleaves.trans hleaves'⟩

end Session

end Addons
