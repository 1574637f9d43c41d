import Addons.Proofs.Store.Journal

/-!
# What a run does at every point

After some of its events a run has left the store with what `Memory.after` says, and after all of them with
what is there at its end (`Session.Runs.after`). `Session.Heeds` says of a session that each of its deeds is
right in view of what the store holds when it is done, wherever the run is cut short. Like `Session.Does` it is
put together along the session, from one rule for each request.
-/

namespace Addons

namespace Memory

/-- What a store holds after some events. -/
def after (m : Memory) (es : List Event) (s : Slot) : Option Object :=
  (Event.lastLeft? es s).getD (m.objects.find? s)

theorem after_append {m m₁ : Memory} {es : List Event} (h : m.after es = m₁.objects.find?)
    (fs : List Event) : m.after (es ++ fs) = m₁.after fs := by
  funext s
  unfold after
  rw [Event.lastLeft?_append, Option.getD_or, ← h]
  rfl

theorem after_concat_none (m : Memory) (es : List Event) : m.after (es ++ [none]) = m.after es := by
  funext s
  unfold after
  rw [Event.lastLeft?_append, Event.lastLeft?_none_cons]
  rfl

theorem after_concat_ne {d : Deed} {s : Slot} (h : d.slot ≠ s) (m : Memory) (es : List Event) :
    m.after (es ++ [some d]) s = m.after es s := by
  unfold after
  rw [Event.lastLeft?_concat_ne h]

end Memory

namespace Session

variable {α β : Type} {m : Memory} {P : (Slot → Option Object) → Deed → Prop} {s : Session α}

theorem Runs.after {m' : Memory} {es : List Event} {a : Except Error α} (h : s.Runs m es a m') :
    m.after es = m'.objects.find? :=
  funext fun slot => (h.find? slot).symm

/-- Whatever comes of a session, each of its deeds is right in view of what the store holds then. -/
def Heeds (s : Session α) (P : (Slot → Option Object) → Deed → Prop) (m : Memory) : Prop :=
  ∀ es a m', s.Runs m es a m' → ∀ before d rest, es = before ++ some d :: rest → P (m.after before) d

theorem Heeds.all {Q : Deed → Prop} {es : List Event} {a : Except Error α} {m' : Memory}
    (hs : s.Heeds (fun _ => Q) m) (h : s.Runs m es a m') : Event.All Q es := by
  intro d hd
  obtain ⟨before, rest, hes⟩ := List.append_of_mem hd
  exact hs es a m' h before d rest hes

/-- A session of which at most one deed comes. -/
theorem heeds_of_single (h : ∀ es a m', s.Runs m es a m' →
    es = [] ∨ es = [none] ∨ ∃ d, es = [some d] ∧ P m.objects.find? d) : s.Heeds P m := by
  intro es a m' hrun before d rest hes
  rcases h es a m' hrun with rfl | rfl | ⟨d', rfl, hd'⟩
  · simp at hes
  · cases before <;> simp at hes
  · cases before with
    | nil =>
      obtain ⟨⟨rfl⟩, -⟩ := List.cons.inj hes
      exact hd'
    | cons e before => simp at hes

theorem heeds_done (r : Except Error α) : (done r).Heeds P m :=
  heeds_of_single fun _ _ _ h => .inl h.1

/-- The deeds of two sessions in a row are those of the first, and then those of the second on the store that
the first one leaves. -/
theorem Heeds.bind {f : α → Session β} (h : s.Heeds P m)
    (hf : ∀ es a m₁, s.Runs m es (.ok a) m₁ → (f a).Heeds P m₁) : (s >>= f).Heeds P m := by
  intro es b m' hrun before d rest hes
  rcases runs_bind.1 hrun with ⟨a, m₁, es₁, es₂, h₁, rfl, h₂⟩ | ⟨e, h₁, -⟩
  · rcases List.append_eq_append_iff.1 hes with ⟨before', rfl, hes₂⟩ | ⟨rest', rfl, hrest⟩
    · rw [Memory.after_append h₁.after]
      exact hf es₁ a m₁ h₁ es₂ b m' h₂ before' d rest hes₂
    · cases rest' with
      | nil =>
        rw [List.append_nil] at h₁
        rw [h₁.after]
        exact hf before a m₁ h₁ es₂ b m' h₂ [] d rest hrest.symm
      | cons e rest' =>
        obtain ⟨rfl, -⟩ := List.cons.inj hrest
        exact h _ _ m₁ h₁ before d rest' rfl
  · exact h es _ m' h₁ before d rest hes

theorem Heeds.attempt (h : s.Heeds P m) : s.attempt.Heeds P m := by
  intro es a m' hrun
  obtain ⟨r, -, hrun⟩ := runs_attempt.1 hrun
  exact h es r m' hrun

theorem heeds_lift_bind {x : Except Error α} {f : α → Session β}
    (hf : ∀ a, x = .ok a → (f a).Heeds P m) : ((liftM x : Session α) >>= f).Heeds P m := by
  intro es b m' hrun
  rcases runs_lift_bind.1 hrun with ⟨a, ha, hrun⟩ | ⟨e, -, rfl, -, -⟩
  · exact hf a ha es b m' hrun
  · intro before d rest hes
    simp at hes

theorem heeds_listAll (t : TypeRef) (ns sel : Option String) : (listAll t ns sel).Heeds P m :=
  heeds_of_single fun _ _ _ h => .inl (runs_listAll h).1

theorem heeds_find? (k : Key) : (Session.find? k).Heeds P m :=
  heeds_of_single fun _ _ _ h => .inl (runs_find? h).1

theorem heeds_require (k : Key) : (require k).Heeds P m :=
  heeds_of_single fun _ _ _ h => .inl (runs_require h).1

theorem heeds_createNew {o : Object} (h : ∀ k stored, o.key = .ok k → m.object? k = none →
    stored.unstamped = o.unstamped → P m.objects.find? ⟨k.slot, some stored⟩) : (createNew o).Heeds P m := by
  refine heeds_of_single fun es a m' hrun => .inr ?_
  obtain ⟨rfl, -, -⟩ | ⟨k, stored, hk, hnone, hs, rfl, -, -⟩ := runs_createNew hrun
  · exact .inl rfl
  · exact .inr ⟨_, rfl, h k stored hk hnone hs.unstamped⟩

theorem heeds_replace {o : Object} (h : ∀ k stored, o.key = .ok k →
    stored.unstamped = o.unstamped → P m.objects.find? ⟨k.slot, some stored⟩) : (replace o).Heeds P m := by
  refine heeds_of_single fun es a m' hrun => .inr ?_
  obtain ⟨rfl, -, -⟩ | ⟨k, _, stored, hk, -, -, hs, rfl, -, -⟩ := runs_replace hrun
  · exact .inl rfl
  · exact .inr ⟨_, rfl, h k stored hk hs.unstamped⟩

theorem heeds_removeIfExists {k : Key} {p : Propagation} (h : P m.objects.find? ⟨k.slot, none⟩) :
    (removeIfExists k p).Heeds P m := by
  refine heeds_of_single fun es a m' hrun => .inr ?_
  obtain ⟨rfl, -, -⟩ | ⟨rfl, -, -⟩ := runs_removeIfExists hrun
  · exact .inl rfl
  · exact .inr ⟨_, rfl, h⟩

end Session

end Addons
