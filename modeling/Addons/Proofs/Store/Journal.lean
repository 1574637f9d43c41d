import Addons.Proofs.Store.Requests
import Mathlib.Data.List.ReduceOption

/-!
# What a run does, deed by deed

The journal of the store gets one note for each deed of a run, in their order (`Memory.Noted`). `Session.Does`
says of a session that all its deeds and their notes are of a kind, whatever comes of it. It is put together
along the session, from one rule for each request.
-/

namespace Addons

/-- Of two lists that are paired off, each item of one has a partner in the other. -/
theorem mem_of_forall₂ {α β : Type} {R : α → β → Prop} {l : List α} {l' : List β}
    (h : List.Forall₂ R l l') :
    (∀ a ∈ l, ∃ b ∈ l', R a b) ∧ ∀ b ∈ l', ∃ a ∈ l, R a b := by
  induction h with
  | nil => exact ⟨fun a ha => (by cases ha), fun b hb => (by cases hb)⟩
  | cons hab _ ih =>
    refine ⟨List.forall_mem_cons.2 ⟨⟨_, List.mem_cons_self, hab⟩, fun a ha => ?_⟩,
      List.forall_mem_cons.2 ⟨⟨_, List.mem_cons_self, hab⟩, fun b hb => ?_⟩⟩
    · obtain ⟨b, hb, hr⟩ := ih.1 a ha
      exact ⟨b, List.mem_cons_of_mem _ hb, hr⟩
    · obtain ⟨a, ha, hr⟩ := ih.2 b hb
      exact ⟨a, List.mem_cons_of_mem _ ha, hr⟩

/-! ## Deeds among events -/

namespace Event

/-- Every deed among some events is of a kind. -/
def All (P : Deed → Prop) (es : List Event) : Prop := ∀ d, some d ∈ es → P d

variable {P : Deed → Prop} {es fs : List Event} {d : Deed} {s : Slot} {left : Option Object}

@[simp] theorem all_nil : All P [] := by simp [All]

@[simp] theorem all_cons_none : All P (none :: es) ↔ All P es := by simp [All]

@[simp] theorem all_cons_some : All P (some d :: es) ↔ P d ∧ All P es := by simp [All]

@[simp] theorem all_append : All P (es ++ fs) ↔ All P es ∧ All P fs := by
  simp only [All, List.mem_append]
  exact ⟨fun h => ⟨fun d hd => h d (.inl hd), fun d hd => h d (.inr hd)⟩,
    fun h d hd => hd.elim (h.1 d) (h.2 d)⟩

/-- What was left last in a slot was left there by a deed. -/
theorem mem_of_lastLeft? (h : lastLeft? es s = some left) : some ⟨s, left⟩ ∈ es := by
  induction es with
  | nil => cases h
  | cons e es ih =>
    rw [lastLeft?, Option.or_eq_some_iff] at h
    rcases h with h | ⟨-, h⟩
    · exact List.mem_cons_of_mem e (ih h)
    · obtain ⟨d, hd, rfl⟩ := Option.map_eq_some_iff.1 h
      obtain ⟨rfl, hs⟩ := Option.filter_eq_some_iff.1 hd
      have hslot : d.slot = s := of_decide_eq_true hs
      rw [← hslot]
      exact List.mem_cons_self

/-- Nothing was left in a slot exactly if no deed is about it. -/
theorem lastLeft?_eq_none_iff : lastLeft? es s = none ↔ All (fun d => d.slot ≠ s) es := by
  induction es with
  | nil => simp [lastLeft?]
  | cons e es ih =>
    rw [lastLeft?, Option.or_eq_none_iff, ih]
    cases e with
    | none => simp [left?]
    | some d =>
      by_cases hs : d.slot = s
      · simp [left?, Option.filter, hs]
      · simp [left?, Option.filter, hs]

/-- The last deed among some events. -/
def last? : List Event → Option Deed
  | [] => none
  | e :: es => (last? es).or e

theorem last?_append (es fs : List Event) : last? (es ++ fs) = (last? fs).or (last? es) := by
  induction es with
  | nil => simp [last?]
  | cons e es ih =>
    show (last? (es ++ fs)).or e = _
    rw [ih, Option.or_assoc]
    rfl

theorem last?_eq_none (h : last? es = none) : lastLeft? es s = none := by
  induction es with
  | nil => rfl
  | cons e es ih =>
    rw [last?, Option.or_eq_none_iff] at h
    obtain ⟨hes, rfl⟩ := h
    rw [lastLeft?_none_cons]
    exact ih hes

/-- The last deed of all is the last in its slot. -/
theorem lastLeft?_of_last? (h : last? es = some d) : lastLeft? es d.slot = some d.left := by
  induction es with
  | nil => cases h
  | cons e es ih =>
    rw [last?, Option.or_eq_some_iff] at h
    rcases h with h | ⟨hnone, rfl⟩
    · rw [lastLeft?, ih h]
      rfl
    · rw [lastLeft?, last?_eq_none hnone, left?_some_self]
      rfl

end Event

/-! ## Notes in the journal -/

namespace Change

/-- The object that a change is about. -/
def key : Change → Key
  | .create k | .update k | .delete k | .finalizers k _ | .status k => k

/-- An object is created or updated. -/
def Writes (c : Change) (k : Key) : Prop := c = .create k ∨ c = .update k

theorem Writes.key_eq {c : Change} {k : Key} (h : c.Writes k) : c.key = k := by
  rcases h with rfl | rfl <;> rfl

/-- What is noted of a request about a key. -/
def about (change : Key → Change) (key : Except Error Key) (granted : Bool) : List Change :=
  match key with
  | .ok k => if granted then [change k] else []
  | .error _ => []

end Change

namespace Memory

/-- The journal has grown by a note for each deed, in their order. -/
def Noted (P : Deed → Change → Prop) (m : Memory) (es : List Event) (m' : Memory) : Prop :=
  ∃ cs, m'.journal = m.journal ++ cs ∧ List.Forall₂ P es.reduceOption cs

variable {P Q : Deed → Change → Prop} {m m₁ m' : Memory} {es fs : List Event}

theorem Noted.nil (h : m'.journal = m.journal) : m.Noted P [] m' := ⟨[], by simp [h], .nil⟩

/-- Where there are no deeds the journal stays. -/
theorem Noted.journal_eq (h : m.Noted P [] m') : m'.journal = m.journal := by
  obtain ⟨cs, hcs, hP⟩ := h
  cases hP
  rw [hcs, List.append_nil]

theorem Noted.append (h : m.Noted P es m₁) (h' : m₁.Noted P fs m') : m.Noted P (es ++ fs) m' := by
  obtain ⟨cs, hcs, hP⟩ := h
  obtain ⟨cs', hcs', hP'⟩ := h'
  refine ⟨cs ++ cs', by rw [hcs', hcs, List.append_assoc], ?_⟩
  rw [List.reduceOption_append]
  exact List.rel_append hP hP'

theorem Noted.imp (h : m.Noted P es m') (hPQ : ∀ d c, P d c → Q d c) : m.Noted Q es m' := by
  obtain ⟨cs, hcs, hP⟩ := h
  exact ⟨cs, hcs, hP.imp hPQ⟩

theorem Noted.all (h : m.Noted P es m') : Event.All (fun d => ∃ c, P d c) es := by
  obtain ⟨cs, -, hP⟩ := h
  intro d hd
  have hmem : d ∈ es.reduceOption := List.reduceOption_mem_iff.2 hd
  obtain ⟨c, -, hc⟩ := (mem_of_forall₂ hP).1 d hmem
  exact ⟨c, hc⟩

end Memory

namespace Answered

variable {m m' : Memory} {g : Bool} {P : Deed → Change → Prop}

/-- A counted request notes nothing itself. -/
theorem journal_request {α : Type} {v : Verb} {kind : String} {key : Except Error Key}
    {change : Key → Change} {go : Memory → Except Error α × Memory}
    (hgo : ∀ m₁ : Memory, m₁.objects = m.objects →
      (go m₁).2.journal = m₁.journal ++ Change.about change key (go m₁).1.isOk) :
    (m.request v kind go).2.journal
      = m.journal ++ Change.about change key (m.request v kind go).1.isOk := by
  unfold Memory.request
  dsimp only
  split
  · cases key <;> simp [Change.about, Except.isOk, Except.toBool]
  · exact hgo _ rfl

/-- A look at the store is not noted. -/
theorem journal_get {k : Key} {r : Except Error Object} (h : Answered (m.get k) m r g m') :
    m'.journal = m.journal := by
  have hserved : (m.get k).2.journal = m.journal := by
    unfold Memory.get Memory.request
    dsimp only
    split
    · rfl
    · split <;> rfl
  cases h with
  | served => exact hserved
  | refused _ => rfl
  | lost _ => exact hserved

theorem journal_create (m : Memory) (o : Object) :
    (m.create o).2.journal = m.journal ++ Change.about .create o.key (m.create o).1.isOk := by
  unfold Memory.create
  cases o.key with
  | error e => simp [Change.about]
  | ok k =>
    refine journal_request fun m₁ _ => ?_
    dsimp only
    split <;> simp [Change.about, Except.isOk, Except.toBool]

theorem journal_update (m : Memory) (o : Object) :
    (m.update o).2.journal = m.journal ++ Change.about .update o.key (m.update o).1.isOk := by
  unfold Memory.update
  cases o.key with
  | error e => simp [Change.about]
  | ok k =>
    refine journal_request fun m₁ _ => ?_
    dsimp only
    split
    · simp [Change.about, Except.isOk, Except.toBool]
    · simp [Change.about, Except.isOk, Except.toBool]
    · split <;> simp [Change.about, Except.isOk, Except.toBool]

theorem journal_delete (m : Memory) (k : Key) :
    (m.delete k).2.journal = m.journal ++ Change.about .delete (.ok k) (m.delete k).1.isOk := by
  unfold Memory.delete
  refine journal_request fun m₁ _ => ?_
  split <;> simp [Change.about, Except.isOk, Except.toBool]

/-- Whatever the client is told, what came of a request is noted. -/
theorem noted {α : Type} {key : Except Error Key} {change : Key → Change}
    {served : Except Error α × Memory} {r : Except Error α} (h : Answered served m r g m')
    (hj : served.2.journal = m.journal ++ Change.about change key served.1.isOk)
    (hP : ∀ k, key = .ok k → g = true → P ⟨k.slot, m'.object? k⟩ (change k)) :
    m.Noted P [Event.about key g m'] m' := by
  have hjournal : m'.journal = m.journal ++ Change.about change key g := by
    cases h with
    | served => exact hj
    | refused _ => cases key <;> simp [Change.about]
    | lost _ => exact hj
  refine ⟨_, hjournal, ?_⟩
  cases key with
  | error e => exact .nil
  | ok k =>
    cases g with
    | false => exact .nil
    | true => exact .cons (hP k rfl rfl) .nil

end Answered

/-! ## Deeds of a session -/

namespace Session

variable {α β : Type} {m : Memory} {P Q : Deed → Change → Prop}

/-- Whatever comes of a session, all that it does is of a kind, and noted. -/
def Does (s : Session α) (P : Deed → Change → Prop) (m : Memory) : Prop :=
  ∀ es a m', s.Runs m es a m' → m.Noted P es m'

theorem Does.imp {s : Session α} (h : s.Does P m) (hPQ : ∀ d c, P d c → Q d c) : s.Does Q m := by
  intro es a m' hrun
  exact (h es a m' hrun).imp hPQ

theorem does_done (r : Except Error α) : (done r).Does P m := by
  rintro es a m' ⟨rfl, -, rfl⟩
  exact .nil rfl

theorem Does.bind {s : Session α} {f : α → Session β} (h : s.Does P m)
    (hf : ∀ es a m₁, s.Runs m es (.ok a) m₁ → (f a).Does P m₁) : (s >>= f).Does P m := by
  intro es b m' hrun
  rcases runs_bind.1 hrun with ⟨a, m₁, es₁, es₂, h₁, rfl, h₂⟩ | ⟨e, h₁, -⟩
  · exact (h es₁ _ m₁ h₁).append (hf es₁ a m₁ h₁ es₂ b m' h₂)
  · exact h es _ m' h₁

theorem Does.attempt {s : Session α} (h : s.Does P m) : s.attempt.Does P m := by
  intro es a m' hrun
  obtain ⟨r, -, hrun⟩ := runs_attempt.1 hrun
  exact h es r m' hrun

theorem does_lift_bind {x : Except Error α} {f : α → Session β} (hf : ∀ a, x = .ok a → (f a).Does P m) :
    ((liftM x : Session α) >>= f).Does P m := by
  intro es b m' hrun
  rcases runs_lift_bind.1 hrun with ⟨a, ha, hrun⟩ | ⟨e, -, rfl, -, rfl⟩
  · exact hf a ha es b m' hrun
  · exact .nil rfl

theorem does_require (k : Key) : (require k).Does P m := by
  rintro es a m' ⟨r, g, m₁, hr, rfl, -, rfl⟩
  exact .nil hr.journal_get

theorem does_find? (k : Key) : (Session.find? k).Does P m := by
  rintro es a m' ⟨r, g, m₁, hr, h⟩
  have hdone : es = [] ∧ m' = m₁ := by
    cases r with
    | ok o =>
      obtain ⟨rfl, -, rfl⟩ := h
      exact ⟨rfl, rfl⟩
    | error e =>
      dsimp only at h
      split at h <;>
      · obtain ⟨rfl, -, rfl⟩ := h
        exact ⟨rfl, rfl⟩
  obtain ⟨rfl, rfl⟩ := hdone
  exact .nil hr.journal_get

theorem does_createNew {o : Object}
    (h : ∀ k stored, o.key = .ok k → stored.unstamped = o.unstamped → P ⟨k.slot, some stored⟩ (.create k)) :
    (createNew o).Does P m := by
  rintro es a m' ⟨r, g, m₁, fs, hr, rfl, rfl, rfl, rfl⟩
  refine hr.noted (Answered.journal_create m o) fun k hk hg => ?_
  rcases hr.create with ⟨hg', -, -⟩ | ⟨-, k', stored, hk', -, hs, hm, -⟩
  · rw [hg] at hg'
    cases hg'
  · obtain rfl := Except.ok.inj (hk.symm.trans hk')
    rw [Memory.object?_of_insert hm]
    exact h k stored hk hs.unstamped

theorem does_replace {o : Object}
    (h : ∀ k stored, o.key = .ok k → stored.unstamped = o.unstamped → P ⟨k.slot, some stored⟩ (.update k)) :
    (replace o).Does P m := by
  rintro es a m' ⟨r, g, m₁, fs, hr, rfl, rfl, rfl, rfl⟩
  refine hr.noted (Answered.journal_update m o) fun k hk hg => ?_
  rcases hr.update with ⟨hg', -, -⟩ | ⟨-, k', _, stored, hk', -, -, hs, hm, -⟩
  · rw [hg] at hg'
    cases hg'
  · obtain rfl := Except.ok.inj (hk.symm.trans hk')
    rw [Memory.object?_of_insert hm]
    exact h k stored hk hs.unstamped

theorem does_removeIfExists {k : Key} {p : Propagation} (h : P ⟨k.slot, none⟩ (.delete k)) :
    (removeIfExists k p).Does P m := by
  rintro es a m' ⟨r, g, m₁, fs, hr, rfl, hnext⟩
  have hnoted : m.Noted P [Event.about (.ok k) g m₁] m₁ := by
    refine hr.noted (Answered.journal_delete m k) fun k' hk hg => ?_
    obtain rfl := Except.ok.inj hk
    rcases hr.delete with ⟨hg', -, -⟩ | ⟨-, hm, -⟩
    · rw [hg] at hg'
      cases hg'
    · rw [Memory.object?_of_erase hm]
      exact h
  have hdone : fs = [] ∧ m' = m₁ := by
    cases r with
    | ok _ =>
      obtain ⟨rfl, -, rfl⟩ := hnext
      exact ⟨rfl, rfl⟩
    | error e =>
      dsimp only at hnext
      split at hnext <;>
      · obtain ⟨rfl, -, rfl⟩ := hnext
        exact ⟨rfl, rfl⟩
  obtain ⟨rfl, rfl⟩ := hdone
  exact hnoted

end Session

end Addons
