import Addons.Proofs.Store.Filed

/-!
# What a run against the store comes to

`Session.Ends` says with which result and which store a session ends when it is run against a store to its
end. It is put together along the session (`Ends.bind`), from one rule for each request: one that is not among
those that are to fail is answered from what the store holds, and a look at the store changes nothing of it
but its counts (`Memory.looked`). What is to fail was so from the start (`Session.Runs.failures_subset`).
-/

namespace Addons

/-! ## Requests that fail -/

namespace Memory

variable {m : Memory} {α : Type} {v : Verb} {kind : String} {go : Memory → Except Error α × Memory}

/-- No request is to fail. -/
def Healthy (m : Memory) : Prop := m.failures = []

theorem Healthy.not_mem (h : m.Healthy) (f : Verb × String) : f ∉ m.failures := by
  rw [show m.failures = [] from h]
  exact List.not_mem_nil

/-- The store with more gets and lists counted. -/
def looked (m : Memory) (gets lists : Nat) : Memory :=
  { m with counts := { m.counts with gets := m.counts.gets + gets, lists := m.counts.lists + lists } }

theorem looked_looked (m : Memory) (gets lists gets' lists' : Nat) :
    (m.looked gets lists).looked gets' lists' = m.looked (gets + gets') (lists + lists') := by
  simp only [looked, Nat.add_assoc]

theorem Filed.looked (h : m.Filed) (gets lists : Nat) : (m.looked gets lists).Filed :=
  h.of_objects rfl le_rfl

/-- A request that is not to fail goes on. -/
theorem request_eq (h : (v, kind) ∉ m.failures) :
    m.request v kind go = go { m with counts := m.counts.count v } := by
  have hnone : takeFailure m.failures v kind = none := by
    unfold takeFailure
    rw [if_neg (by rwa [List.contains_iff_mem])]
  simp only [request, hnone]

/-- A request that is to fail does so, once. -/
theorem request_failed (h : (v, kind) ∈ m.failures) : m.request v kind go
    = (.error (.timeout "injected"),
      { m with counts := m.counts.count v, failures := m.failures.erase (v, kind) }) := by
  have hsome : takeFailure m.failures v kind = some (m.failures.erase (v, kind)) := by
    unfold takeFailure
    rw [if_pos (List.contains_iff_mem.2 h)]
  simp only [request, hsome]

theorem request_failures (hgo : ∀ m₁ : Memory, m₁.failures = m.failures → (go m₁).2.failures = m.failures) :
    (m.request v kind go).2.failures ⊆ m.failures := by
  by_cases h : (v, kind) ∈ m.failures
  · rw [request_failed h]
    exact List.erase_subset
  · rw [request_eq h, hgo { m with counts := m.counts.count v } rfl]
    exact List.Subset.refl _

end Memory

/-- A request that ends well, or with what is missing, was not to fail. -/
theorem Answered.not_mem_failures {α : Type} {m m' : Memory} {v : Verb} {kind : String}
    {go : Memory → Except Error α × Memory} {r : Except Error α} {g : Bool}
    (h : Answered (m.request v kind go) m r g m') (hr : ∀ e, r = .error e → e.isNotFound) :
    (v, kind) ∉ m.failures := by
  cases h with
  | refused he | lost he => exact absurd (he.1.symm.trans (hr _ rfl)) Bool.false_ne_true
  | served =>
    intro hmem
    rw [Memory.request_failed hmem] at hr
    cases hr _ rfl

theorem Memory.Served.failures_subset {m m' : Memory} (h : m.Served m') : m'.failures ⊆ m.failures := by
  cases h with
  | get k =>
    refine request_failures fun m₁ hm => ?_
    split <;> exact hm
  | list t ns sel => exact request_failures fun m₁ hm => hm
  | create o =>
    unfold Memory.create
    cases o.key with
    | error e => exact List.Subset.refl _
    | ok k =>
      refine request_failures fun m₁ hm => ?_
      split <;> exact hm
  | update o =>
    unfold Memory.update
    cases o.key with
    | error e => exact List.Subset.refl _
    | ok k =>
      refine request_failures fun m₁ hm => ?_
      split
      · exact hm
      · exact hm
      · split <;> exact hm
  | delete k =>
    refine request_failures fun m₁ hm => ?_
    split <;> exact hm
  | setFinalizers k names =>
    unfold Memory.setFinalizers
    cases m.object? k with
    | none => exact List.Subset.refl _
    | some o =>
      dsimp only
      split <;> exact List.Subset.refl _
  | mergeStatus k status =>
    unfold Memory.mergeStatus
    cases m.object? k with
    | none => exact List.Subset.refl _
    | some o => exact List.Subset.refl _

namespace Session

variable {α β : Type} {m m' : Memory} {es : List Event}

/-- A run adds nothing to what is to fail. -/
theorem Runs.failures_subset {s : Session α} {a : Except Error α} (h : s.Runs m es a m') :
    m'.failures ⊆ m.failures := by
  have hreaches := h.reaches
  clear h
  induction hreaches with
  | refl => exact List.Subset.refl _
  | tail _ hserved ih => exact List.Subset.trans hserved.failures_subset ih

theorem Runs.healthy {s : Session α} {a : Except Error α} (h : s.Runs m es a m') (hm : m.Healthy) :
    m'.Healthy :=
  List.subset_nil.1 (hm ▸ h.failures_subset)

theorem runs_listAll_ok {t : TypeRef} {ns sel : Option String} {l : List Object}
    (h : (listAll t ns sel).Runs m es (.ok l) m') : (.list, t.kind) ∉ m.failures := by
  obtain ⟨r, g, m₁, hr, -, rfl, -⟩ := h
  exact Answered.not_mem_failures hr fun e he => nomatch he

theorem runs_find?_ok {k : Key} {o? : Option Object} (h : (Session.find? k).Runs m es (.ok o?) m') :
    (.get, k.type.kind) ∉ m.failures := by
  obtain ⟨r, g, m₁, hr, h⟩ := h
  refine Answered.not_mem_failures hr ?_
  rintro e rfl
  by_contra he
  dsimp only at h
  rw [if_neg he] at h
  obtain ⟨-, hok, -⟩ := h
  cases hok

/-! ## The end of a run -/

/-- Run against the store, the session ends with a result and a store of which something holds. -/
def Ends (s : Session α) (m : Memory) (P : Except Error α → Memory → Prop) : Prop :=
  ∀ h : Host, P (s.run { h with memory := m }).1 (s.run { h with memory := m }).2.memory

variable {s : Session α} {P Q : Except Error α → Memory → Prop}

theorem run_andThen (s : Session α) (f : Except Error α → Session β) (h : Host) :
    (s.andThen f).run h = (f (s.run h).1).run (s.run h).2 := by
  induction s generalizing h with
  | done r => rfl
  | get k next ih => exact ih _ _
  | list t ns sel next ih => exact ih _ _
  | create o next ih => exact ih _ _
  | update o next ih => exact ih _ _
  | delete k p next ih => exact ih _ _
  | setFinalizers k names next ih => exact ih _ _
  | mergeStatus k status manager next ih => exact ih _ _
  | sleep ms next ih => exact ih _
  | observe s next ih => exact ih _

theorem Ends.imp (h : s.Ends m P) (hPQ : ∀ r m', P r m' → Q r m') : s.Ends m Q :=
  fun host => hPQ _ _ (h host)

/-- The end of a run is that of one of its runs. -/
theorem Ends.runs (h : s.Ends m P) : s.Ends m fun r m' => P r m' ∧ ∃ es, s.Runs m es r m' :=
  fun host => ⟨h host, runs_run s { host with memory := m }⟩

theorem ends_done {r : Except Error α} (h : P r m) : (done r).Ends m P := fun _ => h

theorem ends_andThen {f : Except Error α → Session β} {P : Except Error β → Memory → Prop}
    (h : s.Ends m fun r m₁ => (f r).Ends m₁ P) : (s.andThen f).Ends m P := by
  intro host
  rw [run_andThen]
  exact h host (s.run { host with memory := m }).2

/-- Two sessions in a row end with the error of the first, or as the second does on the store that the first
one leaves. -/
theorem Ends.bind_cases {f : α → Session β} {P : Except Error β → Memory → Prop}
    (h : s.Ends m fun r m₁ => (∃ a, r = .ok a ∧ (f a).Ends m₁ P) ∨ ∃ e, r = .error e ∧ P (.error e) m₁) :
    (s >>= f).Ends m P := by
  refine ends_andThen (h.imp ?_)
  rintro r m₁ (⟨a, rfl, hf⟩ | ⟨e, rfl, he⟩)
  · exact hf
  · exact ends_done he

theorem Ends.bind {f : α → Session β} {P : Except Error β → Memory → Prop}
    (h : s.Ends m fun r m₁ => ∃ a, r = .ok a ∧ (f a).Ends m₁ P) : (s >>= f).Ends m P :=
  (h.imp fun _ _ => .inl).bind_cases

theorem Ends.bind_error {f : α → Session β} {e : Error} (h : s.Ends m fun r _ => r = .error e) :
    (s >>= f).Ends m fun r _ => r = .error e :=
  (h.imp fun _ _ hr => .inr ⟨e, hr, rfl⟩).bind_cases

theorem Ends.attempt (h : s.Ends m P) : s.attempt.Ends m fun r m' => ∃ r', r = .ok r' ∧ P r' m' :=
  ends_andThen (h.imp fun r _ hr => ends_done ⟨r, rfl, hr⟩)

/-! ## Requests -/

theorem ends_listAll {t : TypeRef} {ns sel : Option String} (hm : (.list, t.kind) ∉ m.failures) :
    (listAll t ns sel).Ends m fun r m' => r = .ok (m.listing t ns sel) ∧ m' = m.looked 0 1 := by
  intro host
  simp only [listAll, run, Memory.list, Memory.request_eq hm]
  exact ⟨rfl, rfl⟩

theorem ends_find? {k : Key} (hm : (.get, k.type.kind) ∉ m.failures) :
    (Session.find? k).Ends m fun r m' => r = .ok (m.object? k) ∧ m' = m.looked 1 0 := by
  intro host
  have hlive : ({ m with counts := m.counts.count .get } : Memory).object? k = m.object? k := rfl
  simp only [Session.find?, run, Memory.get, Memory.request_eq hm, hlive]
  cases m.object? k <;> exact ⟨rfl, rfl⟩

theorem ends_require {k : Key} {o : Object} (hm : (.get, k.type.kind) ∉ m.failures)
    (ho : m.object? k = some o) : (require k).Ends m fun r m' => r = .ok o ∧ m' = m.looked 1 0 := by
  intro host
  have hlive : ({ m with counts := m.counts.count .get } : Memory).object? k = some o := ho
  simp only [require, run, Memory.get, Memory.request_eq hm, hlive]
  exact ⟨trivial, rfl⟩

theorem ends_createNew {o : Object} {k : Key} (hk : o.key = .ok k)
    (hm : (.create, k.type.kind) ∉ m.failures) (hnone : m.object? k = none) :
    (createNew o).Ends m fun r _ => ∃ stored, r = .ok stored := by
  intro host
  have hlive : ({ m with counts := m.counts.count .create } : Memory).object? k = none := hnone
  simp only [createNew, run, Memory.create, hk, Memory.request_eq hm, hlive]
  exact ⟨_, rfl⟩

/-- A creation is told of the object that it meets. -/
theorem ends_createNew_exists {o : Object} {k : Key} (hk : o.key = .ok k)
    (hm : (.create, k.type.kind) ∉ m.failures) (hsome : m.object? k ≠ none) :
    (createNew o).Ends m fun r _ => r = .error (.alreadyExists k.display) := by
  intro host
  obtain ⟨live, hlive⟩ := Option.ne_none_iff_exists'.1 hsome
  have hlive : ({ m with counts := m.counts.count .create } : Memory).object? k = some live := hlive
  simp only [createNew, run, Memory.create, hk, Memory.request_eq hm, hlive]

/-- An object is replaced by what is declared under its own version. -/
theorem ends_replace {o live : Object} {k : Key} {version : String} (hk : o.key = .ok k)
    (hm : (.update, k.type.kind) ∉ m.failures) (hlive : m.object? k = some live)
    (hversion : live.metadata.resourceVersion = some version)
    (hsame : o.metadata.resourceVersion = some version) :
    (replace o).Ends m fun r _ => ∃ stored, r = .ok stored := by
  intro host
  have hlive : ({ m with counts := m.counts.count .update } : Memory).object? k = some live := hlive
  simp only [replace, run, Memory.update, hk, Memory.request_eq hm, hlive, hsame, hversion, ne_eq,
    not_true_eq_false, if_false]
  exact ⟨_, rfl⟩

/-- A replacement under another version than the live one is a conflict. -/
theorem ends_replace_stale {o live : Object} {k : Key} {version : String} (hk : o.key = .ok k)
    (hm : (.update, k.type.kind) ∉ m.failures) (hlive : m.object? k = some live)
    (hversion : o.metadata.resourceVersion = some version)
    (hne : live.metadata.resourceVersion ≠ some version) : (replace o).Ends m fun r _ =>
      r = .error (.conflict k.display s!"stale resourceVersion {version}") := by
  intro host
  have hlive : ({ m with counts := m.counts.count .update } : Memory).object? k = some live := hlive
  simp only [replace, run, Memory.update, hk, Memory.request_eq hm, hlive, hversion]
  rw [if_pos hne]

theorem ends_removeIfExists {k : Key} {p : Propagation} (hm : (.delete, k.type.kind) ∉ m.failures) :
    (removeIfExists k p).Ends m fun r _ => ∃ existed, r = .ok existed := by
  intro host
  have hlive : ({ m with counts := m.counts.count .delete } : Memory).object? k = m.object? k := rfl
  simp only [removeIfExists, run, Memory.delete, Memory.request_eq hm, hlive]
  cases m.object? k <;> exact ⟨_, rfl⟩

end Session

end Addons
