import Addons.Proofs.Store.Runs
import Addons.Proofs.Table
import Addons.Store.Upsert

/-!
# What a request leaves

One lemma for each request says what it does to the stored objects on every answer (`Answered.create` and
its siblings), and one for each session of a single request says the same of its runs. What the store writes
is the object that it is given but for the fields that it fills in itself (`Object.unstamped`), under a new
version (`Memory.Stamped`).

`Session.Runs.find?`: what a run leaves in a slot is what its last deed there left, and where it has no deed
the slot is as it was.
-/

namespace Addons

/-- The object without what the store notes on it. -/
def Object.unstamped (o : Object) : Object :=
  { o with
    metadata := { o.metadata with
      uid := none, resourceVersion := none, creationTimestamp := none, generation := none
      managedFields := none } }

section Unstamped

variable {o o' : Object}

theorem Object.type_of_unstamped (h : o.unstamped = o'.unstamped) : o.type = o'.type := by
  unfold Object.unstamped at h
  exact (Object.mk.inj h).1

theorem Object.data_of_unstamped (h : o.unstamped = o'.unstamped) : o.data = o'.data := by
  unfold Object.unstamped at h
  exact (Object.mk.inj h).2.2

theorem Object.labels_of_unstamped (h : o.unstamped = o'.unstamped) :
    o.metadata.labels = o'.metadata.labels := congrArg (fun o => o.metadata.labels) h

theorem Object.name_of_unstamped (h : o.unstamped = o'.unstamped) :
    o.metadata.name = o'.metadata.name := congrArg (fun o => o.metadata.name) h

theorem Object.ns_of_unstamped (h : o.unstamped = o'.unstamped) : o.metadata.ns = o'.metadata.ns :=
  congrArg (fun o => o.metadata.ns) h

theorem Object.key_of_unstamped (h : o.unstamped = o'.unstamped) : o.key = o'.key := by
  unfold Object.key
  rw [type_of_unstamped h, name_of_unstamped h, ns_of_unstamped h]

end Unstamped

/-! ## Requests -/

/-- The objects that a listing answers. -/
def Memory.listing (m : Memory) (t : TypeRef) (ns sel : Option String) : List Object :=
  (m.objects.filter fun e => listed t ns sel e.1 e.2).map Prod.snd

namespace Memory

variable {m m' : Memory} {k : Key} {o : Object}

theorem object?_congr (h : m'.objects = m.objects) (k : Key) : m'.object? k = m.object? k := by
  unfold object?
  rw [h]

theorem object?_of_insert (h : m'.objects = m.objects.insert k.slot o) : m'.object? k = some o := by
  unfold object?
  rw [h]
  exact Table.find?_insert_self k.slot o m.objects

theorem object?_of_erase (h : m'.objects = m.objects.erase k.slot) : m'.object? k = none := by
  unfold object?
  rw [h]
  exact Table.find?_erase_self m.objects k.slot

end Memory

/-- What a store keeps of an object that it is given: the object under the next version. -/
structure Memory.Stamped (m : Memory) (o stored : Object) (m' : Memory) : Prop where
  unstamped : stored.unstamped = o.unstamped
  version : stored.metadata.resourceVersion = some (versionText m'.version)
  next : m'.version = m.version + 1

namespace Answered

variable {m m' : Memory} {g : Bool}

/-- A request that is counted is refused, or goes on with the same objects. -/
theorem request_cases {α : Type} (m : Memory) (v : Verb) (kind : String)
    (go : Memory → Except Error α × Memory) :
    (∃ m₁, m₁.objects = m.objects ∧ m₁.version = m.version
        ∧ m.request v kind go = (.error (.timeout "injected"), m₁))
      ∨ ∃ m₁, m₁.objects = m.objects ∧ m₁.version = m.version ∧ m.request v kind go = go m₁ := by
  cases hf : Memory.takeFailure m.failures v kind with
  | none =>
    refine .inr ⟨{ m with counts := m.counts.count v }, rfl, rfl, ?_⟩
    simp only [Memory.request, hf]
  | some left =>
    refine .inl ⟨{ m with counts := m.counts.count v, failures := left }, rfl, rfl, ?_⟩
    simp only [Memory.request, hf]

theorem get_served (m : Memory) (k : Key) :
    (m.get k).2.objects = m.objects ∧ (∀ o, (m.get k).1 = .ok o → m.object? k = some o)
      ∧ ∀ e, (m.get k).1 = .error e → e.isNotFound → m.object? k = none := by
  unfold Memory.get
  obtain ⟨m₁, hm, -, hr⟩ | ⟨m₁, hm, -, hr⟩ := request_cases m .get k.type.kind _
  · rw [hr]
    refine ⟨hm, (fun o h => nomatch h), ?_⟩
    rintro e ⟨rfl⟩ he
    cases he
  · rw [hr]
    rw [Memory.object?_congr hm]
    cases m.object? k with
    | none => exact ⟨hm, (fun o h => nomatch h), fun _ _ _ => rfl⟩
    | some o => exact ⟨hm, fun _ h => by cases h; rfl, fun _ h => nomatch h⟩

/-- A look at the store leaves it alone, and tells the truth about an object. -/
theorem get {k : Key} {r : Except Error Object} (h : Answered (m.get k) m r g m') :
    m'.objects = m.objects ∧ (∀ o, r = .ok o → m.object? k = some o)
      ∧ ∀ e, r = .error e → e.isNotFound → m.object? k = none := by
  cases h with
  | served => exact get_served m k
  | refused he =>
    refine ⟨rfl, (fun o h => nomatch h), ?_⟩
    rintro e ⟨rfl⟩ hn
    exact absurd (he.1.symm.trans hn) Bool.false_ne_true
  | lost he =>
    refine ⟨(get_served m k).1, (fun o h => nomatch h), ?_⟩
    rintro e ⟨rfl⟩ hn
    exact absurd (he.1.symm.trans hn) Bool.false_ne_true

theorem list_served (m : Memory) (t : TypeRef) (ns sel : Option String) :
    (m.list t ns sel).2.objects = m.objects
      ∧ ∀ l, (m.list t ns sel).1 = .ok l → l = m.listing t ns sel := by
  unfold Memory.list
  obtain ⟨m₁, hm, -, hr⟩ | ⟨m₁, hm, -, hr⟩ := request_cases m .list t.kind _
  · rw [hr]
    exact ⟨hm, fun l h => nomatch h⟩
  · rw [hr]
    refine ⟨hm, ?_⟩
    rintro l ⟨rfl⟩
    unfold Memory.listing
    rw [hm]

theorem list {t : TypeRef} {ns sel : Option String} {r : Except Error (List Object)}
    (h : Answered (m.list t ns sel) m r g m') :
    m'.objects = m.objects ∧ ∀ l, r = .ok l → l = m.listing t ns sel := by
  cases h with
  | served => exact list_served m t ns sel
  | refused he => exact ⟨rfl, fun l h => nomatch h⟩
  | lost he => exact ⟨(list_served m t ns sel).1, fun l h => nomatch h⟩

theorem create_served (m : Memory) (o : Object) :
    ((m.create o).2.objects = m.objects ∧ ∃ e, (m.create o).1 = .error e)
      ∨ ∃ k stored, o.key = .ok k ∧ m.object? k = none ∧ m.Stamped o stored (m.create o).2
        ∧ (m.create o).2.objects = m.objects.insert k.slot stored ∧ (m.create o).1 = .ok stored := by
  unfold Memory.create
  cases hk : o.key with
  | error e => exact .inl ⟨rfl, e, rfl⟩
  | ok k =>
    dsimp only
    obtain ⟨m₁, hm, -, hr⟩ | ⟨m₁, hm, hv, hr⟩ := request_cases m .create k.type.kind _
    · rw [hr]
      exact .inl ⟨hm, _, rfl⟩
    · rw [hr]
      rw [Memory.object?_congr hm]
      cases hl : m.object? k with
      | some o => exact .inl ⟨hm, _, rfl⟩
      | none =>
        refine .inr ⟨k, _, rfl, hl, ?_, ?_, rfl⟩
        · exact ⟨rfl, rfl, congrArg (· + 1) hv⟩
        · exact congrArg (Table.insert k.slot _) hm

/-- A creation that is told of another object has met one. -/
theorem create_exists {o : Object} {k : Key} {r : Except Error Object} {e : Error} (hk : o.key = .ok k)
    (h : Answered (m.create o) m r g m') (hr : r = .error e) (he : e.isAlreadyExists) :
    m.object? k ≠ none := by
  cases h with
  | refused hfault | lost hfault =>
    obtain rfl := Except.error.inj hr
    exact absurd (hfault.2.symm.trans he) Bool.false_ne_true
  | served =>
    unfold Memory.create at hr
    rw [hk] at hr
    dsimp only at hr
    obtain ⟨m₁, -, -, hreq⟩ | ⟨m₁, hm, -, hreq⟩ := request_cases m .create k.type.kind _
    · rw [hreq] at hr
      obtain rfl := Except.error.inj hr
      cases he
    · rw [hreq, Memory.object?_congr hm] at hr
      intro hnone
      rw [hnone] at hr
      cases hr

/-- A creation is not granted and leaves the store alone, or puts the object in a place where there was
none. -/
theorem create {o : Object} {r : Except Error Object} (h : Answered (m.create o) m r g m') :
    (g = false ∧ m'.objects = m.objects ∧ ∃ e, r = .error e)
      ∨ g = true ∧ ∃ k stored, o.key = .ok k ∧ m.object? k = none ∧ m.Stamped o stored m'
        ∧ m'.objects = m.objects.insert k.slot stored
        ∧ (r = .ok stored ∨ ∃ e, e.IsFault ∧ r = .error e) := by
  cases h with
  | refused he => exact .inl ⟨rfl, rfl, _, rfl⟩
  | served =>
    obtain ⟨hm, e, he⟩ | ⟨k, stored, hk, hn, hs, hm, hr⟩ := create_served m o
    · exact .inl ⟨by rw [he]; rfl, hm, e, he⟩
    · exact .inr ⟨by rw [hr]; rfl, k, stored, hk, hn, hs, hm, .inl hr⟩
  | lost he =>
    obtain ⟨hm, e, hr⟩ | ⟨k, stored, hk, hn, hs, hm, hr⟩ := create_served m o
    · exact .inl ⟨by rw [hr]; rfl, hm, _, rfl⟩
    · exact .inr ⟨by rw [hr]; rfl, k, stored, hk, hn, hs, hm, .inr ⟨_, he, rfl⟩⟩

theorem update_served (m : Memory) (o : Object) :
    ((m.update o).2.objects = m.objects ∧ ∃ e, (m.update o).1 = .error e)
      ∨ ∃ k live stored, o.key = .ok k ∧ m.object? k = some live
        ∧ live.metadata.resourceVersion = o.metadata.resourceVersion ∧ m.Stamped o stored (m.update o).2
        ∧ (m.update o).2.objects = m.objects.insert k.slot stored ∧ (m.update o).1 = .ok stored := by
  unfold Memory.update
  cases hk : o.key with
  | error e => exact .inl ⟨rfl, e, rfl⟩
  | ok k =>
    dsimp only
    obtain ⟨m₁, hm, -, hr⟩ | ⟨m₁, hm, hv, hr⟩ := request_cases m .update k.type.kind _
    · rw [hr]
      exact .inl ⟨hm, _, rfl⟩
    · rw [hr]
      rw [Memory.object?_congr hm]
      cases hl : m.object? k with
      | none => exact .inl ⟨hm, _, rfl⟩
      | some live =>
        cases o.metadata.resourceVersion with
        | none => exact .inl ⟨hm, _, rfl⟩
        | some version =>
          dsimp only
          by_cases hstale : live.metadata.resourceVersion ≠ some version
          · rw [if_pos hstale]
            exact .inl ⟨hm, _, rfl⟩
          · rw [if_neg hstale]
            refine .inr ⟨k, live, _, rfl, hl, not_not.1 hstale, ?_, ?_, rfl⟩
            · exact ⟨rfl, rfl, congrArg (· + 1) hv⟩
            · exact congrArg (Table.insert k.slot _) hm

/-- An update is not granted and leaves the store alone, or replaces an object. -/
theorem update {o : Object} {r : Except Error Object} (h : Answered (m.update o) m r g m') :
    (g = false ∧ m'.objects = m.objects ∧ ∃ e, r = .error e)
      ∨ g = true ∧ ∃ k live stored, o.key = .ok k ∧ m.object? k = some live
        ∧ live.metadata.resourceVersion = o.metadata.resourceVersion ∧ m.Stamped o stored m'
        ∧ m'.objects = m.objects.insert k.slot stored
        ∧ (r = .ok stored ∨ ∃ e, e.IsFault ∧ r = .error e) := by
  cases h with
  | refused he => exact .inl ⟨rfl, rfl, _, rfl⟩
  | served =>
    obtain ⟨hm, e, he⟩ | ⟨k, live, stored, hk, hl, hlv, hs, hm, hr⟩ := update_served m o
    · exact .inl ⟨by rw [he]; rfl, hm, e, he⟩
    · exact .inr ⟨by rw [hr]; rfl, k, live, stored, hk, hl, hlv, hs, hm, .inl hr⟩
  | lost he =>
    obtain ⟨hm, e, hr⟩ | ⟨k, live, stored, hk, hl, hlv, hs, hm, hr⟩ := update_served m o
    · exact .inl ⟨by rw [hr]; rfl, hm, _, rfl⟩
    · exact .inr ⟨by rw [hr]; rfl, k, live, stored, hk, hl, hlv, hs, hm, .inr ⟨_, he, rfl⟩⟩

theorem delete_served (m : Memory) (k : Key) :
    ((m.delete k).2.objects = m.objects
        ∧ ∃ e, (m.delete k).1 = .error e ∧ (e.isNotFound → m.object? k = none))
      ∨ (m.delete k).2.objects = m.objects.erase k.slot ∧ (m.delete k).1 = .ok () := by
  unfold Memory.delete
  obtain ⟨m₁, hm, -, hr⟩ | ⟨m₁, hm, -, hr⟩ := request_cases m .delete k.type.kind _
  · rw [hr]
    exact .inl ⟨hm, _, rfl, fun h => nomatch h⟩
  · rw [hr]
    rw [Memory.object?_congr hm]
    cases m.object? k with
    | none => exact .inl ⟨hm, _, rfl, fun _ => rfl⟩
    | some o => exact .inr ⟨congrArg (fun t => Table.erase t k.slot) hm, rfl⟩

/-- A deletion is not granted and leaves the store alone, or empties a place. -/
theorem delete {k : Key} {r : Except Error Unit} (h : Answered (m.delete k) m r g m') :
    (g = false ∧ m'.objects = m.objects ∧ ∃ e, r = .error e ∧ (e.isNotFound → m.object? k = none))
      ∨ g = true ∧ m'.objects = m.objects.erase k.slot ∧ (r = .ok () ∨ ∃ e, e.IsFault ∧ r = .error e) := by
  cases h with
  | refused he =>
    exact .inl ⟨rfl, rfl, _, rfl, fun h => by rw [he.1] at h; cases h⟩
  | served =>
    obtain ⟨hm, e, he, hn⟩ | ⟨hm, hr⟩ := delete_served m k
    · exact .inl ⟨by rw [he]; rfl, hm, e, he, hn⟩
    · exact .inr ⟨by rw [hr]; rfl, hm, .inl hr⟩
  | lost he =>
    obtain ⟨hm, e, hr, hn⟩ | ⟨hm, hr⟩ := delete_served m k
    · exact .inl ⟨by rw [hr]; rfl, hm, _, rfl, fun h => by rw [he.1] at h; cases h⟩
    · exact .inr ⟨by rw [hr]; rfl, hm, .inr ⟨_, he, rfl⟩⟩

theorem setFinalizers_served (m : Memory) (k : Key) (names : List String) :
    ((m.setFinalizers k names).2.objects = m.objects ∧ ∃ e, (m.setFinalizers k names).1 = .error e)
      ∨ (∀ s ≠ k.slot, (m.setFinalizers k names).2.objects.find? s = m.objects.find? s)
        ∧ ∃ o, (m.setFinalizers k names).1 = .ok o := by
  unfold Memory.setFinalizers
  cases m.object? k with
  | none => exact .inl ⟨rfl, _, rfl⟩
  | some o =>
    refine .inr ?_
    dsimp only [Memory.putVersion]
    split
    · exact ⟨fun s hs => (Table.find?_erase_ne hs _).trans (Table.find?_insert_ne hs _ _), _, rfl⟩
    · exact ⟨fun s hs => Table.find?_insert_ne hs _ _, _, rfl⟩

theorem mergeStatus_served (m : Memory) (k : Key) (status : Json) :
    ((m.mergeStatus k status).2.objects = m.objects ∧ ∃ e, (m.mergeStatus k status).1 = .error e)
      ∨ (∀ s ≠ k.slot, (m.mergeStatus k status).2.objects.find? s = m.objects.find? s)
        ∧ ∃ o, (m.mergeStatus k status).1 = .ok o := by
  unfold Memory.mergeStatus
  cases m.object? k with
  | none => exact .inl ⟨rfl, _, rfl⟩
  | some o => exact .inr ⟨fun s hs => Table.find?_insert_ne hs _ _, _, rfl⟩

/-- A request for a change leaves alone what it is not about. -/
theorem left?_about {α : Type} {served : Except Error α × Memory} {key : Except Error Key}
    {r : Except Error α} (h : Answered served m r g m')
    (hs : (served.2.objects = m.objects ∧ ∃ e, served.1 = .error e)
      ∨ ∃ k, key = .ok k ∧ (∀ s ≠ k.slot, served.2.objects.find? s = m.objects.find? s)
        ∧ ∃ o, served.1 = .ok o) (s : Slot) :
    m'.objects.find? s = ((Event.about key g m').left? s).getD (m.objects.find? s) := by
  have hserved : served.2.objects.find? s
      = ((Event.about key served.1.isOk served.2).left? s).getD (m.objects.find? s) := by
    obtain ⟨hm, e, he⟩ | ⟨k, rfl, hm, o, ho⟩ := hs
    · rw [he, hm]
      cases key <;> rfl
    · rw [ho]
      by_cases hk : s = k.slot
      · rw [hk]
        exact (congrArg (Option.getD · _) (Event.left?_some_self ⟨k.slot, _⟩)).symm
      · rw [hm s hk]
        exact (congrArg (Option.getD · _) (Event.left?_some_ne (d := ⟨k.slot, _⟩) (Ne.symm hk))).symm
  cases h with
  | served => exact hserved
  | refused _ => cases key <;> rfl
  | lost _ => exact hserved

theorem left?_create {o : Object} {r : Except Error Object} (h : Answered (m.create o) m r g m')
    (s : Slot) :
    m'.objects.find? s = ((Event.about o.key g m').left? s).getD (m.objects.find? s) := by
  refine h.left?_about ((create_served m o).imp_right ?_) s
  rintro ⟨k, stored, hk, -, -, hm, hr⟩
  exact ⟨k, hk, fun s hs => by rw [hm]; exact Table.find?_insert_ne hs _ _, stored, hr⟩

theorem left?_update {o : Object} {r : Except Error Object} (h : Answered (m.update o) m r g m')
    (s : Slot) :
    m'.objects.find? s = ((Event.about o.key g m').left? s).getD (m.objects.find? s) := by
  refine h.left?_about ((update_served m o).imp_right ?_) s
  rintro ⟨k, _, stored, hk, -, -, -, hm, hr⟩
  exact ⟨k, hk, fun s hs => by rw [hm]; exact Table.find?_insert_ne hs _ _, stored, hr⟩

theorem left?_delete {k : Key} {r : Except Error Unit} (h : Answered (m.delete k) m r g m')
    (s : Slot) :
    m'.objects.find? s = ((Event.about (.ok k) g m').left? s).getD (m.objects.find? s) := by
  refine h.left?_about ((delete_served m k).imp ?_ ?_) s
  · rintro ⟨hm, e, he, -⟩
    exact ⟨hm, e, he⟩
  · rintro ⟨hm, hr⟩
    exact ⟨k, rfl, fun s hs => by rw [hm]; exact Table.find?_erase_ne hs _, (), hr⟩

theorem left?_setFinalizers {k : Key} {names : List String} {r : Except Error Object}
    (h : Answered (m.setFinalizers k names) m r g m') (s : Slot) :
    m'.objects.find? s = ((Event.about (.ok k) g m').left? s).getD (m.objects.find? s) :=
  h.left?_about ((setFinalizers_served m k names).imp_right fun h => ⟨k, rfl, h⟩) s

theorem left?_mergeStatus {k : Key} {status : Json} {r : Except Error Object}
    (h : Answered (m.mergeStatus k status) m r g m') (s : Slot) :
    m'.objects.find? s = ((Event.about (.ok k) g m').left? s).getD (m.objects.find? s) :=
  h.left?_about ((mergeStatus_served m k status).imp_right fun h => ⟨k, rfl, h⟩) s

end Answered

/-! ## Runs -/

namespace Session

variable {α : Type} {m m' : Memory} {es : List Event}

/-- What a run leaves in a slot is what its last deed there left. -/
theorem Runs.find? {s : Session α} {a : Except Error α} (h : s.Runs m es a m') (slot : Slot) :
    m'.objects.find? slot = (Event.lastLeft? es slot).getD (m.objects.find? slot) := by
  induction s generalizing m es with
  | done r =>
    obtain ⟨rfl, -, rfl⟩ := h
    rfl
  | get k next ih =>
    obtain ⟨r, g, m₁, hr, h⟩ := h
    rw [ih r h, hr.get.1]
  | list t ns sel next ih =>
    obtain ⟨r, g, m₁, hr, h⟩ := h
    rw [ih r h, hr.list.1]
  | create o next ih =>
    obtain ⟨r, g, m₁, fs, hr, rfl, h⟩ := h
    rw [ih r h, hr.left?_create, Event.lastLeft?, Option.getD_or]
  | update o next ih =>
    obtain ⟨r, g, m₁, fs, hr, rfl, h⟩ := h
    rw [ih r h, hr.left?_update, Event.lastLeft?, Option.getD_or]
  | delete k p next ih =>
    obtain ⟨r, g, m₁, fs, hr, rfl, h⟩ := h
    rw [ih r h, hr.left?_delete, Event.lastLeft?, Option.getD_or]
  | setFinalizers k names next ih =>
    obtain ⟨r, g, m₁, fs, hr, rfl, h⟩ := h
    rw [ih r h, hr.left?_setFinalizers, Event.lastLeft?, Option.getD_or]
  | mergeStatus k status manager next ih =>
    obtain ⟨r, g, m₁, fs, hr, rfl, h⟩ := h
    rw [ih r h, hr.left?_mergeStatus, Event.lastLeft?, Option.getD_or]
  | sleep ms next ih => exact ih h
  | observe s next ih => exact ih h

theorem runs_require {k : Key} {a : Except Error Object} (h : (require k).Runs m es a m') :
    es = [] ∧ m'.objects = m.objects ∧ ∀ o, a = .ok o → m.object? k = some o := by
  obtain ⟨r, g, m₁, hr, rfl, rfl, rfl⟩ := h
  exact ⟨rfl, hr.get.1, hr.get.2.1⟩

theorem runs_find? {k : Key} {a : Except Error (Option Object)} (h : (Session.find? k).Runs m es a m') :
    es = [] ∧ m'.objects = m.objects ∧ ∀ o?, a = .ok o? → m.object? k = o? := by
  obtain ⟨r, g, m₁, hr, h⟩ := h
  obtain ⟨hm, hok, hnone⟩ := hr.get
  cases r with
  | ok o =>
    obtain ⟨rfl, rfl, rfl⟩ := h
    refine ⟨rfl, hm, ?_⟩
    rintro o? ⟨rfl⟩
    exact hok o rfl
  | error e =>
    dsimp only at h
    by_cases he : e.isNotFound
    · rw [if_pos he] at h
      obtain ⟨rfl, rfl, rfl⟩ := h
      refine ⟨rfl, hm, ?_⟩
      rintro o? ⟨rfl⟩
      exact hnone e rfl he
    · rw [if_neg he] at h
      obtain ⟨rfl, rfl, rfl⟩ := h
      exact ⟨rfl, hm, fun o? h => nomatch h⟩

theorem runs_listAll {t : TypeRef} {ns sel : Option String} {a : Except Error (List Object)}
    (h : (listAll t ns sel).Runs m es a m') :
    es = [] ∧ m'.objects = m.objects ∧ ∀ l, a = .ok l → l = m.listing t ns sel := by
  obtain ⟨r, g, m₁, hr, rfl, rfl, rfl⟩ := h
  exact ⟨rfl, hr.list⟩

/-- A creation leaves the store alone, or puts the object in an empty place. -/
theorem runs_createNew {o : Object} {a : Except Error Object} (h : (createNew o).Runs m es a m') :
    (es = [none] ∧ m'.objects = m.objects ∧ ∃ e, a = .error e)
      ∨ ∃ k stored, o.key = .ok k ∧ m.object? k = none ∧ m.Stamped o stored m'
        ∧ es = [some ⟨k.slot, some stored⟩] ∧ m'.objects = m.objects.insert k.slot stored
        ∧ (a = .ok stored ∨ ∃ e, e.IsFault ∧ a = .error e) := by
  obtain ⟨r, g, m₁, fs, hr, rfl, rfl, rfl, rfl⟩ := h
  obtain ⟨rfl, hm, he⟩ | ⟨rfl, k, stored, hk, hn, hs, hm, ha⟩ := hr.create
  · exact .inl ⟨by cases o.key <;> rfl, hm, he⟩
  · refine .inr ⟨k, stored, hk, hn, hs, ?_, hm, ha⟩
    rw [hk, ← Memory.object?_of_insert hm]
    rfl

theorem runs_createNew_ok {o stored : Object} (h : (createNew o).Runs m es (.ok stored) m') :
    ∃ k, o.key = .ok k ∧ m.Stamped o stored m' ∧ es = [some ⟨k.slot, some stored⟩]
      ∧ m'.objects = m.objects.insert k.slot stored := by
  obtain ⟨-, -, e, he⟩ | ⟨k, o', hk, -, hs, hes, hm, ha | ⟨e, -, he⟩⟩ := runs_createNew h
  · cases he
  · obtain rfl := Except.ok.inj ha
    exact ⟨k, hk, hs, hes, hm⟩
  · cases he

/-- A creation that is told of another object has met one. -/
theorem runs_createNew_exists {o : Object} {k : Key} {e : Error} (hk : o.key = .ok k)
    (h : (createNew o).Runs m es (.error e) m') (he : e.isAlreadyExists) : m.object? k ≠ none := by
  obtain ⟨r, g, m₁, fs, hr, -, -, ha, -⟩ := h
  exact hr.create_exists hk ha.symm he

/-- An update leaves the store alone, or replaces an object. -/
theorem runs_replace {o : Object} {a : Except Error Object} (h : (replace o).Runs m es a m') :
    (es = [none] ∧ m'.objects = m.objects ∧ ∃ e, a = .error e)
      ∨ ∃ k live stored, o.key = .ok k ∧ m.object? k = some live
        ∧ live.metadata.resourceVersion = o.metadata.resourceVersion ∧ m.Stamped o stored m'
        ∧ es = [some ⟨k.slot, some stored⟩] ∧ m'.objects = m.objects.insert k.slot stored
        ∧ (a = .ok stored ∨ ∃ e, e.IsFault ∧ a = .error e) := by
  obtain ⟨r, g, m₁, fs, hr, rfl, rfl, rfl, rfl⟩ := h
  obtain ⟨rfl, hm, he⟩ | ⟨rfl, k, live, stored, hk, hl, hlv, hs, hm, ha⟩ := hr.update
  · exact .inl ⟨by cases o.key <;> rfl, hm, he⟩
  · refine .inr ⟨k, live, stored, hk, hl, hlv, hs, ?_, hm, ha⟩
    rw [hk, ← Memory.object?_of_insert hm]
    rfl

theorem runs_replace_ok {o stored : Object} (h : (replace o).Runs m es (.ok stored) m') :
    ∃ k live, o.key = .ok k ∧ m.object? k = some live
      ∧ live.metadata.resourceVersion = o.metadata.resourceVersion ∧ m.Stamped o stored m'
      ∧ es = [some ⟨k.slot, some stored⟩] ∧ m'.objects = m.objects.insert k.slot stored := by
  obtain ⟨-, -, e, he⟩ | ⟨k, live, o', hk, hl, hv, hs, hes, hm, ha | ⟨e, -, he⟩⟩ := runs_replace h
  · cases he
  · obtain rfl := Except.ok.inj ha
    exact ⟨k, live, hk, hl, hv, hs, hes, hm⟩
  · cases he

/-- A deletion leaves the store alone, where the object was missing or it failed, or empties a place. -/
theorem runs_removeIfExists {k : Key} {p : Propagation} {a : Except Error Bool}
    (h : (removeIfExists k p).Runs m es a m') :
    (es = [none] ∧ m'.objects = m.objects ∧ ((a = .ok false ∧ m.object? k = none) ∨ ∃ e, a = .error e))
      ∨ es = [some ⟨k.slot, none⟩] ∧ m'.objects = m.objects.erase k.slot
        ∧ (a = .ok true ∨ ∃ e, a = .error e) := by
  obtain ⟨r, g, m₁, fs, hr, rfl, h⟩ := h
  obtain ⟨rfl, hm, e, rfl, hn⟩ | ⟨rfl, hm, hr⟩ := hr.delete
  · dsimp only at h
    by_cases he : e.isNotFound
    · rw [if_pos he] at h
      obtain ⟨rfl, rfl, rfl⟩ := h
      exact .inl ⟨rfl, hm, .inl ⟨rfl, hn he⟩⟩
    · rw [if_neg he] at h
      obtain ⟨rfl, rfl, rfl⟩ := h
      exact .inl ⟨rfl, hm, .inr ⟨e, rfl⟩⟩
  · have hev : Event.about (.ok k) true m₁ = some ⟨k.slot, none⟩ := by
      rw [← Memory.object?_of_erase hm]
      rfl
    rw [hev]
    obtain rfl | ⟨e, he, rfl⟩ := hr
    · obtain ⟨rfl, rfl, rfl⟩ := h
      exact .inr ⟨rfl, hm, .inl rfl⟩
    · dsimp only at h
      rw [if_neg (by rw [he.1]; exact Bool.false_ne_true)] at h
      obtain ⟨rfl, rfl, rfl⟩ := h
      exact .inr ⟨rfl, hm, .inr ⟨e, rfl⟩⟩

/-- A deletion that succeeds leaves its place empty, and every other place as it was. -/
theorem runs_removeIfExists_gone {k : Key} {p : Propagation} {existed : Bool}
    (h : (removeIfExists k p).Runs m es (.ok existed) m') :
    m'.object? k = none ∧ ∀ s ≠ k.slot, m'.objects.find? s = m.objects.find? s := by
  obtain ⟨-, hm, ⟨-, hnone⟩ | ⟨_, he⟩⟩ | ⟨-, hm, -⟩ := runs_removeIfExists h
  · exact ⟨(Memory.object?_congr hm k).trans hnone, fun s _ => by rw [hm]⟩
  · cases he
  · exact ⟨Memory.object?_of_erase hm, fun s hs => by rw [hm, Table.find?_erase_ne hs]⟩

/-- A deletion of an object that is there, when it succeeds, empties its place. -/
theorem runs_removeIfExists_ok {k : Key} {p : Propagation} {existed : Bool} {o : Object}
    (ho : m.object? k = some o) (h : (removeIfExists k p).Runs m es (.ok existed) m') :
    m'.objects = m.objects.erase k.slot := by
  obtain ⟨-, -, ⟨-, hnone⟩ | ⟨_, he⟩⟩ | ⟨-, hm, -⟩ := runs_removeIfExists h
  · rw [ho] at hnone
    cases hnone
  · cases he
  · exact hm

end Session

end Addons
