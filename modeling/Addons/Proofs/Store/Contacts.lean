import Addons.Proofs.Store.Journal
import Addons.Proofs.Store.Outcome

/-!
# A session among others

`Session.Amid` relates a session to what may come of it where other clients use the store between its requests, and
any request may be refused, or its answer lost. Each request is a contact with the store, which says what the store
was before and after it; what the others do is a relation between the store that one request leaves and the one that
the next request meets. Where nobody else is about that relation is equality, and a run against the store is one of
the things that may come of a session (`Session.amid_run`).
-/

namespace Addons

/-- A request, as a change of the store. -/
structure Contact where
  met : Memory
  left : Memory
  /-- The store has served the request, and its answer did not reach the client. -/
  lost : Bool

/-- What a client is told of a request that a store serves, and the contact that it was. -/
inductive Told {α : Type} (serve : Memory → Except Error α × Memory) : Except Error α → Contact → Prop
  | served (m : Memory) : Told serve (serve m).1 ⟨m, (serve m).2, false⟩
  | refused (m : Memory) {e : Error} : e.IsFault → Told serve (.error e) ⟨m, m, false⟩
  | lost (m : Memory) {e : Error} : e.IsFault → Told serve (.error e) ⟨m, (serve m).2, true⟩

/-- Where no answer is lost, the client is told of what was granted. -/
theorem Told.answered {α : Type} {serve : Memory → Except Error α × Memory} {r : Except Error α} {c : Contact}
    (h : Told serve r c) : ∃ g, Answered (serve c.met) c.met r g c.left ∧ (c.lost = false → g = r.isOk) := by
  cases h with
  | served m => exact ⟨_, .served, fun _ => rfl⟩
  | refused m he => exact ⟨false, .refused he, fun _ => rfl⟩
  | lost m he => exact ⟨_, .lost he, fun h => nomatch h⟩

namespace Session

variable {α β : Type}

/-- What may come of a session: its contacts with the store, the result, and the store that the last one leaves. -/
def Amid (others : Memory → Memory → Prop) :
    Session α → Memory → List Contact → Except Error α → Memory → Prop
  | done r, m, cs, a, m' => cs = [] ∧ a = r ∧ m' = m
  | get k next, m, cs, a, m' =>
    ∃ r c ds, others m c.met ∧ Told (·.get k) r c ∧ cs = c :: ds ∧ Amid others (next r) c.left ds a m'
  | list t ns sel next, m, cs, a, m' =>
    ∃ r c ds, others m c.met ∧ Told (·.list t ns sel) r c ∧ cs = c :: ds ∧ Amid others (next r) c.left ds a m'
  | create o next, m, cs, a, m' =>
    ∃ r c ds, others m c.met ∧ Told (·.create o) r c ∧ cs = c :: ds ∧ Amid others (next r) c.left ds a m'
  | update o next, m, cs, a, m' =>
    ∃ r c ds, others m c.met ∧ Told (·.update o) r c ∧ cs = c :: ds ∧ Amid others (next r) c.left ds a m'
  | delete k _ next, m, cs, a, m' =>
    ∃ r c ds, others m c.met ∧ Told (·.delete k) r c ∧ cs = c :: ds ∧ Amid others (next r) c.left ds a m'
  | setFinalizers k names next, m, cs, a, m' =>
    ∃ r c ds, others m c.met ∧ Told (·.setFinalizers k names) r c ∧ cs = c :: ds
      ∧ Amid others (next r) c.left ds a m'
  | mergeStatus k status _ next, m, cs, a, m' =>
    ∃ r c ds, others m c.met ∧ Told (·.mergeStatus k status) r c ∧ cs = c :: ds
      ∧ Amid others (next r) c.left ds a m'
  | sleep _ next, m, cs, a, m' => Amid others next m cs a m'
  | observe _ next, m, cs, a, m' => Amid others next m cs a m'

variable {others : Memory → Memory → Prop} {m m' : Memory} {cs : List Contact}

/-- A run against the store goes on as others may let it, and no answer is lost. -/
theorem amid_run (hothers : ∀ m, others m m) (s : Session α) (h : Host) :
    ∃ cs, s.Amid others h.memory cs (s.run h).1 (s.run h).2.memory ∧ ∀ c ∈ cs, c.lost = false := by
  induction s generalizing h with
  | done r => exact ⟨[], ⟨rfl, rfl, rfl⟩, by simp⟩
  | get k next ih =>
    obtain ⟨cs, hcs, hlost⟩ := ih (h.memory.get k).1 { h with memory := (h.memory.get k).2 }
    exact ⟨_ :: cs, ⟨_, _, cs, hothers _, .served _, rfl, hcs⟩, List.forall_mem_cons.2 ⟨rfl, hlost⟩⟩
  | list t ns sel next ih =>
    obtain ⟨cs, hcs, hlost⟩ := ih (h.memory.list t ns sel).1 { h with memory := (h.memory.list t ns sel).2 }
    exact ⟨_ :: cs, ⟨_, _, cs, hothers _, .served _, rfl, hcs⟩, List.forall_mem_cons.2 ⟨rfl, hlost⟩⟩
  | create o next ih =>
    obtain ⟨cs, hcs, hlost⟩ := ih (h.memory.create o).1 { h with memory := (h.memory.create o).2 }
    exact ⟨_ :: cs, ⟨_, _, cs, hothers _, .served _, rfl, hcs⟩, List.forall_mem_cons.2 ⟨rfl, hlost⟩⟩
  | update o next ih =>
    obtain ⟨cs, hcs, hlost⟩ := ih (h.memory.update o).1 { h with memory := (h.memory.update o).2 }
    exact ⟨_ :: cs, ⟨_, _, cs, hothers _, .served _, rfl, hcs⟩, List.forall_mem_cons.2 ⟨rfl, hlost⟩⟩
  | delete k p next ih =>
    obtain ⟨cs, hcs, hlost⟩ := ih (h.memory.delete k).1 { h with memory := (h.memory.delete k).2 }
    exact ⟨_ :: cs, ⟨_, _, cs, hothers _, .served _, rfl, hcs⟩, List.forall_mem_cons.2 ⟨rfl, hlost⟩⟩
  | setFinalizers k names next ih =>
    obtain ⟨cs, hcs, hlost⟩ := ih (h.memory.setFinalizers k names).1
      { h with memory := (h.memory.setFinalizers k names).2 }
    exact ⟨_ :: cs, ⟨_, _, cs, hothers _, .served _, rfl, hcs⟩, List.forall_mem_cons.2 ⟨rfl, hlost⟩⟩
  | mergeStatus k status manager next ih =>
    obtain ⟨cs, hcs, hlost⟩ := ih (h.memory.mergeStatus k status).1
      { h with memory := (h.memory.mergeStatus k status).2 }
    exact ⟨_ :: cs, ⟨_, _, cs, hothers _, .served _, rfl, hcs⟩, List.forall_mem_cons.2 ⟨rfl, hlost⟩⟩
  | sleep ms next ih => exact ih { h with elapsed := h.elapsed + ms }
  | observe s next ih => exact ih { h with samples := h.samples ++ [s] }

/-! ## Sequences of sessions -/

/-- What comes of a session and what follows it splits where the session ends. -/
theorem amid_andThen {s : Session α} {f : Except Error α → Session β} {b : Except Error β} :
    (s.andThen f).Amid others m cs b m' ↔ ∃ a m₁ cs₁ cs₂, s.Amid others m cs₁ a m₁ ∧ cs = cs₁ ++ cs₂
      ∧ (f a).Amid others m₁ cs₂ b m' := by
  induction s generalizing m cs with
  | done r =>
    constructor
    · intro h
      exact ⟨r, m, [], cs, ⟨rfl, rfl, rfl⟩, rfl, h⟩
    · rintro ⟨_, _, _, _, ⟨rfl, rfl, rfl⟩, rfl, h⟩
      exact h
  | get k next ih | list k p q next ih | create k next ih | update k next ih | delete k p next ih
  | setFinalizers k p next ih | mergeStatus k p q next ih =>
    constructor
    · rintro ⟨r, c, ds, hothers, htold, rfl, h⟩
      obtain ⟨a, m₁, cs₁, cs₂, h₁, rfl, h₂⟩ := (ih r).1 h
      exact ⟨a, m₁, c :: cs₁, cs₂, ⟨r, c, cs₁, hothers, htold, rfl, h₁⟩, rfl, h₂⟩
    · rintro ⟨a, m₁, _, cs₂, ⟨r, c, cs₁, hothers, htold, rfl, h₁⟩, rfl, h₂⟩
      exact ⟨r, c, cs₁ ++ cs₂, hothers, htold, rfl, (ih r).2 ⟨a, m₁, cs₁, cs₂, h₁, rfl, h₂⟩⟩
  | sleep ms next ih => exact ih
  | observe s next ih => exact ih

/-- Two sessions in a row get through the first, or end with its error. -/
theorem amid_bind {s : Session α} {f : α → Session β} {b : Except Error β}
    (h : (s >>= f).Amid others m cs b m') :
    (∃ a m₁ cs₁ cs₂, s.Amid others m cs₁ (.ok a) m₁ ∧ cs = cs₁ ++ cs₂ ∧ (f a).Amid others m₁ cs₂ b m')
      ∨ ∃ e, s.Amid others m cs (.error e) m' ∧ b = .error e := by
  obtain ⟨a, m₁, cs₁, cs₂, h₁, rfl, h₂⟩ := amid_andThen.1 h
  cases a with
  | ok a => exact .inl ⟨a, m₁, cs₁, cs₂, h₁, rfl, h₂⟩
  | error e =>
    obtain ⟨rfl, rfl, rfl⟩ := h₂
    exact .inr ⟨e, by rwa [List.append_nil], rfl⟩

theorem amid_lift_bind {x : Except Error α} {f : α → Session β} {b : Except Error β}
    (h : ((liftM x : Session α) >>= f).Amid others m cs b m') :
    (∃ a, x = .ok a ∧ (f a).Amid others m cs b m')
      ∨ ∃ e, x = .error e ∧ cs = [] ∧ b = .error e ∧ m' = m := by
  cases x with
  | ok a => exact .inl ⟨a, rfl, h⟩
  | error e => exact .inr ⟨e, rfl, h⟩

theorem amid_attempt {s : Session α} {f : Except Error α → Session β} {b : Except Error β}
    (h : (s.attempt >>= f).Amid others m cs b m') : ∃ r m₁ cs₁ cs₂, s.Amid others m cs₁ r m₁
      ∧ cs = cs₁ ++ cs₂ ∧ (f r).Amid others m₁ cs₂ b m' := by
  obtain ⟨a, m₁, cs₁, cs₂, h₁, rfl, h₂⟩ := amid_andThen.1 h
  obtain ⟨r, m₂, cs₃, cs₄, h₃, rfl, rfl, rfl, rfl⟩ := amid_andThen.1 h₁
  exact ⟨r, m₁, cs₃, cs₂, h₃, by rw [List.append_nil], h₂⟩

/-! ## Single requests -/

theorem amid_find? {k : Key} {a : Except Error (Option Object)}
    (h : (Session.find? k).Amid others m cs a m') : ∃ c, cs = [c] ∧ others m c.met ∧ m' = c.left
      ∧ c.left.objects = c.met.objects ∧ c.left.journal = c.met.journal
      ∧ ∀ o?, a = .ok o? → c.met.object? k = o? := by
  obtain ⟨r, c, ds, hothers, htold, rfl, h⟩ := h
  obtain ⟨g, hr, -⟩ := htold.answered
  obtain ⟨hm, hok, hnone⟩ := hr.get
  cases r with
  | ok o =>
    obtain ⟨rfl, rfl, rfl⟩ := h
    refine ⟨c, rfl, hothers, rfl, hm, hr.journal_get, ?_⟩
    rintro o? ⟨rfl⟩
    exact hok o rfl
  | error e =>
    dsimp only at h
    by_cases he : e.isNotFound
    · rw [if_pos he] at h
      obtain ⟨rfl, rfl, rfl⟩ := h
      refine ⟨c, rfl, hothers, rfl, hm, hr.journal_get, ?_⟩
      rintro o? ⟨rfl⟩
      exact hnone e rfl he
    · rw [if_neg he] at h
      obtain ⟨rfl, rfl, rfl⟩ := h
      exact ⟨c, rfl, hothers, rfl, hm, hr.journal_get, fun o? h => nomatch h⟩

theorem amid_require {k : Key} {a : Except Error Object} (h : (require k).Amid others m cs a m') :
    ∃ c, cs = [c] ∧ others m c.met ∧ m' = c.left ∧ c.left.objects = c.met.objects
      ∧ ∀ o, a = .ok o → c.met.object? k = some o := by
  obtain ⟨r, c, ds, hothers, htold, rfl, rfl, rfl, rfl⟩ := h
  obtain ⟨g, hr, -⟩ := htold.answered
  exact ⟨c, rfl, hothers, rfl, hr.get.1, hr.get.2.1⟩

/-- A creation leaves the store alone, or puts the object in an empty place. -/
theorem amid_createNew {o : Object} {a : Except Error Object} (h : (createNew o).Amid others m cs a m') :
    ∃ c, cs = [c] ∧ others m c.met ∧ m' = c.left
      ∧ ((c.left.objects = c.met.objects ∧ ∃ e, a = .error e)
        ∨ ∃ k stored, o.key = .ok k ∧ c.met.object? k = none ∧ c.met.Stamped o stored c.left
          ∧ c.left.objects = c.met.objects.insert k.slot stored
          ∧ (a = .ok stored ∨ c.lost = true ∧ ∃ e, e.IsFault ∧ a = .error e)) := by
  obtain ⟨r, c, ds, hothers, htold, rfl, rfl, rfl, rfl⟩ := h
  obtain ⟨g, hr, htrue⟩ := htold.answered
  refine ⟨c, rfl, hothers, rfl, ?_⟩
  obtain ⟨-, hm, he⟩ | ⟨rfl, k, stored, hk, hnone, hs, hm, hok | ⟨e, he, rfl⟩⟩ := hr.create
  · exact .inl ⟨hm, he⟩
  · exact .inr ⟨k, stored, hk, hnone, hs, hm, .inl hok⟩
  · refine .inr ⟨k, stored, hk, hnone, hs, hm, .inr ⟨?_, e, he, rfl⟩⟩
    by_contra hlost
    cases htrue (Bool.eq_false_of_not_eq_true hlost)

/-- An update leaves the store alone, or replaces an object of the version that it names. -/
theorem amid_replace {o : Object} {a : Except Error Object} (h : (replace o).Amid others m cs a m') :
    ∃ c, cs = [c] ∧ others m c.met ∧ m' = c.left
      ∧ ((c.left.objects = c.met.objects ∧ ∃ e, a = .error e)
        ∨ ∃ k live stored, o.key = .ok k ∧ c.met.object? k = some live
          ∧ live.metadata.resourceVersion = o.metadata.resourceVersion ∧ c.met.Stamped o stored c.left
          ∧ c.left.objects = c.met.objects.insert k.slot stored
          ∧ (a = .ok stored ∨ c.lost = true ∧ ∃ e, e.IsFault ∧ a = .error e)) := by
  obtain ⟨r, c, ds, hothers, htold, rfl, rfl, rfl, rfl⟩ := h
  obtain ⟨g, hr, htrue⟩ := htold.answered
  refine ⟨c, rfl, hothers, rfl, ?_⟩
  obtain ⟨-, hm, he⟩ | ⟨rfl, k, live, stored, hk, hlive, hv, hs, hm, hok | ⟨e, he, rfl⟩⟩ := hr.update
  · exact .inl ⟨hm, he⟩
  · exact .inr ⟨k, live, stored, hk, hlive, hv, hs, hm, .inl hok⟩
  · refine .inr ⟨k, live, stored, hk, hlive, hv, hs, hm, .inr ⟨?_, e, he, rfl⟩⟩
    by_contra hlost
    cases htrue (Bool.eq_false_of_not_eq_true hlost)

/-! ## What is kept -/

/-- What the others keep and every request keeps, a session keeps. -/
theorem Amid.keeps {P : Memory → Prop} {s : Session α} {a : Except Error α}
    (hothers : ∀ m m', others m m' → P m → P m') (hserved : ∀ m m' : Memory, m.Served m' → P m → P m')
    (h : s.Amid others m cs a m') (hm : P m) : P m' := by
  have hstep : ∀ {β : Type} {serve : Memory → Except Error β × Memory} {r : Except Error β} {m : Memory} {c : Contact},
      (∀ m : Memory, m.Served (serve m).2) → P m → others m c.met → Told serve r c → P c.left :=
    fun hs hm hbefore htold => by
      cases htold with
      | served m | lost m _ => exact hserved _ _ (hs m) (hothers _ _ hbefore hm)
      | refused m _ => exact hothers _ _ hbefore hm
  induction s generalizing m cs with
  | done r =>
    obtain ⟨-, -, rfl⟩ := h
    exact hm
  | get k next ih =>
    obtain ⟨r, c, ds, hbefore, htold, -, h⟩ := h
    exact ih r h (hstep (fun _ => .get k) hm hbefore htold)
  | list t ns sel next ih =>
    obtain ⟨r, c, ds, hbefore, htold, -, h⟩ := h
    exact ih r h (hstep (fun _ => .list t ns sel) hm hbefore htold)
  | create o next ih =>
    obtain ⟨r, c, ds, hbefore, htold, -, h⟩ := h
    exact ih r h (hstep (fun _ => .create o) hm hbefore htold)
  | update o next ih =>
    obtain ⟨r, c, ds, hbefore, htold, -, h⟩ := h
    exact ih r h (hstep (fun _ => .update o) hm hbefore htold)
  | delete k p next ih =>
    obtain ⟨r, c, ds, hbefore, htold, -, h⟩ := h
    exact ih r h (hstep (fun _ => .delete k) hm hbefore htold)
  | setFinalizers k names next ih =>
    obtain ⟨r, c, ds, hbefore, htold, -, h⟩ := h
    exact ih r h (hstep (fun _ => .setFinalizers k names) hm hbefore htold)
  | mergeStatus k status manager next ih =>
    obtain ⟨r, c, ds, hbefore, htold, -, h⟩ := h
    exact ih r h (hstep (fun _ => .mergeStatus k status) hm hbefore htold)
  | sleep ms next ih => exact ih h hm
  | observe s next ih => exact ih h hm

/-- What neither the others nor a contact change is as it was. -/
theorem Amid.same {s : Session α} {a : Except Error α} (f : Memory → β)
    (hothers : ∀ m m', others m m' → f m' = f m) (h : s.Amid others m cs a m')
    (hcs : ∀ c ∈ cs, f c.left = f c.met) : f m' = f m := by
  induction s generalizing m cs with
  | done r =>
    obtain ⟨-, -, rfl⟩ := h
    rfl
  | get k next ih | list k p q next ih | create k next ih | update k next ih | delete k p next ih
  | setFinalizers k p next ih | mergeStatus k p q next ih =>
    obtain ⟨r, c, ds, hbefore, -, rfl, h⟩ := h
    obtain ⟨hc, hds⟩ := List.forall_mem_cons.1 hcs
    rw [ih r h hds, hc, hothers _ _ hbefore]
  | sleep ms next ih => exact ih h hcs
  | observe s next ih => exact ih h hcs

end Session

end Addons
