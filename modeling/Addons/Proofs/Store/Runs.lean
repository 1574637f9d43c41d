import Addons.Store.Memory
import Mathlib.Logic.Relation

/-!
# Runs of a session

`Session.Runs` relates a session and a store to what may come of them: the changes that were asked for, the
result, and the store that is left. Any request may fail, before the store has served it or after
(`Answered`), so a run stands for every way in which a call can be cut short. A run against the store to its
end is one of them (`runs_run`).

Two facts hold of all sessions. A run takes the store from one request served to the next (`Runs.reaches`), so
that what every request keeps every run keeps; and what a run leaves in a slot is what its last deed there left
(`Runs.find?`).
-/

namespace Addons

/-- A failure that does not say whether an object exists. -/
def Error.IsFault (e : Error) : Prop := e.isNotFound = false ∧ e.isAlreadyExists = false

/-- The answer that a client gets to a request, whether the request was granted, and the store
afterwards. -/
inductive Answered {α : Type} (served : Except Error α × Memory) (m : Memory) :
    Except Error α → Bool → Memory → Prop
  | served : Answered served m served.1 served.1.isOk served.2
  /-- The request does not reach the store. -/
  | refused {e : Error} : e.IsFault → Answered served m (.error e) false m
  /-- The answer does not reach the client. -/
  | lost {e : Error} : e.IsFault → Answered served m (.error e) served.1.isOk served.2

/-- A change of the store: a slot, and what was left there. -/
structure Deed where
  slot : Slot
  left : Option Object

/-- What came of a request for a change: a deed, or nothing. -/
abbrev Event := Option Deed

namespace Event

/-- What comes of a request about a key. -/
def about (k : Except Error Key) (granted : Bool) (m : Memory) : Event :=
  match k with
  | .ok k => if granted then some ⟨k.slot, m.object? k⟩ else none
  | .error _ => none

/-- What an event leaves in a slot; none if it leaves the slot alone. -/
def left? (e : Event) (s : Slot) : Option (Option Object) :=
  (e.filter fun d => d.slot = s).map Deed.left

/-- What the last event in a slot leaves there. -/
def lastLeft? : List Event → Slot → Option (Option Object)
  | [], _ => none
  | e :: es, s => (lastLeft? es s).or (e.left? s)

theorem left?_some_self (d : Deed) : left? (some d) d.slot = some d.left := by
  unfold left?
  rw [Option.filter_some, if_pos (decide_eq_true rfl)]
  rfl

theorem left?_some_ne {d : Deed} {s : Slot} (h : d.slot ≠ s) : left? (some d) s = none := by
  unfold left?
  rw [Option.filter_some, if_neg (by simpa using h)]
  rfl

/-- A request from which nothing came leaves no trace. -/
theorem lastLeft?_none_cons (es : List Event) (s : Slot) : lastLeft? (none :: es) s = lastLeft? es s := by
  rw [lastLeft?]
  exact Option.or_none

theorem lastLeft?_append (es fs : List Event) (s : Slot) :
    lastLeft? (es ++ fs) s = (lastLeft? fs s).or (lastLeft? es s) := by
  induction es with
  | nil => exact (Option.or_none).symm
  | cons e es ih =>
    show (lastLeft? (es ++ fs) s).or (e.left? s) = _
    rw [ih, Option.or_assoc]
    rfl

theorem lastLeft?_concat_self (es : List Event) (d : Deed) :
    lastLeft? (es ++ [some d]) d.slot = some d.left := by
  rw [lastLeft?_append, lastLeft?, left?_some_self]
  rfl

theorem lastLeft?_concat_ne {d : Deed} {s : Slot} (h : d.slot ≠ s) (es : List Event) :
    lastLeft? (es ++ [some d]) s = lastLeft? es s := by
  rw [lastLeft?_append, lastLeft?, left?_some_ne h]
  rfl

end Event

namespace Session

variable {α β : Type}

/-- What may come of a session: the changes asked for, the result, and the store. -/
def Runs : Session α → Memory → List Event → Except Error α → Memory → Prop
  | done r, m, es, a, m' => es = [] ∧ a = r ∧ m' = m
  | get k next, m, es, a, m' =>
    ∃ r g m₁, Answered (m.get k) m r g m₁ ∧ Runs (next r) m₁ es a m'
  | list t ns sel next, m, es, a, m' =>
    ∃ r g m₁, Answered (m.list t ns sel) m r g m₁ ∧ Runs (next r) m₁ es a m'
  | create o next, m, es, a, m' =>
    ∃ r g m₁ fs, Answered (m.create o) m r g m₁ ∧ es = Event.about o.key g m₁ :: fs
      ∧ Runs (next r) m₁ fs a m'
  | update o next, m, es, a, m' =>
    ∃ r g m₁ fs, Answered (m.update o) m r g m₁ ∧ es = Event.about o.key g m₁ :: fs
      ∧ Runs (next r) m₁ fs a m'
  | delete k _ next, m, es, a, m' =>
    ∃ r g m₁ fs, Answered (m.delete k) m r g m₁ ∧ es = Event.about (.ok k) g m₁ :: fs
      ∧ Runs (next r) m₁ fs a m'
  | setFinalizers k names next, m, es, a, m' =>
    ∃ r g m₁ fs, Answered (m.setFinalizers k names) m r g m₁ ∧ es = Event.about (.ok k) g m₁ :: fs
      ∧ Runs (next r) m₁ fs a m'
  | mergeStatus k status _ next, m, es, a, m' =>
    ∃ r g m₁ fs, Answered (m.mergeStatus k status) m r g m₁ ∧ es = Event.about (.ok k) g m₁ :: fs
      ∧ Runs (next r) m₁ fs a m'
  | sleep _ next, m, es, a, m' => Runs next m es a m'
  | observe _ next, m, es, a, m' => Runs next m es a m'

variable {m m' : Memory} {es : List Event}

/-- A run against the store, its failures included, is a run. -/
theorem runs_run (s : Session α) (h : Host) :
    ∃ es, s.Runs h.memory es (s.run h).1 (s.run h).2.memory := by
  induction s generalizing h with
  | done r => exact ⟨[], rfl, rfl, rfl⟩
  | get k next ih =>
    obtain ⟨es, hes⟩ := ih (h.memory.get k).1 { h with memory := (h.memory.get k).2 }
    exact ⟨es, _, _, _, .served, hes⟩
  | list t ns sel next ih =>
    obtain ⟨es, hes⟩ := ih (h.memory.list t ns sel).1 { h with memory := (h.memory.list t ns sel).2 }
    exact ⟨es, _, _, _, .served, hes⟩
  | create o next ih =>
    obtain ⟨es, hes⟩ := ih (h.memory.create o).1 { h with memory := (h.memory.create o).2 }
    exact ⟨_ :: es, _, _, _, es, .served, rfl, hes⟩
  | update o next ih =>
    obtain ⟨es, hes⟩ := ih (h.memory.update o).1 { h with memory := (h.memory.update o).2 }
    exact ⟨_ :: es, _, _, _, es, .served, rfl, hes⟩
  | delete k p next ih =>
    obtain ⟨es, hes⟩ := ih (h.memory.delete k).1 { h with memory := (h.memory.delete k).2 }
    exact ⟨_ :: es, _, _, _, es, .served, rfl, hes⟩
  | setFinalizers k names next ih =>
    obtain ⟨es, hes⟩ := ih (h.memory.setFinalizers k names).1
      { h with memory := (h.memory.setFinalizers k names).2 }
    exact ⟨_ :: es, _, _, _, es, .served, rfl, hes⟩
  | mergeStatus k status manager next ih =>
    obtain ⟨es, hes⟩ := ih (h.memory.mergeStatus k status).1
      { h with memory := (h.memory.mergeStatus k status).2 }
    exact ⟨_ :: es, _, _, _, es, .served, rfl, hes⟩
  | sleep ms next ih => exact ih { h with elapsed := h.elapsed + ms }
  | observe s next ih => exact ih { h with samples := h.samples ++ [s] }

end Session

/-- The store as the serving of a request leaves it. -/
inductive Memory.Served (m : Memory) : Memory → Prop
  | get (k : Key) : Served m (m.get k).2
  | list (t : TypeRef) (ns sel : Option String) : Served m (m.list t ns sel).2
  | create (o : Object) : Served m (m.create o).2
  | update (o : Object) : Served m (m.update o).2
  | delete (k : Key) : Served m (m.delete k).2
  | setFinalizers (k : Key) (names : List String) : Served m (m.setFinalizers k names).2
  | mergeStatus (k : Key) (status : Json) : Served m (m.mergeStatus k status).2

/-- A request is served, or the store stays as it is. -/
theorem Answered.reaches {α : Type} {served : Except Error α × Memory} {m m' : Memory}
    {r : Except Error α} {g : Bool} (h : Answered served m r g m') (hs : m.Served served.2) :
    Relation.ReflTransGen Memory.Served m m' := by
  cases h with
  | served => exact .single hs
  | refused _ => exact .refl
  | lost _ => exact .single hs

namespace Session

variable {α β : Type} {m m' : Memory} {es : List Event}

/-- A run takes the store from one request served to the next. -/
theorem Runs.reaches {s : Session α} {a : Except Error α} (h : s.Runs m es a m') :
    Relation.ReflTransGen Memory.Served m m' := by
  induction s generalizing m es with
  | done r =>
    obtain ⟨-, -, rfl⟩ := h
    exact .refl
  | get k next ih =>
    obtain ⟨r, g, m₁, hr, h⟩ := h
    exact (hr.reaches (.get k)).trans (ih r h)
  | list t ns sel next ih =>
    obtain ⟨r, g, m₁, hr, h⟩ := h
    exact (hr.reaches (.list t ns sel)).trans (ih r h)
  | create o next ih =>
    obtain ⟨r, g, m₁, fs, hr, -, h⟩ := h
    exact (hr.reaches (.create o)).trans (ih r h)
  | update o next ih =>
    obtain ⟨r, g, m₁, fs, hr, -, h⟩ := h
    exact (hr.reaches (.update o)).trans (ih r h)
  | delete k p next ih =>
    obtain ⟨r, g, m₁, fs, hr, -, h⟩ := h
    exact (hr.reaches (.delete k)).trans (ih r h)
  | setFinalizers k names next ih =>
    obtain ⟨r, g, m₁, fs, hr, -, h⟩ := h
    exact (hr.reaches (.setFinalizers k names)).trans (ih r h)
  | mergeStatus k status manager next ih =>
    obtain ⟨r, g, m₁, fs, hr, -, h⟩ := h
    exact (hr.reaches (.mergeStatus k status)).trans (ih r h)
  | sleep ms next ih => exact ih h
  | observe s next ih => exact ih h

/-! ## Sequences of sessions -/

/-- A run of a session and what follows it splits where the session ends. -/
theorem runs_andThen {s : Session α} {f : Except Error α → Session β} {b : Except Error β} :
    (s.andThen f).Runs m es b m' ↔ ∃ a m₁ es₁ es₂, s.Runs m es₁ a m₁ ∧ es = es₁ ++ es₂
      ∧ (f a).Runs m₁ es₂ b m' := by
  induction s generalizing m es with
  | done r =>
    constructor
    · intro h
      exact ⟨r, m, [], es, ⟨rfl, rfl, rfl⟩, rfl, h⟩
    · rintro ⟨_, _, _, _, ⟨rfl, rfl, rfl⟩, rfl, h⟩
      exact h
  | get k next ih =>
    constructor
    · rintro ⟨r, g, m₁, hr, h⟩
      obtain ⟨a, m₂, es₁, es₂, h₁, he, h₂⟩ := (ih r).1 h
      exact ⟨a, m₂, es₁, es₂, ⟨r, g, m₁, hr, h₁⟩, he, h₂⟩
    · rintro ⟨a, m₂, es₁, es₂, ⟨r, g, m₁, hr, h₁⟩, he, h₂⟩
      exact ⟨r, g, m₁, hr, (ih r).2 ⟨a, m₂, es₁, es₂, h₁, he, h₂⟩⟩
  | list t ns sel next ih =>
    constructor
    · rintro ⟨r, g, m₁, hr, h⟩
      obtain ⟨a, m₂, es₁, es₂, h₁, he, h₂⟩ := (ih r).1 h
      exact ⟨a, m₂, es₁, es₂, ⟨r, g, m₁, hr, h₁⟩, he, h₂⟩
    · rintro ⟨a, m₂, es₁, es₂, ⟨r, g, m₁, hr, h₁⟩, he, h₂⟩
      exact ⟨r, g, m₁, hr, (ih r).2 ⟨a, m₂, es₁, es₂, h₁, he, h₂⟩⟩
  | create o next ih | update o next ih | delete o p next ih | setFinalizers o p next ih
  | mergeStatus o p q next ih =>
    constructor
    · rintro ⟨r, g, m₁, fs, hr, rfl, h⟩
      obtain ⟨a, m₂, es₁, es₂, h₁, rfl, h₂⟩ := (ih r).1 h
      exact ⟨a, m₂, _ :: es₁, es₂, ⟨r, g, m₁, es₁, hr, rfl, h₁⟩, rfl, h₂⟩
    · rintro ⟨a, m₂, _, es₂, ⟨r, g, m₁, es₁, hr, rfl, h₁⟩, rfl, h₂⟩
      exact ⟨r, g, m₁, es₁ ++ es₂, hr, rfl, (ih r).2 ⟨a, m₂, es₁, es₂, h₁, rfl, h₂⟩⟩
  | sleep ms next ih => exact ih
  | observe s next ih => exact ih

/-- A run of two sessions in a row gets through the first, or ends with its error. -/
theorem runs_bind {s : Session α} {f : α → Session β} {b : Except Error β} :
    (s >>= f).Runs m es b m' ↔
      (∃ a m₁ es₁ es₂, s.Runs m es₁ (.ok a) m₁ ∧ es = es₁ ++ es₂ ∧ (f a).Runs m₁ es₂ b m')
        ∨ ∃ e, s.Runs m es (.error e) m' ∧ b = .error e := by
  refine runs_andThen.trans ⟨?_, ?_⟩
  · rintro ⟨a, m₁, es₁, es₂, h₁, he, h₂⟩
    cases a with
    | ok a => exact .inl ⟨a, m₁, es₁, es₂, h₁, he, h₂⟩
    | error e =>
      obtain ⟨rfl, rfl, rfl⟩ := h₂
      exact .inr ⟨e, by rw [he, List.append_nil]; exact h₁, rfl⟩
  · rintro (⟨a, m₁, es₁, es₂, h₁, he, h₂⟩ | ⟨e, h, rfl⟩)
    · exact ⟨.ok a, m₁, es₁, es₂, h₁, he, h₂⟩
    · exact ⟨.error e, m', es, [], h, (List.append_nil es).symm, rfl, rfl, rfl⟩

/-- A run of two sessions in a row that succeeds gets through both. -/
theorem runs_bind_ok {s : Session α} {f : α → Session β} {b : β} (h : (s >>= f).Runs m es (.ok b) m') :
    ∃ a m₁ es₁ es₂, s.Runs m es₁ (.ok a) m₁ ∧ (f a).Runs m₁ es₂ (.ok b) m' := by
  obtain ⟨a, m₁, es₁, es₂, h₁, -, h₂⟩ | ⟨e, -, he⟩ := runs_bind.1 h
  · exact ⟨a, m₁, es₁, es₂, h₁, h₂⟩
  · cases he

/-- A run of two sessions in a row that asks for no change has none asked for by either. -/
theorem runs_bind_silent {s : Session α} {f : α → Session β} {b : β}
    (h : (s >>= f).Runs m [] (.ok b) m') :
    ∃ a m₁, s.Runs m [] (.ok a) m₁ ∧ (f a).Runs m₁ [] (.ok b) m' := by
  obtain ⟨a, m₁, es₁, es₂, h₁, hes, h₂⟩ | ⟨e, -, he⟩ := runs_bind.1 h
  · obtain ⟨rfl, rfl⟩ := List.append_eq_nil_iff.1 hes.symm
    exact ⟨a, m₁, h₁, h₂⟩
  · cases he

theorem runs_lift_bind {x : Except Error α} {f : α → Session β} {b : Except Error β} :
    ((liftM x : Session α) >>= f).Runs m es b m' ↔
      (∃ a, x = .ok a ∧ (f a).Runs m es b m') ∨ ∃ e, x = .error e ∧ es = [] ∧ b = .error e ∧ m' = m := by
  cases x with
  | ok a =>
    refine ⟨fun h => .inl ⟨a, rfl, h⟩, ?_⟩
    rintro (⟨_, ⟨rfl⟩, h⟩ | ⟨e, he, -⟩)
    · exact h
    · cases he
  | error e =>
    refine ⟨fun ⟨hes, hb, hm⟩ => .inr ⟨e, rfl, hes, hb, hm⟩, ?_⟩
    rintro (⟨_, ha, -⟩ | ⟨_, ⟨rfl⟩, h⟩)
    · cases ha
    · exact h

theorem runs_attempt {s : Session α} {a : Except Error (Except Error α)} :
    s.attempt.Runs m es a m' ↔ ∃ r, a = .ok r ∧ s.Runs m es r m' := by
  unfold attempt
  rw [runs_andThen]
  constructor
  · rintro ⟨r, m₁, es₁, _, h, rfl, rfl, rfl, rfl⟩
    exact ⟨r, rfl, by rw [List.append_nil]; exact h⟩
  · rintro ⟨r, rfl, h⟩
    exact ⟨r, m', es, [], h, (List.append_nil es).symm, rfl, rfl, rfl⟩

end Session

end Addons
