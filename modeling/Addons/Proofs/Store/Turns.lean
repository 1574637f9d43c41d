import Addons.Proofs.Store.Outcome
import Mathlib.Data.List.Induction
import Mathlib.Logic.Function.Basic

/-!
# Clients that take turns

Several clients run one session each against the same store, and take turns by single requests
(`Crowd.play`). In a race for one key every client is at a known stage, which the turns of the others keep
as long as all that they write is good, and whoever writes has succeeded (`Race.Fair`). Then whatever the
turns, every client stays at such a stage and comes to its end, and where the object was not there at first
one client has created it (`Race.Fair.standing`).
-/

namespace Addons

variable {α : Type}

namespace Session

/-- What a session asks for next, and the session that is left with the answer. -/
def turn : Session α → Host → Session α × Host
  | done r, h => (done r, h)
  | get k next, h => (next (h.memory.get k).1, { h with memory := (h.memory.get k).2 })
  | list t ns sel next, h =>
    (next (h.memory.list t ns sel).1, { h with memory := (h.memory.list t ns sel).2 })
  | create o next, h => (next (h.memory.create o).1, { h with memory := (h.memory.create o).2 })
  | update o next, h => (next (h.memory.update o).1, { h with memory := (h.memory.update o).2 })
  | delete k _ next, h => (next (h.memory.delete k).1, { h with memory := (h.memory.delete k).2 })
  | setFinalizers k names next, h =>
    (next (h.memory.setFinalizers k names).1, { h with memory := (h.memory.setFinalizers k names).2 })
  | mergeStatus k status _ next, h =>
    (next (h.memory.mergeStatus k status).1, { h with memory := (h.memory.mergeStatus k status).2 })
  | sleep ms next, h => (next, { h with elapsed := h.elapsed + ms })
  | observe s next, h => (next, { h with samples := h.samples ++ [s] })

theorem turn_served (s : Session α) (h : Host) :
    (s.turn h).2.memory = h.memory ∨ h.memory.Served (s.turn h).2.memory := by
  cases s with
  | done r => exact .inl rfl
  | get k next => exact .inr (.get k)
  | list t ns sel next => exact .inr (.list t ns sel)
  | create o next => exact .inr (.create o)
  | update o next => exact .inr (.update o)
  | delete k p next => exact .inr (.delete k)
  | setFinalizers k names next => exact .inr (.setFinalizers k names)
  | mergeStatus k status manager next => exact .inr (.mergeStatus k status)
  | sleep ms next => exact .inl rfl
  | observe s next => exact .inl rfl

theorem turn_filed (s : Session α) {h : Host} (hm : h.memory.Filed) : (s.turn h).2.memory.Filed := by
  rcases turn_served s h with hsame | hserved
  · rwa [hsame]
  · exact hserved.filed hm

theorem turn_healthy (s : Session α) {h : Host} (hm : h.memory.Healthy) : (s.turn h).2.memory.Healthy := by
  rcases turn_served s h with hsame | hserved
  · rwa [hsame]
  · exact List.subset_nil.1 (hm ▸ hserved.failures_subset)

end Session

/-- Clients of one store, each with what is left of its session. -/
structure Crowd (n : Nat) (α : Type) where
  clients : Fin n → Session α
  host : Host

namespace Crowd

variable {n : Nat}

/-- Every client is about to run the same session. -/
def start (n : Nat) (s : Session α) (h : Host) : Crowd n α := ⟨fun _ => s, h⟩

/-- One client takes a turn. -/
def step (c : Crowd n α) (i : Fin n) : Crowd n α :=
  ⟨Function.update c.clients i ((c.clients i).turn c.host).1, ((c.clients i).turn c.host).2⟩

/-- The clients take turns in the order of a list. -/
def play (c : Crowd n α) (turns : List (Fin n)) : Crowd n α := turns.foldl step c

/-- A client has come to its end with a result. -/
def Ended (c : Crowd n α) (i : Fin n) (r : Except Error α) : Prop := c.clients i = .done r

/-- Every client has come to its end. -/
def AllEnded (c : Crowd n α) : Prop := ∀ i, ∃ r, c.Ended i r

/-- A client has succeeded. -/
def Won (c : Crowd n α) : Prop := ∃ i a, c.Ended i (.ok a)

variable {c : Crowd n α} {i j : Fin n}

theorem clients_step : (c.step i).clients i = ((c.clients i).turn c.host).1 := Function.update_self ..

theorem clients_step_ne (h : j ≠ i) : (c.step i).clients j = c.clients j := Function.update_of_ne h ..

theorem Ended.step {r : Except Error α} (h : c.Ended j r) : (c.step i).Ended j r := by
  unfold Ended at h ⊢
  by_cases hj : j = i
  · subst hj
    rw [clients_step, h]
    rfl
  · rw [clients_step_ne hj, h]

theorem Won.step (h : c.Won) : (c.step i).Won := by
  obtain ⟨j, a, hended⟩ := h
  exact ⟨j, a, hended.step⟩

end Crowd

/-- Clients race for an object. -/
structure Race (α : Type) where
  key : Key
  /-- How the client ends that creates the object. -/
  first : α
  /-- The object was not there at the start. -/
  absent : Prop
  /-- What the clients may leave there. -/
  Good : Object → Prop
  /-- What is known of a client, given what is there, whether one has succeeded, and how many turns it needs
  yet. -/
  Stage : Option Object → Prop → Nat → Session α → Prop

namespace Race

variable (R : Race α)

/-- What can be there. -/
structure Holds (live? : Option Object) : Prop where
  good : R.absent → ∀ o, live? = some o → R.Good o
  there : ¬R.absent → live? ≠ none

/-- What a turn does about the object, and about who has created it. -/
inductive Effect (s s' : Session α) (live? : Option Object) : Option Object → Prop
  | looks : (s' = .done (.ok R.first) ↔ s = .done (.ok R.first)) → Effect s s' live? live?
  | writes {stored : Object} {a : α} : R.Good stored → s' = .done (.ok a) → (a = R.first ↔ R.absent) →
      (R.absent → live? = none) → Effect s s' live? (some stored)

/-- A turn takes a client from its stage to one that is nearer to the end. -/
structure Leads (h : Host) (won : Prop) (left : Nat) (s : Session α) : Prop where
  effect : R.Effect s (s.turn h).1 (h.memory.object? R.key) ((s.turn h).2.memory.object? R.key)
  stage : ∃ left' ≤ left - 1, R.Stage ((s.turn h).2.memory.object? R.key) won left' (s.turn h).1

/-- The stages are kept by the turns of others, and every turn leads to the next. -/
structure Fair : Prop where
  kept : ∀ {live? live?' : Option Object} {won won' : Prop} {left : Nat} {s : Session α},
    R.Stage live? won left s → (won → won') →
      (live?' = live? ∨ ∃ o, live?' = some o ∧ R.Good o ∧ won') → R.Stage live?' won' left s
  ended : ∀ {live? : Option Object} {won : Prop} {s : Session α}, R.Stage live? won 0 s → ∃ r, s = .done r
  turn : ∀ {h : Host} {won : Prop} {left : Nat} {s : Session α}, h.memory.Filed → h.memory.Healthy →
    R.Holds (h.memory.object? R.key) → R.Stage (h.memory.object? R.key) won left s → R.Leads h won left s

/-- Where the clients stand after some turns, when at the start each of them needed no more than a limit. -/
structure Standing {n : Nat} (limit : Nat) (turns : List (Fin n)) (c : Crowd n α) : Prop where
  filed : c.host.memory.Filed
  healthy : c.host.memory.Healthy
  holds : R.Holds (c.host.memory.object? R.key)
  stage : ∀ i, ∃ left ≤ limit - turns.count i, R.Stage (c.host.memory.object? R.key) c.Won left (c.clients i)
  created : (∃ i, c.Ended i (.ok R.first)) ↔ R.absent ∧ c.host.memory.object? R.key ≠ none
  sole : ∀ i j, c.Ended i (.ok R.first) → c.Ended j (.ok R.first) → i = j

variable {R} {n limit : Nat} {turns : List (Fin n)} {c : Crowd n α} {i j : Fin n} {s s' : Session α}
  {live? live?' : Option Object} {h : Host}

theorem Leads.of_look {h' : Host} {won : Prop} {left : Nat} (hturn : s.turn h = (s', h'))
    (hsame : h'.memory.object? R.key = h.memory.object? R.key) (hs : s ≠ .done (.ok R.first))
    (hs' : s' ≠ .done (.ok R.first))
    (hstage : ∃ left' ≤ left - 1, R.Stage (h.memory.object? R.key) won left' s') : R.Leads h won left s := by
  constructor
  · rw [hturn, hsame]
    exact .looks (iff_of_false hs' hs)
  · rw [hturn, hsame]
    exact hstage

theorem Leads.of_write {h' : Host} {won : Prop} {left : Nat} {a : α} {stored : Object}
    (hturn : s.turn h = (.done (.ok a), h')) (hstored : h'.memory.object? R.key = some stored)
    (hgood : R.Good stored) (hfirst : a = R.first ↔ R.absent)
    (hnone : R.absent → h.memory.object? R.key = none)
    (hstage : R.Stage (some stored) won 0 (.done (.ok a))) : R.Leads h won left s := by
  constructor
  · rw [hturn, hstored]
    exact .writes hgood rfl hfirst hnone
  · rw [hturn, hstored]
    exact ⟨0, Nat.zero_le _, hstage⟩

/-- Who is at its end stays there. -/
theorem Leads.of_done {won : Prop} {r : Except Error α}
    (hstage : R.Stage (h.memory.object? R.key) won 0 (.done r)) : R.Leads h won 0 (.done r) :=
  ⟨.looks Iff.rfl, 0, le_rfl, hstage⟩

theorem Effect.holds (he : R.Effect s s' live? live?') (hh : R.Holds live?) : R.Holds live?' := by
  cases he with
  | looks => exact hh
  | writes hgood => exact ⟨fun _ o ho => Option.some.inj ho ▸ hgood, fun _ => Option.some_ne_none _⟩

/-- What is there stays, or the client has put a good object there and has succeeded. -/
theorem Effect.leaves (he : R.Effect s s' live? live?') :
    live?' = live? ∨ ∃ o, live?' = some o ∧ R.Good o ∧ ∃ a, s' = .done (.ok a) := by
  cases he with
  | looks => exact .inl rfl
  | writes hgood hdone => exact .inr ⟨_, rfl, hgood, _, hdone⟩

/-- The client that took the turn has created the object, or has not, as before; the other clients stand as
they stood. -/
theorem ended_step_iff
    (hsame : (c.step i).clients i = .done (.ok R.first) ↔ c.clients i = .done (.ok R.first)) :
    (c.step i).Ended j (.ok R.first) ↔ c.Ended j (.ok R.first) := by
  unfold Crowd.Ended
  by_cases hj : j = i
  · rw [hj, hsame]
  · rw [Crowd.clients_step_ne hj]

theorem Standing.created_step (h : R.Standing limit turns c)
    (he : R.Effect (c.clients i) ((c.step i).clients i) (c.host.memory.object? R.key) live?') :
    ((∃ i', (c.step i).Ended i' (.ok R.first)) ↔ R.absent ∧ live?' ≠ none)
      ∧ ∀ i' j, (c.step i).Ended i' (.ok R.first) → (c.step i).Ended j (.ok R.first) → i' = j := by
  cases he with
  | looks hsame =>
    simp only [ended_step_iff hsame]
    exact ⟨h.created, h.sole⟩
  | @writes stored a hgood hdone hfirst hnone =>
    -- nobody has created it before: it was there from the start, or it was not there until now
    have hbefore : ∀ j, ¬c.Ended j (.ok R.first) := fun j hj => by
      obtain ⟨habsent, hthere⟩ := h.created.1 ⟨j, hj⟩
      exact hthere (hnone habsent)
    have honly : ∀ j, (c.step i).Ended j (.ok R.first) → j = i := fun j hj => by
      by_contra hne
      unfold Crowd.Ended at hj
      rw [Crowd.clients_step_ne hne] at hj
      exact hbefore j hj
    refine ⟨⟨fun ⟨j, hj⟩ => ?_, fun ⟨habsent, _⟩ => ⟨i, ?_⟩⟩,
      fun i' j hi hj => (honly i' hi).trans (honly j hj).symm⟩
    · obtain rfl := honly j hj
      obtain rfl : a = R.first := Except.ok.inj (Session.done.inj (hdone.symm.trans hj))
      exact ⟨hfirst.1 rfl, Option.some_ne_none _⟩
    · obtain rfl := hfirst.2 habsent
      exact hdone

theorem Standing.step (hR : R.Fair) (h : R.Standing limit turns c) (i : Fin n) :
    R.Standing limit (turns ++ [i]) (c.step i) := by
  obtain ⟨left, hleft, hstage⟩ := h.stage i
  obtain ⟨he, left', hleft', hstage'⟩ := hR.turn h.filed h.healthy h.holds hstage
  rw [← Crowd.clients_step] at he hstage'
  obtain ⟨hcreated, hsole⟩ := h.created_step he
  refine ⟨Session.turn_filed _ h.filed, Session.turn_healthy _ h.healthy, he.holds h.holds, fun j => ?_,
    hcreated, hsole⟩
  have hcount : (turns ++ [i]).count j = turns.count j + if i = j then 1 else 0 := by
    rw [List.count_append, List.count_singleton]
    simp
  by_cases hj : j = i
  · subst hj
    refine ⟨left', ?_, hR.kept hstage' Crowd.Won.step (.inl rfl)⟩
    rw [hcount, if_pos rfl]
    omega
  · obtain ⟨left, hleft, hstage⟩ := h.stage j
    rw [← Crowd.clients_step_ne hj] at hstage
    refine ⟨left, ?_, hR.kept hstage Crowd.Won.step ?_⟩
    · rw [hcount, if_neg (Ne.symm hj)]
      exact hleft
    · refine he.leaves.imp_right ?_
      rintro ⟨o, ho, hgood, a, hdone⟩
      exact ⟨o, ho, hgood, i, a, hdone⟩

/-- Whatever the turns, the clients of a fair race stand as they should. -/
theorem Fair.standing (hR : R.Fair) (hm : h.memory.Filed) (hhealthy : h.memory.Healthy)
    (habsent : R.absent ↔ h.memory.object? R.key = none)
    (hstage : ∀ won, R.Stage (h.memory.object? R.key) won limit s) (hs : s ≠ .done (.ok R.first))
    (turns : List (Fin n)) : R.Standing limit turns ((Crowd.start n s h).play turns) := by
  induction turns using List.reverseRecOn with
  | nil =>
    refine ⟨hm, hhealthy, ⟨fun hnone o ho => ?_, habsent.not.1⟩, fun i => ⟨limit, le_rfl, hstage _⟩,
      ⟨fun ⟨_, hi⟩ => absurd hi hs, fun ⟨hnone, hthere⟩ => absurd (habsent.1 hnone) hthere⟩,
      fun _ _ hi => absurd hi hs⟩
    cases (habsent.1 hnone).symm.trans ho
  | append_singleton turns i ih =>
    have hplay : (Crowd.start n s h).play (turns ++ [i]) = ((Crowd.start n s h).play turns).step i := by
      unfold Crowd.play
      rw [List.foldl_append]
      rfl
    rw [hplay]
    exact ih.step hR i

/-- Who has had its turns is at its end. -/
theorem Standing.ended (hR : R.Fair) (h : R.Standing limit turns c) (hturns : limit ≤ turns.count i) :
    ∃ r, c.Ended i r := by
  obtain ⟨left, hleft, hstage⟩ := h.stage i
  obtain rfl : left = 0 := by omega
  exact hR.ended hstage

theorem Standing.one_creates (h : R.Standing limit turns c) (habsent : R.absent)
    (hthere : c.host.memory.object? R.key ≠ none) : ∃! i, c.Ended i (.ok R.first) := by
  obtain ⟨i, hi⟩ := h.created.2 ⟨habsent, hthere⟩
  exact ⟨i, hi, fun j hj => h.sole j i hj hi⟩

end Race

end Addons
