import Addons.Component.Timeout
import Mathlib.Data.Nat.Find

/-!
# How long a wait takes

Waiting for availability comes to a number of polls with a rest between each and the next, which the timeout and the
interval settle beforehand (`Await.poll_eq_turns`, in whatever monad the polls are made). What comes of it is
settled by the first poll that is not in vain (`Await.poll_decides`).
-/

namespace Addons.Await

section Turns

variable {m : Type → Type} [Monad m] [MonadExceptOf Error m]

/-- Polls with a rest after each but the last, up to the first that is not in vain. -/
def turns (probe : m (Option Status)) (rest : m PUnit) (late : Error) (n : Nat) : m Status := do
  match (← probe).filter fun s => s.type = .available with
  | some s => return s
  | none =>
    match n with
    | 0 => throw late
    | n + 1 => do
      rest
      turns probe rest late n

/-- What is said when the time is up. -/
def overdue (timeout : Nat) : Error := .timeout s!"{timeout / 1000}s"

variable {timeout interval : Nat}

/-- With `n` rests left before the deadline there are as many more polls. -/
theorem pollFrom_eq_turns (hpos : 0 < interval) (probe : m (Option Status)) (sleep : Nat → m PUnit) (idle n : Nat)
    {elapsed : Nat} (hfits : elapsed + n * interval ≤ timeout) (hends : timeout < elapsed + (n + 1) * interval) :
    pollFrom timeout interval probe sleep elapsed idle = turns probe (sleep interval) (overdue timeout) n := by
  induction n generalizing elapsed with
  | zero =>
    have hlast : ¬(elapsed + interval ≤ timeout ∧ 0 < interval) := by omega
    have hmoving : ¬(interval = 0 ∧ 0 < idle) := by omega
    rw [pollFrom, dif_neg hlast, dif_neg hmoving]
    exact (turns.eq_def probe (sleep interval) (overdue timeout) 0).symm
  | succ n ih =>
    have hnext : (n + 1) * interval = n * interval + interval := Nat.succ_mul n interval
    have hnext' : (n + 1 + 1) * interval = n * interval + interval + interval := by
      rw [Nat.succ_mul, hnext]
    have hgoes : elapsed + interval ≤ timeout ∧ 0 < interval := by omega
    rw [pollFrom, dif_pos hgoes, ih (by omega) (by omega)]
    exact (turns.eq_def probe (sleep interval) (overdue timeout) (n + 1)).symm

/-- A wait polls once at the start and once after each interval that ends in time. -/
theorem poll_eq_turns (hpos : 0 < interval) (probe : m (Option Status)) (sleep : Nat → m PUnit) :
    poll timeout interval probe sleep = turns probe (sleep interval) (overdue timeout) (timeout / interval) := by
  refine pollFrom_eq_turns hpos probe sleep maxIdle (timeout / interval) ?_ ?_
  · rw [Nat.zero_add]
    exact Nat.div_mul_le_self timeout interval
  · rw [Nat.zero_add, Nat.mul_comm]
    exact Nat.lt_mul_div_succ timeout hpos

end Turns

/-! ## Waiting for a sequence of results -/

/-- What a wait has taken so far. -/
structure Waited where
  polls : Nat := 0
  /-- Milliseconds of rest. -/
  slept : Nat := 0
  deriving DecidableEq, Repr

abbrev Counted (α : Type) := ExceptT Error (StateM Waited) α

/-- The poll whose results are given in advance, one for each time that it is made. -/
def scripted (results : Nat → Except Error (Option Status)) : Counted (Option Status) := do
  let w ← get
  set { w with polls := w.polls + 1 }
  liftExcept (results w.polls)

def doze (millis : Nat) : Counted PUnit := modify fun w => { w with slept := w.slept + millis }

/-- What comes of a wait, and what it has taken. -/
def awaited (timeout interval : Nat) (results : Nat → Except Error (Option Status)) : Except Error Status × Waited :=
  (poll timeout interval (scripted results) doze).run.run {}

/-- A poll that does not end the wait: there is no status yet, or one that is not available. -/
def InVain (result : Except Error (Option Status)) : Prop :=
  ∃ s?, result = .ok s? ∧ ∀ s ∈ s?, s.type ≠ .available

variable {results : Nat → Except Error (Option Status)} {interval : Nat} {late : Error}

/-- One more poll has been made. -/
def Waited.polled (w : Waited) : Waited := { w with polls := w.polls + 1 }

/-- A poll hands on its result, or ends everything. -/
theorem run_scripted_bind {α : Type} (f : Option Status → Counted α) (w : Waited) :
    (scripted results >>= f).run.run w = match results w.polls with
      | .ok s? => (f s?).run.run w.polled
      | .error e => (.error e, w.polled) := by
  have hpoll : (scripted results).run.run w = (results w.polls, w.polled) := by
    show (liftExcept (results w.polls) : Counted (Option Status)).run.run w.polled = _
    cases results w.polls <;> rfl
  simp only [ExceptT.run_bind, StateT.run_bind, hpoll]
  cases results w.polls <;> rfl

/-- What comes of the turns that are left, where some polls have been made. -/
def turnsFrom (results : Nat → Except Error (Option Status)) (interval : Nat) (late : Error) (n : Nat) (w : Waited) :
    Except Error Status × Waited :=
  (turns (scripted results) (doze interval) late n).run.run w

theorem turnsFrom_failed {w : Waited} {e : Error} (h : results w.polls = .error e) (n : Nat) :
    turnsFrom results interval late n w = (.error e, w.polled) := by
  unfold turnsFrom
  rw [turns.eq_def, run_scripted_bind, h]

theorem turnsFrom_available {w : Waited} {s : Status} (h : results w.polls = .ok (some s))
    (hs : s.type = .available) (n : Nat) : turnsFrom results interval late n w = (.ok s, w.polled) := by
  have hkept : (some s).filter (fun s => s.type = .available) = some s := by simp [hs]
  unfold turnsFrom
  rw [turns.eq_def, run_scripted_bind, h]
  simp only [hkept]
  rfl

/-- After a poll in vain the wait goes on, or its time is up. -/
theorem turnsFrom_inVain {w : Waited} (h : InVain (results w.polls)) (n : Nat) :
    turnsFrom results interval late n w = match n with
      | 0 => (.error late, w.polled)
      | n + 1 => turnsFrom results interval late n { w.polled with slept := w.slept + interval } := by
  obtain ⟨s?, hs, hother⟩ := h
  have hdropped : s?.filter (fun s => s.type = .available) = none := by
    rw [Option.filter_eq_none_iff]
    simpa using hother
  unfold turnsFrom
  rw [turns.eq_def, run_scripted_bind, hs]
  simp only [hdropped]
  cases n <;> rfl

/-- Polls in vain are made one after the other, with a rest after each. -/
theorem turnsFrom_add {k : Nat} (h : ∀ i < k, InVain (results i)) (n : Nat) :
    turnsFrom results interval late (n + k) {} = turnsFrom results interval late n ⟨k, k * interval⟩ := by
  induction k generalizing n with
  | zero => rw [Nat.zero_mul]; rfl
  | succ k ih =>
    have hk : InVain (results (Waited.mk k (k * interval)).polls) := h k (Nat.lt_succ_self k)
    rw [show n + (k + 1) = n + 1 + k by omega, ih (fun i hi => h i (by omega)), turnsFrom_inVain hk,
      Nat.succ_mul]
    rfl

/-- A poll that is not in vain has failed or has found what was waited for. -/
theorem not_inVain_iff {result : Except Error (Option Status)} :
    ¬InVain result ↔ (∃ s, result = .ok (some s) ∧ s.type = .available) ∨ ∃ e, result = .error e := by
  cases result with
  | error e => simp [InVain]
  | ok s? => cases s? <;> simp [InVain]

variable {timeout : Nat}

theorem awaited_of_inVain (hpos : 0 < interval) {n : Nat} (hn : n ≤ timeout / interval)
    (h : ∀ k < n, InVain (results k)) : awaited timeout interval results
      = turnsFrom results interval (overdue timeout) (timeout / interval - n) ⟨n, n * interval⟩ := by
  rw [← turnsFrom_add h, Nat.sub_add_cancel hn]
  unfold awaited turnsFrom
  rw [poll_eq_turns hpos]

theorem awaited_available (hpos : 0 < interval) {n : Nat} (hn : n ≤ timeout / interval)
    (h : ∀ k < n, InVain (results k)) {s : Status} (hs : results n = .ok (some s)) (htype : s.type = .available) :
    awaited timeout interval results = (.ok s, ⟨n + 1, n * interval⟩) := by
  rw [awaited_of_inVain hpos hn h]
  exact turnsFrom_available hs htype _

theorem awaited_failed (hpos : 0 < interval) {n : Nat} (hn : n ≤ timeout / interval)
    (h : ∀ k < n, InVain (results k)) {e : Error} (he : results n = .error e) :
    awaited timeout interval results = (.error e, ⟨n + 1, n * interval⟩) := by
  rw [awaited_of_inVain hpos hn h]
  exact turnsFrom_failed he _

theorem awaited_overdue (hpos : 0 < interval) (h : ∀ k ≤ timeout / interval, InVain (results k)) :
    awaited timeout interval results
      = (.error (overdue timeout), ⟨timeout / interval + 1, timeout / interval * interval⟩) := by
  rw [awaited_of_inVain hpos le_rfl fun k hk => h k (Nat.le_of_lt hk), Nat.sub_self]
  exact turnsFrom_inVain (h _ le_rfl) 0

/-- Of the polls that fit, all are in vain or there is a first one that is not. -/
theorem inVain_or_first (results : Nat → Except Error (Option Status)) (last : Nat) :
    (∀ k ≤ last, InVain (results k))
      ∨ ∃ n ≤ last, ¬InVain (results n) ∧ ∀ k < n, InVain (results k) := by
  classical
  by_cases hall : ∀ k ≤ last, InVain (results k)
  · exact .inl hall
  · push Not at hall
    refine .inr ⟨Nat.find hall, (Nat.find_spec hall).1, (Nat.find_spec hall).2, fun k hk => ?_⟩
    by_contra hends
    exact Nat.find_min hall hk ⟨Nat.le_trans (Nat.le_of_lt hk) (Nat.find_spec hall).1, hends⟩

/-- A wait makes no more polls than fit and sleeps no longer than it may. -/
theorem awaited_bounded (hpos : 0 < interval) (results : Nat → Except Error (Option Status)) :
    (awaited timeout interval results).2.polls ≤ timeout / interval + 1
      ∧ (awaited timeout interval results).2.slept ≤ timeout := by
  have hslept : ∀ n ≤ timeout / interval, n * interval ≤ timeout := fun n hn =>
    Nat.le_trans (Nat.mul_le_mul_right interval hn) (Nat.div_mul_le_self timeout interval)
  rcases inVain_or_first results (timeout / interval) with hall | ⟨n, hn, hends, hbefore⟩
  · rw [awaited_overdue hpos hall]
    exact ⟨le_rfl, hslept _ le_rfl⟩
  · rcases not_inVain_iff.1 hends with ⟨s, hs, htype⟩ | ⟨e, he⟩
    · rw [awaited_available hpos hn hbefore hs htype]
      exact ⟨Nat.succ_le_succ hn, hslept n hn⟩
    · rw [awaited_failed hpos hn hbefore he]
      exact ⟨Nat.succ_le_succ hn, hslept n hn⟩

/-- A wait ends after so many polls and so much rest as fit into its time, whatever the polls find. It ends with the
first of these polls that finds the status available or fails, and if there is none it is overdue after all of
them. -/
theorem poll_decides (timeout : Nat) (hpos : 0 < interval) (results : Nat → Except Error (Option Status)) :
    (awaited timeout interval results).2.polls ≤ timeout / interval + 1
      ∧ (awaited timeout interval results).2.slept ≤ timeout
      ∧ (∀ n ≤ timeout / interval, (∀ k < n, InVain (results k)) →
        (∀ s, results n = .ok (some s) → s.type = .available →
          awaited timeout interval results = (.ok s, ⟨n + 1, n * interval⟩))
        ∧ ∀ e, results n = .error e → awaited timeout interval results = (.error e, ⟨n + 1, n * interval⟩))
      ∧ ((∀ k ≤ timeout / interval, InVain (results k)) → awaited timeout interval results
        = (.error (overdue timeout), ⟨timeout / interval + 1, timeout / interval * interval⟩)) := by
  obtain ⟨hpolls, hslept⟩ := awaited_bounded hpos results
  refine ⟨hpolls, hslept, fun n hn hbefore => ⟨fun s hs htype => ?_, fun e he => ?_⟩, fun hall => ?_⟩
  · exact awaited_available hpos hn hbefore hs htype
  · exact awaited_failed hpos hn hbefore he
  · exact awaited_overdue hpos hall

namespace Rollout

def serving : Status := .available default "" "ok"

/-- There is no status at first, then the rollout goes on, and at the sixth poll it is over. -/
def slow (n : Nat) : Except Error (Option Status) :=
  if n = 0 then .ok none else if n < 5 then .ok (some (.progressing default "" "rolling")) else .ok (some serving)

/-- The third poll fails. -/
def broken (n : Nat) : Except Error (Option Status) := if n = 2 then .error .serialization else .ok none

theorem slow_inVain {n : Nat} (hn : n < 5) : InVain (slow n) := by
  by_cases hzero : n = 0
  · exact ⟨none, if_pos hzero, fun _ h => nomatch h⟩
  · refine ⟨some (.progressing default "" "rolling"), ?_, by rintro _ ⟨rfl⟩; decide⟩
    rw [slow, if_neg hzero, if_pos hn]

theorem broken_inVain {n : Nat} (hn : n < 2) : InVain (broken n) := by
  unfold broken
  rw [if_neg (by omega)]
  exact ⟨none, rfl, fun _ h => nomatch h⟩

/-- The sixth poll is just in time after fifty milliseconds, and a millisecond less is too short for it. -/
theorem sixth_poll_in_time :
    0 < 10 ∧ awaited 50 10 slow = (.ok serving, ⟨6, 50⟩) ∧ awaited 50 10 broken = (.error .serialization, ⟨3, 20⟩)
      ∧ awaited 49 10 slow = (.error (.timeout "0s"), ⟨5, 40⟩) := by
  have hpos : 0 < 10 := by decide
  obtain ⟨-, -, hends, -⟩ := poll_decides 50 hpos slow
  obtain ⟨-, -, hfails, -⟩ := poll_decides 50 hpos broken
  obtain ⟨-, -, -, hoverdue⟩ := poll_decides 49 hpos slow
  refine ⟨hpos, ?_, ?_, ?_⟩
  · exact (hends 5 (by decide) fun k hk => slow_inVain hk).1 serving rfl rfl
  · exact (hfails 2 (by decide) fun k hk => broken_inVain hk).2 .serialization rfl
  · exact hoverdue fun k hk => slow_inVain (by omega)

end Rollout

end Addons.Await
