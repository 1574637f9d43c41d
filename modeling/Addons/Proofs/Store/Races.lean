import Addons.Proofs.Object.Ordered
import Addons.Proofs.Store.Turns
import Addons.Proofs.Store.Upserts

/-!
# Writers that race

Any number of clients write the same object, or ensure the same namespace, and their requests interleave. None
of them ends in anything but success or a conflict, and what was missing is created once
(`Crowd.idempotent_together`). An object that was missing at the start is created as it is desired, so that whoever
meets it has nothing to change. One that was there is replaced once at most, since it is applied then, and who
comes too late with its old version knows that another writer has succeeded (`Session.Writing`).
-/

namespace Addons

/-! ## What the store answers -/

namespace Memory

variable {m : Memory} {k : Key} {o live : Object}

theorem create_absent (hk : o.key = .ok k) (hhealthy : m.Healthy) (hnone : m.object? k = none) :
    ∃ stored, (m.create o).1 = .ok stored ∧ stored.unstamped = o.unstamped
      ∧ (m.create o).2.object? k = some stored := by
  obtain ⟨stored, hok⟩ := Session.ends_createNew hk (hhealthy.not_mem _) hnone { memory := m }
  have hok : (m.create o).1 = .ok stored := hok
  obtain ⟨-, e, he⟩ | ⟨k', stored', hk', -, hstamped, hobjects, hok'⟩ := Answered.create_served m o
  · cases hok.symm.trans he
  · obtain rfl := Except.ok.inj (hk.symm.trans hk')
    exact ⟨stored', hok', hstamped.unstamped, object?_of_insert hobjects⟩

theorem create_taken (hk : o.key = .ok k) (hhealthy : m.Healthy) (hsome : m.object? k ≠ none) :
    (m.create o).1 = .error (.alreadyExists k.display) ∧ (m.create o).2.object? k = m.object? k := by
  have herr : (m.create o).1 = .error (.alreadyExists k.display) :=
    Session.ends_createNew_exists hk (hhealthy.not_mem _) hsome { memory := m }
  obtain ⟨hobjects, -⟩ | ⟨_, _, -, -, -, -, hok⟩ := Answered.create_served m o
  · exact ⟨herr, object?_congr hobjects k⟩
  · cases hok.symm.trans herr

/-- An update replaces the object that its version names, and is a conflict where there is another one. -/
theorem update_cases {version : String} (hk : o.key = .ok k) (hhealthy : m.Healthy)
    (hlive : m.object? k = some live) (hversion : o.metadata.resourceVersion = some version) :
    (∃ stored, (m.update o).1 = .ok stored ∧ stored.unstamped = o.unstamped
        ∧ (m.update o).2.object? k = some stored)
      ∨ live.metadata.resourceVersion ≠ some version
        ∧ (∃ message, (m.update o).1 = .error (.conflict k.display message))
        ∧ (m.update o).2.object? k = some live := by
  obtain ⟨hobjects, e, he⟩ | ⟨k', live', stored, hk', -, -, hstamped, hobjects, hok⟩ :=
    Answered.update_served m o
  · have hne : live.metadata.resourceVersion ≠ some version := fun hsame => by
      obtain ⟨stored, hok⟩ :=
        Session.ends_replace hk (hhealthy.not_mem _) hlive hsame hversion { memory := m }
      cases he.symm.trans hok
    have hstale := Session.ends_replace_stale hk (hhealthy.not_mem _) hlive hversion hne { memory := m }
    exact .inr ⟨hne, ⟨_, hstale⟩, (object?_congr hobjects k).trans hlive⟩
  · obtain rfl := Except.ok.inj (hk.symm.trans hk')
    exact .inl ⟨stored, hok, hstamped.unstamped, object?_of_insert hobjects⟩

end Memory

namespace Session

variable {β : Type} {h : Host} {k : Key} {o : Object}

theorem turn_find? {f : Option Object → Session β} (hm : (.get, k.type.kind) ∉ h.memory.failures) :
    (find? k >>= f).turn h = (f (h.memory.object? k), { h with memory := h.memory.looked 1 0 }) := by
  have hlive : ({ h.memory with counts := h.memory.counts.count .get } : Memory).object? k
      = h.memory.object? k := rfl
  simp only [find?, Bind.bind, bind, andThen, turn, Memory.get, Memory.request_eq hm, hlive]
  cases h.memory.object? k <;> rfl

theorem turn_require {f : Object → Session β} (hm : (.get, k.type.kind) ∉ h.memory.failures)
    (ho : h.memory.object? k = some o) :
    (require k >>= f).turn h = (f o, { h with memory := h.memory.looked 1 0 }) := by
  have hlive : ({ h.memory with counts := h.memory.counts.count .get } : Memory).object? k = some o := ho
  simp only [require, Bind.bind, bind, andThen, turn, Memory.get, Memory.request_eq hm, hlive]
  rfl

theorem turn_replace {f : Object → Session β} : (replace o >>= f).turn h
    = (done (h.memory.update o).1 >>= f, { h with memory := (h.memory.update o).2 }) := rfl

/-- The turn of a client that creates what was not there at the start, unless another one has. -/
theorem leads_createNew {R : Race β} {won : Prop} {left : Nat} {f : Except Error Object → Session β}
    (hk : o.key = .ok R.key) (hhealthy : h.memory.Healthy) (habsent : R.absent)
    (hcreated : ∀ stored, stored.unstamped = o.unstamped → R.Good stored
      ∧ f (.ok stored) = done (.ok R.first) ∧ R.Stage (some stored) won 0 (done (.ok R.first)))
    (hmet : h.memory.object? R.key ≠ none → f (.error (.alreadyExists R.key.display)) ≠ done (.ok R.first)
      ∧ ∃ left' ≤ left - 1,
        R.Stage (h.memory.object? R.key) won left' (f (.error (.alreadyExists R.key.display)))) :
    R.Leads h won left ((createNew o).attempt >>= f) := by
  have hturn : ((createNew o).attempt >>= f).turn h
      = (f (h.memory.create o).1, { h with memory := (h.memory.create o).2 }) := rfl
  by_cases hnone : h.memory.object? R.key = none
  · obtain ⟨stored, hok, hunstamped, hstored⟩ := Memory.create_absent hk hhealthy hnone
    obtain ⟨hgood, hdone, hstage⟩ := hcreated stored hunstamped
    rw [hok, hdone] at hturn
    exact .of_write hturn hstored hgood (iff_of_true rfl habsent) (fun _ => hnone) hstage
  · obtain ⟨herr, hsame⟩ := Memory.create_taken hk hhealthy hnone
    obtain ⟨hne, hstage⟩ := hmet hnone
    rw [herr] at hturn
    exact .of_look hturn hsame (fun h => nomatch h) hne hstage

/-! ## Idempotent writes -/

/-- What a writer does once it has found no object. -/
def createOrMeet (desired : Object) (k : Key) : Session ApplyOutcome := do
  match ← (createNew desired).attempt with
  | .ok _ => return .created
  | .error e => if e.isAlreadyExists then do updateUnlessApplied desired (← require k) else throw e

variable {desired existing : Object} {name : String} {absent : Prop}

theorem createOrUpdate_eq (hk : desired.key = .ok k) : createOrUpdate desired = (do
    match ← find? k with
    | some existing => updateUnlessApplied desired existing
    | none => createOrMeet desired k) := by
  unfold createOrUpdate
  rw [hk]
  rfl

theorem updateUnlessApplied_of_applied (h : desired.isApplied existing) :
    updateUnlessApplied desired existing = done (.ok .unchanged) := if_pos h

variable (desired k absent) in
/-- How far a writer has come. -/
inductive Writing (live? : Option Object) (won : Prop) : Nat → Session ApplyOutcome → Prop
  | begins : Writing live? won 3 (createOrUpdate desired)
  /-- It has found no object. -/
  | creates : absent → Writing live? won 2 (createOrMeet desired k)
  /-- It has met an object when it was about to create one. -/
  | meets : absent → live? ≠ none → Writing live? won 1 (do updateUnlessApplied desired (← require k))
  /-- It has read an object that it is about to replace; this one is still there unless another writer has
  succeeded. -/
  | replaces {old : Object} {version : String} : ¬absent → ¬desired.isApplied old →
      old.metadata.resourceVersion = some version → live? = some old ∨ won →
      Writing live? won 1 (updateUnlessApplied desired old)
  | succeeds {live : Object} {a : ApplyOutcome} : live? = some live → desired.isApplied live →
      Writing live? won 0 (done (.ok a))
  | conflicts {message : String} : ¬absent → won →
      Writing live? won 0 (done (.error (.conflict k.display message)))

variable (desired k absent) in
def writing : Race ApplyOutcome where
  key := k
  first := .created
  absent := absent
  Good o := desired.isApplied o
  Stage := Writing k desired absent

theorem Writing.kept {live? live?' : Option Object} {won won' : Prop} {left : Nat} {s : Session ApplyOutcome}
    (h : Writing k desired absent live? won left s) (hwon : won → won')
    (hlive : live?' = live? ∨ ∃ o, live?' = some o ∧ desired.isApplied o ∧ won') :
    Writing k desired absent live?' won' left s := by
  cases h with
  | begins => exact .begins
  | creates habsent => exact .creates habsent
  | meets habsent hthere =>
    refine .meets habsent ?_
    obtain rfl | ⟨o, rfl, -⟩ := hlive
    · exact hthere
    · exact Option.some_ne_none o
  | replaces hpresent hold hversion hsame =>
    refine .replaces hpresent hold hversion ?_
    obtain rfl | ⟨o, -, -, hwon'⟩ := hlive
    · exact hsame.imp_right hwon
    · exact .inr hwon'
  | succeeds hthere happlied =>
    obtain rfl | ⟨o, rfl, happlied', -⟩ := hlive
    · exact .succeeds hthere happlied
    · exact .succeeds rfl happlied'
  | conflicts hpresent hbefore => exact .conflicts hpresent (hwon hbefore)

theorem updateUnlessApplied_ne : updateUnlessApplied desired existing ≠ done (.ok .created) := by
  unfold updateUnlessApplied
  split <;> exact fun h => nomatch h

section Turn

variable {won : Prop}

/-- A writer that has found an object is at its end, or about to replace it. -/
theorem writing_found (hm : h.memory.Filed) (hh : (writing k desired absent).Holds (h.memory.object? k))
    (hexisting : h.memory.object? k = some existing) : ∃ left ≤ 1,
      Writing k desired absent (h.memory.object? k) won left (updateUnlessApplied desired existing) := by
  by_cases happlied : desired.isApplied existing
  · rw [updateUnlessApplied_of_applied happlied]
    exact ⟨0, Nat.zero_le 1, .succeeds hexisting happlied⟩
  · obtain ⟨n, -, hversion⟩ := hm.version_of_find? hexisting
    have hpresent : ¬absent := fun habsent => happlied (hh.good habsent existing hexisting)
    exact ⟨1, le_rfl, .replaces hpresent happlied hversion (.inl hexisting)⟩

theorem leads_begins (hk : desired.key = .ok k) (hm : h.memory.Filed) (hhealthy : h.memory.Healthy)
    (hh : (writing k desired absent).Holds (h.memory.object? k)) :
    (writing k desired absent).Leads h won 3 (createOrUpdate desired) := by
  rw [createOrUpdate_eq hk]
  refine .of_look (turn_find? (hhealthy.not_mem _)) rfl (fun h => nomatch h) ?_ ?_
  · cases h.memory.object? k with
    | none => exact fun h => nomatch h
    | some existing => exact updateUnlessApplied_ne
  · cases hexisting : h.memory.object? k with
    | none =>
      exact ⟨2, le_rfl, .creates (by_contra fun hpresent => hh.there hpresent hexisting)⟩
    | some existing =>
      obtain ⟨left, hleft, hstage⟩ := writing_found hm hh hexisting
      exact ⟨left, hleft.trans (Nat.le_succ 1), hstage⟩

theorem leads_creates (hk : desired.key = .ok k) (ho : desired.Ordered) (hhealthy : h.memory.Healthy)
    (habsent : absent) : (writing k desired absent).Leads h won 2 (createOrMeet desired k) := by
  unfold createOrMeet
  refine leads_createNew hk hhealthy habsent (fun stored hunstamped => ?_) fun hthere =>
    ⟨(fun h => nomatch h), 1, le_rfl, .meets habsent hthere⟩
  have happlied : desired.isApplied stored :=
    (Object.isApplied_congr hunstamped).trans (Object.isApplied_self ho)
  exact ⟨happlied, rfl, .succeeds rfl happlied⟩

theorem leads_meets (hhealthy : h.memory.Healthy)
    (hh : (writing k desired absent).Holds (h.memory.object? k)) (habsent : absent)
    (hthere : h.memory.object? k ≠ none) :
    (writing k desired absent).Leads h won 1 (do updateUnlessApplied desired (← require k)) := by
  obtain ⟨existing, hexisting⟩ := Option.ne_none_iff_exists'.1 hthere
  have happlied : desired.isApplied existing := hh.good habsent existing hexisting
  refine .of_look (turn_require (hhealthy.not_mem _) hexisting) rfl (fun h => nomatch h)
    updateUnlessApplied_ne ?_
  rw [updateUnlessApplied_of_applied happlied]
  exact ⟨0, le_rfl, .succeeds hexisting happlied⟩

theorem leads_replaces (hk : desired.key = .ok k) (ho : desired.Ordered) (hhealthy : h.memory.Healthy)
    (hh : (writing k desired absent).Holds (h.memory.object? k)) {old : Object} {version : String}
    (hpresent : ¬absent) (hold : ¬desired.isApplied old)
    (hversion : old.metadata.resourceVersion = some version) (hsame : h.memory.object? k = some old ∨ won) :
    (writing k desired absent).Leads h won 1 (updateUnlessApplied desired old) := by
  obtain ⟨live, hlive⟩ := Option.ne_none_iff_exists'.1 (hh.there hpresent)
  have hturn : (updateUnlessApplied desired old).turn h
      = ((do let _ ← done (h.memory.update (desired.adopt old)).1; return .updated),
        { h with memory := (h.memory.update (desired.adopt old)).2 }) := by
    unfold updateUnlessApplied
    rw [if_neg hold, turn_replace]
  obtain ⟨stored, hok, hunstamped, hstored⟩ | ⟨hne, ⟨message, herr⟩, hkept⟩ :=
    Memory.update_cases (o := desired.adopt old) hk hhealthy hlive hversion
  · have happlied : desired.isApplied stored :=
      (Object.isApplied_congr hunstamped).trans (Object.isApplied_adopt ho old)
    rw [hok] at hturn
    exact .of_write hturn hstored happlied (iff_of_false (fun h => nomatch h) hpresent)
      (fun habsent => absurd habsent hpresent) (.succeeds rfl happlied)
  · have hwon : won := hsame.resolve_left fun hsome => by
      obtain rfl := Option.some.inj (hlive.symm.trans hsome)
      exact hne hversion
    rw [herr] at hturn
    exact .of_look hturn (hkept.trans hlive.symm) updateUnlessApplied_ne (fun h => nomatch h)
      ⟨0, le_rfl, .conflicts hpresent hwon⟩

theorem fair_writing (hk : desired.key = .ok k) (ho : desired.Ordered) : (writing k desired absent).Fair where
  kept := Writing.kept
  ended hs := by
    cases hs with
    | succeeds => exact ⟨_, rfl⟩
    | conflicts => exact ⟨_, rfl⟩
  turn := by
    intro h won left s hm hhealthy hh hs
    cases hs with
    | begins => exact leads_begins hk hm hhealthy hh
    | creates habsent => exact leads_creates hk ho hhealthy habsent
    | meets habsent hthere => exact leads_meets hhealthy hh habsent hthere
    | replaces hpresent hold hversion hsame =>
      exact leads_replaces hk ho hhealthy hh hpresent hold hversion hsame
    | succeeds hthere happlied => exact .of_done (.succeeds hthere happlied)
    | conflicts hpresent hwon => exact .of_done (.conflicts hpresent hwon)

end Turn

/-- A writer that is at its end has succeeded, or met another version than it had read. -/
theorem Writing.of_done {live? : Option Object} {won : Prop} {left : Nat} {r : Except Error ApplyOutcome}
    (hk : desired.key = .ok k) (h : Writing k desired absent live? won left (done r)) :
    (∃ live a, r = .ok a ∧ live? = some live ∧ desired.isApplied live)
      ∨ ¬absent ∧ won ∧ ∃ message, r = .error (.conflict k.display message) := by
  generalize hs : done r = s at h
  cases h with
  | begins =>
    rw [createOrUpdate_eq hk] at hs
    cases hs
  | creates => cases hs
  | meets => cases hs
  | @replaces old version hpresent hold =>
    unfold updateUnlessApplied at hs
    rw [if_neg hold] at hs
    cases hs
  | @succeeds live a hthere happlied =>
    cases hs
    exact .inl ⟨live, a, rfl, hthere, happlied⟩
  | conflicts hpresent hwon =>
    cases hs
    exact .inr ⟨hpresent, hwon, _, rfl⟩

/-! ## Namespaces -/

/-- What is done for a namespace once it was not found. -/
def createOrSkip (name : String) : Session Bool := do
  match ← (createNew (namespaceObject name)).attempt with
  | .ok _ => return true
  | .error e => if e.isAlreadyExists then return false else throw e

theorem ensureNamespace_eq (name : String) : ensureNamespace name = (do
    match ← find? (namespaceKey name) with
    | some _ => return false
    | none => createOrSkip name) := rfl

variable (name absent) in
/-- How far a client has come that ensures a namespace. -/
inductive Ensuring (live? : Option Object) : Nat → Session Bool → Prop
  | begins : Ensuring live? 2 (ensureNamespace name)
  /-- It has not found the namespace. -/
  | creates : absent → Ensuring live? 1 (createOrSkip name)
  | ends {created : Bool} : live? ≠ none → Ensuring live? 0 (done (.ok created))

variable (name absent) in
def ensuring : Race Bool where
  key := namespaceKey name
  first := true
  absent := absent
  Good _ := True
  Stage live? _ := Ensuring name absent live?

theorem leads_ensure {won : Prop} (hhealthy : h.memory.Healthy)
    (hh : (ensuring name absent).Holds (h.memory.object? (namespaceKey name))) :
    (ensuring name absent).Leads h won 2 (ensureNamespace name) := by
  rw [ensureNamespace_eq]
  refine .of_look (turn_find? (hhealthy.not_mem _)) rfl (fun h => nomatch h) ?_ ?_
  · cases h.memory.object? (namespaceKey name) with
    | none => exact fun h => nomatch h
    | some existing => exact fun h => nomatch h
  · cases hexisting : h.memory.object? (namespaceKey name) with
    | none => exact ⟨1, le_rfl, .creates (by_contra fun hpresent => hh.there hpresent hexisting)⟩
    | some existing => exact ⟨0, Nat.zero_le _, .ends (hexisting ▸ Option.some_ne_none existing)⟩

theorem leads_createOrSkip {won : Prop} (hhealthy : h.memory.Healthy) (habsent : absent) :
    (ensuring name absent).Leads h won 1 (createOrSkip name) := by
  unfold createOrSkip
  exact leads_createNew rfl hhealthy habsent
    (fun stored _ => ⟨trivial, rfl, .ends (Option.some_ne_none stored)⟩)
    fun hthere => ⟨(fun h => nomatch h), 0, le_rfl, .ends hthere⟩

theorem fair_ensuring : (ensuring name absent).Fair where
  kept := by
    intro live? live?' won won' left s hs _ hlive
    cases hs with
    | begins => exact .begins
    | creates habsent => exact .creates habsent
    | ends hthere =>
      refine .ends ?_
      obtain rfl | ⟨o, rfl, -⟩ := hlive
      · exact hthere
      · exact Option.some_ne_none o
  ended hs := by
    cases hs with
    | ends => exact ⟨_, rfl⟩
  turn := by
    intro h won left s _ hhealthy hh hs
    cases hs with
    | begins => exact leads_ensure hhealthy hh
    | creates habsent => exact leads_createOrSkip hhealthy habsent
    | ends hthere => exact .of_done (.ends hthere)

theorem Ensuring.of_done {live? : Option Object} {left : Nat} {r : Except Error Bool}
    (h : Ensuring name absent live? left (done r)) : live? ≠ none ∧ ∃ created, r = .ok created := by
  generalize hs : done r = s at h
  cases h with
  | begins => cases hs
  | creates => cases hs
  | ends hthere =>
    cases hs
    exact ⟨hthere, _, rfl⟩

end Session

/-! ## How the races end -/

namespace Crowd

open Session (createOrUpdate ensureNamespace namespaceKey)

variable {n : Nat} {h : Host} {desired : Object} {k : Key} {name : String}

/-- What comes of clients that write the same object. -/
structure Written (h : Host) (desired : Object) (k : Key) (turns : List (Fin n)) (c : Crowd n ApplyOutcome) :
    Prop where
  ended : ∀ i, 3 ≤ turns.count i → ∃ r, c.Ended i r
  outcome : ∀ i r, c.Ended i r → (∃ a, r = .ok a) ∨ ∃ message, r = .error (.conflict k.display message)
  won : c.AllEnded → c.Won
  applied : c.AllEnded → ∃ live, c.host.memory.object? k = some live ∧ desired.isApplied live
  created : c.AllEnded → h.memory.object? k = none →
    (∃! i, c.Ended i (.ok .created)) ∧ ∀ i, ∃ a, c.Ended i (.ok a)

/-- What comes of clients that ensure the same namespace. -/
structure Ensured (h : Host) (name : String) (turns : List (Fin n)) (c : Crowd n Bool) : Prop where
  ended : ∀ i, 2 ≤ turns.count i → ∃ r, c.Ended i r
  outcome : ∀ i r, c.Ended i r → ∃ created, r = .ok created
  created : c.AllEnded → h.memory.object? (namespaceKey name) = none → ∃! i, c.Ended i (.ok true)
  found : h.memory.object? (namespaceKey name) ≠ none → ∀ i, ¬c.Ended i (.ok true)

theorem written (hn : 0 < n) (hm : h.memory.Filed) (hhealthy : h.memory.Healthy) (hk : desired.key = .ok k)
    (ho : desired.Ordered) (turns : List (Fin n)) :
    Written h desired k turns ((start n (createOrUpdate desired) h).play turns) := by
  have hs : createOrUpdate desired ≠ .done (.ok .created) := by
    rw [Session.createOrUpdate_eq hk]
    exact fun h => nomatch h
  have hfair : (Session.writing k desired (h.memory.object? k = none)).Fair := Session.fair_writing hk ho
  have hstanding := hfair.standing hm hhealthy Iff.rfl (fun _ => .begins) hs turns
  generalize (start n (createOrUpdate desired) h).play turns = c at hstanding
  have hdone : ∀ i r, c.Ended i r → (∃ live a, r = .ok a ∧ c.host.memory.object? k = some live
      ∧ desired.isApplied live) ∨ h.memory.object? k ≠ none ∧ c.Won
        ∧ ∃ message, r = .error (.conflict k.display message) := fun i r hr => by
    obtain ⟨left, -, hstage⟩ := hstanding.stage i
    rw [show c.clients i = .done r from hr] at hstage
    exact Session.Writing.of_done hk hstage
  have happlied : c.Won → ∃ live, c.host.memory.object? k = some live ∧ desired.isApplied live := by
    rintro ⟨i, a, hi⟩
    obtain ⟨live, -, -, hlive, happlied⟩ | ⟨-, -, _, herr⟩ := hdone i _ hi
    · exact ⟨live, hlive, happlied⟩
    · cases herr
  have hwon : c.AllEnded → c.Won := fun hall => by
    obtain ⟨r, hr⟩ := hall ⟨0, hn⟩
    obtain ⟨-, a, rfl, -, -⟩ | ⟨-, hwon, -⟩ := hdone _ r hr
    · exact ⟨_, a, hr⟩
    · exact hwon
  refine ⟨fun i => hstanding.ended hfair, fun i r hr => ?_, hwon, fun hall => happlied (hwon hall),
    fun hall habsent => ⟨?_, fun i => ?_⟩⟩
  · obtain ⟨-, a, hok, -, -⟩ | ⟨-, -, herr⟩ := hdone i r hr
    · exact .inl ⟨a, hok⟩
    · exact .inr herr
  · obtain ⟨live, hlive, -⟩ := happlied (hwon hall)
    exact hstanding.one_creates habsent (Option.ne_none_iff_exists'.2 ⟨live, hlive⟩)
  · obtain ⟨r, hr⟩ := hall i
    obtain ⟨-, a, rfl, -, -⟩ | ⟨hpresent, -, -⟩ := hdone i r hr
    · exact ⟨a, hr⟩
    · exact absurd habsent hpresent

theorem ensured (hn : 0 < n) (hm : h.memory.Filed) (hhealthy : h.memory.Healthy) (name : String)
    (turns : List (Fin n)) : Ensured h name turns ((start n (ensureNamespace name) h).play turns) := by
  have hfair : (Session.ensuring name (h.memory.object? (namespaceKey name) = none)).Fair :=
    Session.fair_ensuring
  have hstanding := hfair.standing hm hhealthy Iff.rfl (fun _ => .begins) (fun h => nomatch h) turns
  generalize (start n (ensureNamespace name) h).play turns = c at hstanding
  have hdone : ∀ i r, c.Ended i r →
      c.host.memory.object? (namespaceKey name) ≠ none ∧ ∃ created, r = .ok created := by
    intro i r hr
    obtain ⟨left, -, hstage⟩ := hstanding.stage i
    rw [show c.clients i = .done r from hr] at hstage
    exact Session.Ensuring.of_done hstage
  refine ⟨fun i => hstanding.ended hfair, fun i r hr => (hdone i r hr).2, fun hall habsent => ?_,
    fun hpresent i hi => hpresent (hstanding.created.1 ⟨i, hi⟩).1⟩
  obtain ⟨r, hr⟩ := hall ⟨0, hn⟩
  exact hstanding.one_creates habsent (hdone _ r hr).1

/-- A client at its end is not moved by any turns. -/
theorem play_done {α : Type} (r : Except Error α) (turns : List (Fin n)) :
    (start n (.done r) h).play turns = start n (.done r) h := by
  induction turns with
  | nil => rfl
  | cons i turns ih =>
    have hstep : (start n (.done r) h).step i = start n (.done r) h :=
      congrArg (Crowd.mk · h) (Function.update_eq_self i _)
    unfold play at ih ⊢
    rw [List.foldl_cons, hstep, ih]

/-- An object without an identity is refused to every client before it asks the store for anything. -/
theorem refused {e : Error} (he : desired.key = .error e) (turns : List (Fin n)) :
    (∃ message, e = .invalidObject message)
      ∧ (start n (createOrUpdate desired) h).play turns = start n (.done (.error e)) h := by
  constructor
  · unfold Object.key at he
    split at he
    · exact ⟨_, (Except.error.inj he).symm⟩
    · split at he
      · exact ⟨_, (Except.error.inj he).symm⟩
      · cases he
  · have hs : createOrUpdate desired = .done (.error e) := by
      unfold createOrUpdate
      rw [he]
      rfl
    rw [hs, play_done]

/-- Clients that write the same object, or ensure the same namespace, take turns in any order, and no
request is to fail. A writer needs three turns at most, and ends well or with a conflict; when all have
ended one has ended well, and the object is applied; where it was not there before, exactly one has created
it and all have ended well. A client that ensures a namespace needs two turns at most and ends well, and
exactly one has created it where it was not there. -/
theorem idempotent_together (hn : 0 < n) (hm : h.memory.Filed) (hhealthy : h.memory.Healthy)
    (turns : List (Fin n)) :
    (∀ desired k, desired.key = .ok k → desired.Ordered →
        Written h desired k turns ((start n (createOrUpdate desired) h).play turns))
      ∧ (∀ desired e, desired.key = .error e → (∃ message, e = .invalidObject message)
        ∧ (start n (createOrUpdate desired) h).play turns = start n (.done (.error e)) h)
      ∧ ∀ name, Ensured h name turns ((start n (ensureNamespace name) h).play turns) :=
  ⟨fun _ _ hk ho => written hn hm hhealthy hk ho turns, fun _ _ he => refused he turns,
    fun name => ensured hn hm hhealthy name turns⟩

namespace Pair

def vacant : Host := { memory := { now := default } }

def cfg : Object :=
  { type := some ⟨"v1", "ConfigMap"⟩, metadata := { name := some "cfg", labels := some [("app", "web")] }
    data := [("data", .obj [("level", .str "one")])] }

theorem cfg_ordered : cfg.Ordered := by
  refine ⟨⟨List.pairwise_singleton _ _, ⟨List.pairwise_singleton _ _, trivial, trivial⟩, trivial⟩, ?_, ?_⟩
  · rintro t ⟨rfl⟩
    exact List.pairwise_singleton _ _
  · exact fun t h => nomatch h

/-- Both clients look before either creates anything. -/
def turns : List (Fin 2) := [0, 1, 0, 1, 1, 0]

/-- One of two clients creates the object, and the other one finds it applied. -/
theorem one_of_two_creates :
    (∃! i, ((start 2 (createOrUpdate cfg) vacant).play turns).Ended i (.ok .created))
      ∧ (∀ i, ∃ a, ((start 2 (createOrUpdate cfg) vacant).play turns).Ended i (.ok a))
      ∧ (∃ live, ((start 2 (createOrUpdate cfg) vacant).play turns).host.memory.object?
        ⟨⟨"v1", "ConfigMap"⟩, none, "cfg"⟩ = some live ∧ cfg.isApplied live)
      ∧ ∃! i, ((start 2 (ensureNamespace "web") vacant).play turns).Ended i (.ok true) := by
  obtain ⟨hwritten, -, hensured⟩ := idempotent_together Nat.two_pos (h := vacant) (.of_nil rfl) rfl turns
  have hwritten := hwritten cfg _ rfl cfg_ordered
  have hensured := hensured "web"
  have hcount : ∀ i : Fin 2, 3 ≤ turns.count i := by decide
  have hall := fun i => hwritten.ended i (hcount i)
  have hall' := fun i => hensured.ended i (Nat.le_of_lt (hcount i))
  obtain ⟨hone, hok⟩ := hwritten.created hall rfl
  exact ⟨hone, hok, hwritten.applied hall, hensured.created hall' rfl⟩

def nameless : Object := { type := some ⟨"v1", "ConfigMap"⟩, metadata := {}, data := [] }

/-- A client that writes an object without a name ends neither well nor with a conflict. -/
theorem nameless_neither_written_nor_conflict :
    ∃ e : Error,
      (∀ turns : List (Fin 1), ((start 1 (createOrUpdate nameless) vacant).play turns).Ended 0 (.error e))
        ∧ e.isConflict = false := by
  refine ⟨.invalidObject "ConfigMap has no metadata.name", fun turns => ?_, rfl⟩
  rw [(refused rfl turns).2]
  rfl

end Pair

end Crowd

end Addons
