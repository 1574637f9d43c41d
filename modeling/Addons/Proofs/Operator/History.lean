import Addons.Operator.Controller
import Addons.Proofs.Composite.Isolation
import Addons.Proofs.Operator.Validity
import Addons.Proofs.Resource.Lasting

/-!
# The history of a status

A status is merged into the one that is stored, and it takes over a time from it; a status that says nothing new is
not written at all. Over any sequence of calls, each of which may fail, the stored status comes out as what the last
call said, with the time of the first call of the current run of that type (`Status.standing`,
`Operator.stored_of_history`).

A call counts when it succeeds, and also when its status has reached the store and only the answer is lost: the next
call builds on what is stored, not on what an earlier one was told.
-/

namespace Addons

/-! ## Statuses in a row -/

namespace Status

/-- The first status of the current run of a type; `older` are the statuses before this one, the last first. -/
def firstOfRun (s : Status) (older : List Status) : Status :=
  (older.takeWhile fun p => p.type = s.type).getLastD s

/-- What is shown after some statuses: what the last one says, since the first of its run. -/
def standing (s : Status) (older : List Status) : Status :=
  { s with lastTransitionTime := (s.firstOfRun older).lastTransitionTime }

variable {s next : Status} {older : List Status}

theorem firstOfRun_cons_of_eq (h : s.type = next.type) :
    next.firstOfRun (s :: older) = s.firstOfRun older := by
  unfold firstOfRun
  rw [h, List.takeWhile_cons_of_pos (by simpa using h), List.getLastD_cons]

theorem firstOfRun_cons_of_ne (h : s.type ≠ next.type) : next.firstOfRun (s :: older) = next := by
  unfold firstOfRun
  rw [List.takeWhile_cons_of_neg (by simpa using h)]
  rfl

/-- A new status takes over the time of the one that stands before it. -/
theorem withTransitionFrom_standing (next s : Status) (older : List Status) :
    next.withTransitionFrom (some (s.standing older)) = next.standing (s :: older) := by
  unfold withTransitionFrom standing
  by_cases h : s.type = next.type
  · rw [firstOfRun_cons_of_eq h]
    exact if_pos h
  · rw [firstOfRun_cons_of_ne h]
    exact if_neg h

theorem sameAs_iff :
    s.sameAs next ↔ s.type = next.type ∧ s.reason = next.reason ∧ s.message = next.message := by
  simp [sameAs, and_assoc]

/-- A status that says the same leaves the one before it standing. -/
theorem standing_of_sameAs (h : s.sameAs next) : next.standing (s :: older) = s.standing older := by
  obtain ⟨htype, hreason, hmessage⟩ := sameAs_iff.1 h
  unfold standing
  rw [firstOfRun_cons_of_eq htype, htype, hreason, hmessage]

/-- The status that stands is one of those that came in, in its time. -/
theorem firstOfRun_mem (s : Status) (older : List Status) : s.firstOfRun older ∈ s :: older := by
  unfold firstOfRun
  rw [List.getLastD_eq_getLast?]
  cases hlast : (older.takeWhile fun p => p.type = s.type).getLast? with
  | none => exact List.mem_cons_self
  | some p => exact List.mem_cons_of_mem _ ((List.takeWhile_sublist _).subset (List.mem_of_getLast? hlast))

theorem storable_standing (h : ∀ p ∈ s :: older, p.Storable) : (s.standing older).Storable :=
  show (s.firstOfRun older).Storable from h _ (s.firstOfRun_mem older)

/-- What a status says does not depend on the times. -/
theorem sameAs_withTransitionFrom (s next : Status) (previous : Option Status) :
    s.sameAs (next.withTransitionFrom previous) = s.sameAs next := by
  unfold withTransitionFrom
  split
  · split
    · rfl
    · rfl
  · rfl

/-! ## Merging -/

theorem toJson_eq (s : Status) : s.toJson = .obj [("lastTransitionTime", .str s.lastTransitionTime.textFull),
    ("message", .str s.message), ("reason", .str s.reason), ("type", .str s.type.name)] := by
  simp only [toJson, Json.ofFields, Table.ofList, List.foldl, Table.insert, String.reduceLT, String.reduceEq,
    ↓reduceIte]

/-- Nothing of an earlier status is left when one is merged into it. -/
theorem mergePatch_toJson (s next : Status) : s.toJson.mergePatch next.toJson = next.toJson := by
  simp only [toJson_eq, Json.mergePatch, Json.mergeFields, Json.obj?, Option.getD, Table.insert, String.reduceLT,
    String.reduceEq, ↓reduceIte]

theorem mergePatch_null (next : Status) : Json.null.mergePatch next.toJson = next.toJson := by
  simp only [toJson_eq, Json.mergePatch, Json.mergeFields, Json.obj?, Option.getD, Table.insert, String.reduceLT,
    String.reduceEq, ↓reduceIte]

end Status

/-- What an apply step of a composite comes to. -/
structure Account where
  generation : Int
  components : Nat
  health : Status

namespace Account

/-- The status of a composite with a health. -/
def status (a : Account) (health : Status) : SetStatus :=
  { observedGeneration := some a.generation, components := a.components, status := some health }

/-- What is shown after some accounts: the last one, with its health since the first of its run. -/
def standing (a : Account) (older : List Account) : SetStatus :=
  a.status (a.health.standing (older.map health))

/-- Two accounts say the same, times apart. -/
def SameAs (a b : Account) : Prop :=
  a.health.sameAs b.health ∧ a.generation = b.generation ∧ a.components = b.components

/-- The numbers fit 64 bits, and the time can be written. -/
structure Storable (a : Account) : Prop where
  generation : -2 ^ 63 ≤ a.generation ∧ a.generation < 2 ^ 63
  components : a.components < 2 ^ 64
  health : a.health.Storable

variable {a next : Account} {older : List Account}

theorem storable_standing (h : ∀ p ∈ a :: older, p.Storable) : (a.standing older).Storable := by
  have ha := h a List.mem_cons_self
  refine ⟨?_, ha.components, ?_⟩
  · rintro _ ⟨rfl⟩
    exact ha.generation
  · rintro _ ⟨rfl⟩
    refine Status.storable_standing fun p hp => ?_
    rw [← List.map_cons, List.mem_map] at hp
    obtain ⟨b, hb, rfl⟩ := hp
    exact (h b hb).health

/-- A status of a composite says nothing new exactly if its account is that of the stored one. -/
theorem differsFrom_standing (next : Account) (previous : Option Status) :
    (next.status (next.health.withTransitionFrom previous)).differsFrom (some (a.standing older)) = false
      ↔ a.SameAs next := by
  have hhealth : (a.health.standing (older.map health)).sameAs (next.health.withTransitionFrom previous)
      = a.health.sameAs next.health := Status.sameAs_withTransitionFrom _ next.health previous
  unfold SetStatus.differsFrom standing status SameAs
  simp only [hhealth, Option.some.injEq, Bool.not_eq_false', Bool.and_eq_true, decide_eq_true_eq, and_assoc]

/-- An account that says the same leaves the one before it standing. -/
theorem standing_of_sameAs (h : a.SameAs next) : next.standing (a :: older) = a.standing older := by
  obtain ⟨hhealth, hgeneration, hcomponents⟩ := h
  unfold standing status
  rw [List.map_cons, Status.standing_of_sameAs hhealth, hgeneration, hcomponents]

/-- The health of a new account takes over the time of the one that stands before it. -/
theorem withTransitionFrom_standing (next a : Account) (older : List Account) :
    next.status (next.health.withTransitionFrom (a.standing older).status) = next.standing (a :: older) :=
  congrArg next.status (Status.withTransitionFrom_standing next.health a.health (older.map health))

theorem toJson_eq (a : Account) (health : Status) : (a.status health).toJson
    = .obj [("components", .num (.int a.components)), ("observedGeneration", .num (.int a.generation)),
      ("status", health.toJson)] := by
  simp only [SetStatus.toJson, status, Json.ofFields?, Json.ofFields, Json.ofNat, Json.ofInt, Table.ofList,
    List.filterMap, Option.map, List.foldl, Table.insert, String.reduceLT, String.reduceEq, ↓reduceIte]

theorem mergePatch_toJson (a next : Account) (s t : Status) :
    (a.status s).toJson.mergePatch (next.status t).toJson = (next.status t).toJson := by
  simp only [toJson_eq, Status.toJson_eq, Json.mergePatch, Json.mergeFields, Json.obj?, Option.getD, Table.insert,
    Table.find?, List.lookup_cons, String.reduceLT, String.reduceEq, String.reduceBEq, ↓reduceIte]

theorem mergePatch_null (next : Account) (t : Status) :
    Json.null.mergePatch (next.status t).toJson = (next.status t).toJson := by
  simp only [toJson_eq, Status.toJson_eq, Json.mergePatch, Json.mergeFields, Json.obj?, Option.getD, Table.insert,
    Table.find?, List.lookup_cons, List.lookup_nil, String.reduceLT, String.reduceEq, String.reduceBEq, ↓reduceIte]

end Account

/-! ## Stored statuses -/

namespace Memory

variable {τ : Type} {m m' : Memory} {key : Key} {read : Json → Option τ}

/-- The fields of an object besides its type and its metadata; none if there is no such object. -/
def dataOf (m : Memory) (key : Key) : Json.Fields := ((m.object? key).map Object.data).getD []

/-- The stored status; null if there is none. -/
def statusOf (m : Memory) (key : Key) : Json := (Table.find? (m.dataOf key) "status").getD .null

/-- The stored status as a resource is read. -/
def readStatus (m : Memory) (key : Key) (read : Json → Option τ) : Option (Option τ) :=
  Record.optional? ⟨m.dataOf key, false⟩ "status" read

theorem statusOf_congr (h : m'.object? key = m.object? key) : m'.statusOf key = m.statusOf key := by
  unfold statusOf dataOf
  rw [h]

theorem readStatus_null (h : m.statusOf key = .null) : m.readStatus key read = some none := by
  unfold readStatus Record.optional? Record.field?
  unfold statusOf at h
  cases hfound : Table.find? (m.dataOf key) "status" with
  | none => rfl
  | some j =>
    rw [hfound] at h
    obtain rfl : j = .null := h
    rfl

theorem readStatus_of_read {j : Json} {t : τ} (h : m.statusOf key = j) (hj : j ≠ .null) (hread : read j = some t) :
    m.readStatus key read = some (some t) := by
  unfold readStatus Record.optional? Record.field?
  unfold statusOf at h
  cases hfound : Table.find? (m.dataOf key) "status" with
  | none =>
    rw [hfound] at h
    exact absurd h.symm hj
  | some j' =>
    rw [hfound] at h
    obtain rfl : j' = j := h
    cases j' with
    | null => exact absurd rfl hj
    | bool | num | str | arr | obj =>
      show (read _).map some = _
      rw [hread]
      rfl

/-- A status that the store takes is merged into the stored one. -/
theorem statusOf_mergeStatus {o : Object} (ho : m.object? key = some o) (status : Json) :
    (m.mergeStatus key status).2.statusOf key = (m.statusOf key).mergePatch status := by
  unfold Memory.mergeStatus
  rw [ho]
  have hstatus : m.statusOf key = (Table.find? o.data "status").getD .null := by
    unfold statusOf dataOf
    rw [ho]
    rfl
  rw [hstatus]
  dsimp only [putVersion]
  unfold statusOf dataOf object?
  rw [Table.find?_insert_self]
  exact congrArg (Option.getD · Json.null) (Table.find?_insert_self "status" _ o.data)

end Memory

namespace Operator

open Session (runs_bind runs_lift_bind)

section Publishing

variable {σ τ : Type} {k : ResourceKind σ τ} {key : Key} {m m' : Memory} {es : List Event} {a : Except Error Unit}

/-- A call has come through: it succeeds, or what it has asked for at a key is done and only the answer is lost. -/
def Through (key : Key) (es : List Event) (a : Except Error Unit) : Prop :=
  a = .ok () ∨ ∃ d, some d ∈ es ∧ d.slot = key.slot

theorem not_through {e : Error} (h : ∀ d, some d ∈ es → d.slot ≠ key.slot) : ¬Through key es (.error e) := by
  rintro (he | ⟨d, hd, hslot⟩)
  · cases he
  · exact h d hd hslot

theorem through_deed {left : Option Object} : Through key [some ⟨key.slot, left⟩] a :=
  .inr ⟨_, List.mem_cons_self, rfl⟩

/-- What was done elsewhere before is of no matter. -/
theorem through_append {es' : List Event} (h : ∀ d, some d ∈ es' → d.slot ≠ key.slot) :
    Through key (es' ++ es) a ↔ Through key es a := by
  refine or_congr_right ⟨?_, ?_⟩
  · rintro ⟨d, hd, hslot⟩
    exact ⟨d, (List.mem_append.1 hd).resolve_left fun hd => h d hd hslot, hslot⟩
  · rintro ⟨d, hd, hslot⟩
    exact ⟨d, List.mem_append_right es' hd, hslot⟩

/-- A status that is published is merged into the stored one, or nothing comes of it. -/
theorem runs_publish {status : Json} {manager : Option String}
    (h : (publish k key status manager).Runs m es a m') :
    (¬Through key es a ∧ m' = m)
      ∨ ∃ left, es = [some ⟨key.slot, left⟩] ∧ m'.statusOf key = (m.statusOf key).mergePatch status := by
  obtain ⟨r, granted, m₁, fs, hr, rfl, h⟩ := h
  have hend : fs = [] ∧ m' = m₁ ∧ ∀ e, r = .error e → a = .error e := by
    cases r with
    | error e => exact ⟨h.1, h.2.2, fun _ he => Except.error.inj he ▸ h.2.1⟩
    | ok o =>
      dsimp only at h
      split at h
      · exact ⟨h.1, h.2.2, nofun⟩
      · exact ⟨h.1, h.2.2, nofun⟩
  obtain ⟨rfl, rfl, hfailed⟩ := hend
  have hnot : ∀ e, r = .error e → ¬Through key [none] a := fun e he => by
    rw [hfailed e he]
    exact not_through (by simp)
  cases ho : m.object? key with
  | none =>
    have hmissing : m.mergeStatus key status = (.error (.notFound key.display), m) := by
      unfold Memory.mergeStatus
      rw [ho]
    rw [hmissing] at hr
    cases hr with
    | served | refused | lost => exact .inl ⟨hnot _ rfl, rfl⟩
  | some o =>
    have hmerged := Memory.statusOf_mergeStatus ho status
    have hgranted : (m.mergeStatus key status).1.isOk = true := by
      unfold Memory.mergeStatus
      rw [ho]
      rfl
    generalize m.mergeStatus key status = served at hr hmerged hgranted
    cases hr with
    | refused => exact .inl ⟨hnot _ rfl, rfl⟩
    | served | lost => exact .inr ⟨_, by rw [hgranted]; rfl, hmerged⟩

/-- A status that says what the previous one says is not written. -/
theorem runs_writeStatus_same {k : ResourceKind σ Status} {r : Resource σ Status} {p next : Status}
    (hsame : p.sameAs next) (h : (writeStatus k r (some p) next).Runs m es a m') :
    es = [] ∧ a = .ok () ∧ m' = m := by
  have hnone : statusToWrite (some p) next = .ok none := if_pos hsame
  unfold writeStatus at h
  rw [hnone] at h
  exact h

theorem statusToWrite_new {previous w : Option Status} {next : Status} (hnew : ∀ p ∈ previous, ¬p.sameAs next)
    (h : statusToWrite previous next = .ok w) : w = some (next.withTransitionFrom previous) := by
  have hnot : ¬previous.any fun p => p.sameAs next := by
    intro hany
    cases previous with
    | none => cases hany
    | some p => exact hnew p rfl hany
  unfold statusToWrite at h
  rw [if_neg hnot] at h
  dsimp only at h
  split at h
  · exact (Except.ok.inj h).symm
  · cases h

/-- A status that says something new takes over the time of the previous one and is merged into what is stored. -/
theorem runs_writeStatus_new {k : ResourceKind σ Status} {r : Resource σ Status} {ns : String}
    {previous : Option Status} {next : Status} (hns : r.metadata.ns = some ns)
    (hnew : ∀ p ∈ previous, ¬p.sameAs next) (h : (writeStatus k r previous next).Runs m es a m') :
    (¬Through (k.key ns r.name) es a ∧ m' = m)
      ∨ ∃ left, es = [some ⟨(k.key ns r.name).slot, left⟩]
        ∧ m'.statusOf (k.key ns r.name) = (m.statusOf (k.key ns r.name)).mergePatch
          (next.withTransitionFrom previous).toJson := by
  unfold writeStatus at h
  rcases runs_lift_bind.1 h with ⟨w, hw, h⟩ | ⟨e, -, rfl, rfl, rfl⟩
  swap
  · exact .inl ⟨not_through (by simp), rfl⟩
  obtain rfl := statusToWrite_new hnew hw
  rw [Resource.namespaceOf_eq_ok hns] at h
  obtain ⟨_, ⟨rfl⟩, h⟩ | ⟨_, he, -⟩ := runs_lift_bind.1 h
  swap
  · cases he
  exact runs_publish h

theorem runs_writeSetStatus_same {set : AddonSet} {next : SetStatus} (hsame : next.differsFrom set.status = false)
    (h : (writeSetStatus set next).Runs m es a m') : es = [] ∧ a = .ok () ∧ m' = m := by
  unfold writeSetStatus at h
  rw [hsame] at h
  exact h

theorem runs_writeSetStatus_new {set : AddonSet} {ns : String} {next : SetStatus}
    (hns : set.metadata.ns = some ns) (hnew : next.differsFrom set.status)
    (h : (writeSetStatus set next).Runs m es a m') :
    (¬Through (addonSets.key ns set.name) es a ∧ m' = m)
      ∨ ∃ left, es = [some ⟨(addonSets.key ns set.name).slot, left⟩]
        ∧ m'.statusOf (addonSets.key ns set.name)
          = (m.statusOf (addonSets.key ns set.name)).mergePatch next.toJson := by
  unfold writeSetStatus at h
  rw [if_pos hnew, Resource.namespaceOf_eq_ok hns] at h
  obtain ⟨_, ⟨rfl⟩, h⟩ | ⟨_, he, -⟩ := runs_lift_bind.1 h
  swap
  · cases he
  exact runs_publish h

end Publishing

/-! ## Histories -/

section Histories

variable {τ V : Type}

/-- What came through one call after another, the last first, and the store after them. In between others may do
what they like, but for the status. -/
inductive History (Call : Memory → Option τ → List Event → Except Error Unit → Memory → Prop) (key : Key) :
    List τ → Memory → Prop
  /-- There is no status yet. -/
  | start {m : Memory} : m.Filed → m.statusOf key = .null → History Call key [] m
  | through {past : List τ} {t : τ} {m m' : Memory} {es : List Event} {a : Except Error Unit} :
      History Call key past m → Call m (some t) es a m' → Through key es a → History Call key (t :: past) m'
  | failed {past : List τ} {t : Option τ} {m m' : Memory} {es : List Event} {a : Except Error Unit} :
      History Call key past m → Call m t es a m' → ¬Through key es a → History Call key past m'
  | others {past : List τ} {m m' : Memory} :
      History Call key past m → m'.Filed → m'.statusOf key = m.statusOf key → History Call key past m'

/-- What stands after all that came through. -/
def latest? (standing : τ → List τ → V) : List τ → Option V
  | [] => none
  | t :: older => some (standing t older)

/-- The store has what stands, and nothing else. -/
structure Shows (standing : τ → List τ → V) (write : V → Json) (Fit : τ → Prop) (key : Key)
    (past : List τ) (m : Memory) : Prop where
  filed : m.Filed
  fit : ∀ t ∈ past, Fit t
  stored : m.statusOf key = ((latest? standing past).map write).getD .null

variable {standing : τ → List τ → V} {read : Json → Option V} {write : V → Json} {Fit : τ → Prop}
  {FitV : V → Prop} {key : Key} {past : List τ} {m m' : Memory}
  {Call : Memory → Option τ → List Event → Except Error Unit → Memory → Prop}

theorem Shows.congr (h : Shows standing write Fit key past m) (hm : m'.Filed)
    (hstored : m'.statusOf key = m.statusOf key) : Shows standing write Fit key past m' :=
  ⟨hm, h.fit, hstored.trans h.stored⟩

/-- What stands is what a resource is read with. -/
theorem Shows.readStatus (h : Shows standing write Fit key past m) (hw : Lasting read write FitV)
    (hnull : ∀ v, write v ≠ .null)
    (hfit : ∀ t older, (∀ p ∈ t :: older, Fit p) → FitV (standing t older)) :
    m.readStatus key read = some (latest? standing past) := by
  have hstored := h.stored
  cases past with
  | nil => exact Memory.readStatus_null hstored
  | cons t older => exact Memory.readStatus_of_read hstored (hnull _) (hw.read_write _ (hfit t older h.fit))

/-- What every call keeps up holds after any history. -/
theorem History.shows (h : History Call key past m)
    (hstep : ∀ {past : List τ} {t : Option τ} {m m' : Memory} {es : List Event} {a : Except Error Unit},
      Shows standing write Fit key past m → Call m t es a m' →
        (Through key es a → ∃ next, t = some next ∧ Shows standing write Fit key (next :: past) m')
          ∧ (¬Through key es a → Shows standing write Fit key past m')) :
    Shows standing write Fit key past m := by
  induction h with
  | start hm hnull => exact ⟨hm, nofun, hnull⟩
  | through _ hcall ht ih =>
    obtain ⟨next, hnext, hshows⟩ := (hstep ih hcall).1 ht
    obtain rfl := Option.some.inj hnext
    exact hshows
  | failed _ hcall ht ih => exact (hstep ih hcall).2 ht
  | others _ hm hsame ih => exact ih.congr hm hsame

end Histories

/-! ## Components -/

section Components

variable {σ : Type} {k : ResourceKind σ Status} {ns name : String} {past : List Status} {m m' : Memory}
  {es : List Event} {a : Except Error Unit} {t : Option Status}

/-- A status is published for the component of a name, with the one that is stored as the previous one. -/
inductive Publishes (k : ResourceKind σ Status) (ns name : String) (m : Memory) :
    Option Status → List Event → Except Error Unit → Memory → Prop
  | call {r : Resource σ Status} {previous : Option Status} {next : Status} {es : List Event}
      {a : Except Error Unit} {m' : Memory} :
      r.metadata.ns = some ns → r.name = name → m.readStatus (k.key ns name) Status.ofJson? = some previous →
      next.Storable → (writeStatus k r previous next).Runs m es a m' → Publishes k ns name m (some next) es a m'

/-- The store shows a component's last status, in its time. -/
abbrev ShowsStatus (key : Key) : List Status → Memory → Prop :=
  Shows Status.standing Status.toJson Status.Storable key

theorem ShowsStatus.readStatus {key : Key} (h : ShowsStatus key past m) :
    m.readStatus key Status.ofJson? = some (latest? Status.standing past) :=
  Shows.readStatus h Status.lasting nofun fun _ _ => Status.storable_standing

/-- Nothing but what stands is left when a status is merged in. -/
theorem ShowsStatus.merged {key : Key} {next : Status} (h : ShowsStatus key past m) (hm : m'.Filed)
    (hnext : next.Storable) (hstored : m'.statusOf key
      = (m.statusOf key).mergePatch (next.withTransitionFrom (latest? Status.standing past)).toJson) :
    ShowsStatus key (next :: past) m' := by
  refine ⟨hm, List.forall_mem_cons.2 ⟨hnext, h.fit⟩, ?_⟩
  rw [hstored, h.stored]
  cases past with
  | nil => exact Status.mergePatch_null next
  | cons s older =>
    show (s.standing older).toJson.mergePatch (next.withTransitionFrom (some (s.standing older))).toJson = _
    rw [Status.withTransitionFrom_standing]
    exact Status.mergePatch_toJson _ _

/-- A call keeps up what the store shows. -/
theorem ShowsStatus.publishes (h : ShowsStatus (k.key ns name) past m) (hcall : Publishes k ns name m t es a m') :
    (Through (k.key ns name) es a → ∃ next, t = some next ∧ ShowsStatus (k.key ns name) (next :: past) m')
      ∧ (¬Through (k.key ns name) es a → ShowsStatus (k.key ns name) past m') := by
  obtain ⟨hns, rfl, hread, hnext, hran⟩ := hcall
  rename_i r previous next
  obtain rfl : previous = latest? Status.standing past := Option.some.inj (hread.symm.trans h.readStatus)
  have hfiled := hran.filed h.filed
  by_cases hsame : ∃ p, latest? Status.standing past = some p ∧ p.sameAs next
  · obtain ⟨p, hlatest, hp⟩ := hsame
    rw [hlatest] at hran
    obtain ⟨rfl, rfl, rfl⟩ := runs_writeStatus_same hp hran
    refine ⟨fun _ => ⟨next, rfl, hfiled, List.forall_mem_cons.2 ⟨hnext, h.fit⟩, ?_⟩,
      fun hnot => absurd (.inl rfl) hnot⟩
    cases past with
    | nil => cases hlatest
    | cons s older =>
      obtain rfl := Option.some.inj hlatest
      have hs : s.sameAs next := hp
      rw [h.stored]
      exact congrArg Status.toJson (Status.standing_of_sameAs hs).symm
  · have hnew : ∀ p ∈ latest? Status.standing past, ¬p.sameAs next := fun p hp hps => hsame ⟨p, hp, hps⟩
    obtain ⟨hnot, rfl⟩ | ⟨left, rfl, hmerged⟩ := runs_writeStatus_new hns hnew hran
    · exact ⟨fun ht => absurd ht hnot, fun _ => h⟩
    · exact ⟨fun _ => ⟨next, rfl, h.merged hfiled hnext hmerged⟩, fun hnot => absurd through_deed hnot⟩

/-- What says nothing new is not written. -/
theorem ShowsStatus.silent {s next : Status} {older : List Status} (h : ShowsStatus (k.key ns name) (s :: older) m)
    (hsame : s.sameAs next) (hcall : Publishes k ns name m (some next) es a m') :
    es = [] ∧ a = .ok () ∧ m' = m := by
  obtain ⟨-, rfl, hread, -, hran⟩ := hcall
  rename_i r previous
  obtain rfl : previous = some (s.standing older) := Option.some.inj (hread.symm.trans h.readStatus)
  have hstanding : (s.standing older).sameAs next := hsame
  exact runs_writeStatus_same hstanding hran

end Components

end Operator

/-! ## What an apply step leaves alone -/

namespace Reconcile

variable {π σ : Type} {k : ComponentKind π σ} {owner : Owner} {propagation : Propagation} {m m' : Memory}
  {entries : List (Entry π)} {left : List Object} {kind : String}

/-- A deed is about another kind of objects. -/
def Spares (kind : String) (d : Deed) : Prop := d.slot.kind ≠ kind

/-- Objects of another kind, by their own account. -/
def AllSpare (kind : String) (left : List Object) : Prop :=
  ∀ o ∈ left, ∀ key, o.key = .ok key → key.slot.kind ≠ kind

theorem spares_applyEntries (hspace : "Namespace" ≠ kind) (hk : k.resource.kind ≠ kind) (hm : m.Filed)
    (hleft : AllSpare kind left) :
    (applyEntries k owner propagation left entries).Heeds (fun _ => Spares kind) m := by
  induction entries generalizing left m with
  | nil => exact Session.heeds_done _
  | cons e entries ih =>
    refine Session.Heeds.bind ?_ fun _ r m₁ hentry => ?_
    · refine heeds_applyEntry hm (fun _ _ _ => hspace) (fun _ _ _ => hk) ?_ fun _ _ => hk
      exact fun _ _ o ho key hkey _ _ => hleft o ho key hkey
    · obtain ⟨outcome, left₁⟩ := r
      have hleft₁ : AllSpare kind left₁ := fun o ho => hleft o (left_subset hentry ho)
      exact (ih (hentry.filed hm) hleft₁).bind fun _ _ _ _ => Session.heeds_done _

theorem spares_sweep (hleft : AllSpare kind left) :
    (sweep propagation left).Heeds (fun _ => Spares kind) m := by
  induction left generalizing m with
  | nil => exact Session.heeds_done _
  | cons o left ih =>
    obtain ⟨ho, hleft⟩ := List.forall_mem_cons.1 hleft
    refine Session.heeds_lift_bind fun key hkey => ?_
    refine (Session.heeds_removeIfExists (ho key hkey)).bind fun _ _ _ _ => ?_
    exact (ih hleft).bind fun _ _ _ _ => Session.heeds_done _

/-- A pass over components of one kind is about them and namespaces. -/
theorem spares_pass (hspace : "Namespace" ≠ kind) (hk : k.resource.kind ≠ kind) (hm : m.Filed) :
    (pass k owner entries propagation).Heeds (fun _ => Spares kind) m := by
  unfold pass
  refine (Session.heeds_listAll _ _ _).bind fun _ installed m₁ hlist => ?_
  obtain ⟨-, -, hinstalled⟩ := Session.runs_listAll hlist
  obtain rfl := hinstalled _ rfl
  have hlisted : AllSpare kind (m.listing k.resource.type none (some owner.selector)) := by
    intro o ho key hkey
    obtain ⟨s, hf, hl⟩ := hm.mem_listing.1 ho
    obtain ⟨key', hkey', rfl⟩ := hm.key_of_find? hf
    obtain rfl := Except.ok.inj (hkey.symm.trans hkey')
    unfold Memory.listed at hl
    simp only [Bool.and_eq_true, decide_eq_true_eq] at hl
    rw [hl.1.1.2]
    exact hk
  refine (spares_applyEntries hspace hk (hlist.filed hm) hlisted).bind fun _ r m₂ happly => ?_
  obtain ⟨applied, left⟩ := r
  have hleft : AllSpare kind left := fun o ho => hlisted o (left_subset_of_entries happly ho)
  exact (spares_sweep hleft).bind fun _ _ _ _ => Session.heeds_done _

end Reconcile

namespace Operator

open Session (runs_bind runs_lift_bind)

/-! ## Composites -/

section Composites

variable {ns name : String} {env : Surroundings} {set : AddonSet} {past : List Account} {m m' : Memory}
  {es : List Event} {a : Except Error Unit} {t : Option Account}

/-- The components of a composite are brought in line without a change to any composite. -/
theorem spares_installSet (hm : m.Filed) :
    (installSet set).Heeds (fun _ => Reconcile.Spares addonSets.kind) m := by
  refine Session.heeds_lift_bind fun owner _ => ?_
  refine (Reconcile.spares_pass (by decide) (by decide) hm).bind fun _ _ m₁ h₁ => ?_
  have hm₁ := h₁.filed hm
  refine (Reconcile.spares_pass (by decide) (by decide) hm₁).bind fun _ _ m₂ h₂ => ?_
  refine (Reconcile.spares_pass (by decide) (by decide) (h₂.filed hm₁)).bind fun _ _ _ _ => ?_
  exact Session.heeds_done _

theorem spares_collect {owner : Owner} :
    (Rollup.collect owner).Heeds (fun _ => Reconcile.Spares addonSets.kind) m := by
  have hkind {type : TypeRef} {m : Memory} :
      (Rollup.ofKind owner type).Heeds (fun _ => Reconcile.Spares addonSets.kind) m :=
    (Session.heeds_listAll _ _ _).bind fun _ _ _ _ => Session.heeds_done _
  refine hkind.bind fun _ _ _ _ => hkind.bind fun _ _ _ _ => hkind.bind fun _ _ _ _ => ?_
  exact Session.heeds_done _

/-- A composite as its controller finds it: what is read of its status is what is stored, and it has a generation. -/
structure SetVisit (ns name : String) (m : Memory) where
  env : Surroundings
  set : AddonSet
  generation : Int
  ns_eq : set.metadata.ns = some ns
  name_eq : set.name = name
  generation_eq : set.metadata.generation = some generation
  stored : m.readStatus (addonSets.key ns name) SetStatus.ofJson? = some set.status
  -- the numbers and times are what their types can hold
  generation_fits : -2 ^ 63 ≤ generation ∧ generation < 2 ^ 63
  count_fits : set.spec.count < 2 ^ 64
  now_fits : env.now.Regular

namespace SetVisit

/-- The components in line, and their statuses. -/
def components (v : SetVisit ns name m) : Session (List ComponentHealth) := do
  let _ ← installSet v.set
  Rollup.collect ⟨name, ns⟩

/-- What is computed from the statuses of the components. -/
def account (v : SetVisit ns name m) (found : List ComponentHealth) : Account :=
  ⟨v.generation, v.set.spec.count, Rollup.status v.env.now found⟩

/-- The health that is written for one that is computed. -/
def health (v : SetVisit ns name m) (computed : Status) : Status :=
  computed.withTransitionFrom (v.set.status.bind SetStatus.status)

end SetVisit

/-- A run of the apply step of a composite, with what it computes: nothing, if it fails before that. -/
inductive Applies (ns name : String) (m : Memory) :
    Option Account → List Event → Except Error Unit → Memory → Prop
  | aborted (v : SetVisit ns name m) {es : List Event} {e : Error} {m' : Memory} :
      v.components.Runs m es (.error e) m' → Applies ns name m none es (.error e) m'
  | computed (v : SetVisit ns name m) {es es' : List Event} {found : List ComponentHealth} {a : Except Error Unit}
      {m₁ m' : Memory} :
      v.components.Runs m es (.ok found) m₁ →
      (writeSetStatus v.set ((v.account found).status (v.health (v.account found).health))).Runs m₁ es' a m' →
      Applies ns name m (some (v.account found)) (es ++ es') a m'

/-- The status of a composite is computed from what is looked up of its components. -/
theorem SetVisit.runs_setStatus (v : SetVisit ns name m) {m₁ : Memory} {r : Except Error SetStatus}
    (h : (setStatus v.env v.set).Runs m₁ es r m') :
    (∃ found, (Rollup.collect ⟨name, ns⟩).Runs m₁ es (.ok found) m'
        ∧ r = .ok ((v.account found).status (v.health (v.account found).health)))
      ∨ ∃ e, (Rollup.collect ⟨name, ns⟩).Runs m₁ es (.error e) m' ∧ r = .error e := by
  have howner : ownerOf v.set = .ok ⟨name, ns⟩ := by
    unfold ownerOf
    rw [Resource.namespaceOf_eq_ok v.ns_eq, v.name_eq]
    rfl
  have hstatus : setStatus v.env v.set = (liftM (ownerOf v.set) : Session Owner) >>= fun owner =>
      Rollup.collect owner >>= fun found => return {
        observedGeneration := v.set.metadata.generation
        components := v.set.spec.count
        status := some (v.health (Rollup.status v.env.now found)) } := rfl
  rw [hstatus, howner, v.generation_eq] at h
  rcases runs_lift_bind.1 h with ⟨_, ⟨rfl⟩, h⟩ | ⟨_, he, -⟩
  swap
  · cases he
  rcases runs_bind.1 h with ⟨found, m₂, es₁, _, hcollect, rfl, rfl, rfl, rfl⟩ | ⟨e, hcollect, rfl⟩
  · rw [List.append_nil]
    exact .inl ⟨found, hcollect, rfl⟩
  · exact .inr ⟨e, hcollect, rfl⟩

/-- Whatever comes of an apply step, it is one of these runs. -/
theorem applies_of_runs (v : SetVisit ns name m) (h : (Controller.sets.install v.env v.set).Runs m es a m') :
    ∃ t, Applies ns name m t es a m' := by
  have hinstall : Controller.sets.install v.env v.set = installSet v.set >>= fun _ =>
      setStatus v.env v.set >>= fun next => writeSetStatus v.set next := rfl
  rw [hinstall] at h
  rcases runs_bind.1 h with ⟨summary, m₁, es₁, es', hline, rfl, hrest⟩ | ⟨e, hline, rfl⟩
  swap
  · exact ⟨none, .aborted v (runs_bind.2 (.inr ⟨e, hline, rfl⟩))⟩
  rcases runs_bind.1 hrest with ⟨next, m₂, es₂, es₃, hnext, rfl, hwrite⟩ | ⟨e, hnext, rfl⟩
  · obtain ⟨found, hcollect, hok⟩ | ⟨e, -, he⟩ := v.runs_setStatus hnext
    swap
    · cases he
    obtain rfl := Except.ok.inj hok
    rw [← List.append_assoc]
    exact ⟨_, .computed v (runs_bind.2 (.inl ⟨summary, m₁, es₁, es₂, hline, rfl, hcollect⟩)) hwrite⟩
  · obtain ⟨found, -, he⟩ | ⟨e, hcollect, he⟩ := v.runs_setStatus hnext
    · cases he
    obtain rfl := Except.error.inj he
    exact ⟨none, .aborted v (runs_bind.2 (.inl ⟨summary, m₁, es₁, es', hline, rfl, hcollect⟩))⟩

/-- The store shows a composite's last account, with its health in its time. -/
abbrev ShowsAccount (key : Key) : List Account → Memory → Prop :=
  Shows Account.standing SetStatus.toJson Account.Storable key

theorem ShowsAccount.readStatus {key : Key} (h : ShowsAccount key past m) :
    m.readStatus key SetStatus.ofJson? = some (latest? Account.standing past) :=
  Shows.readStatus h SetStatus.lasting nofun fun _ _ => Account.storable_standing

/-- Nothing but what stands is left when a status is merged in. -/
theorem ShowsAccount.merged {key : Key} {next : Account} (h : ShowsAccount key past m) (hm : m'.Filed)
    (hnext : next.Storable) (hstored : m'.statusOf key = (m.statusOf key).mergePatch (next.status
      (next.health.withTransitionFrom ((latest? Account.standing past).bind SetStatus.status))).toJson) :
    ShowsAccount key (next :: past) m' := by
  refine ⟨hm, List.forall_mem_cons.2 ⟨hnext, h.fit⟩, ?_⟩
  rw [hstored, h.stored]
  cases past with
  | nil => exact Account.mergePatch_null next next.health
  | cons p older =>
    show (p.standing older).toJson.mergePatch
      (next.status (next.health.withTransitionFrom (p.standing older).status)).toJson = _
    rw [Account.withTransitionFrom_standing]
    exact Account.mergePatch_toJson p next _ _

theorem SetVisit.storable_account (v : SetVisit ns name m) (found : List ComponentHealth) :
    (v.account found).Storable := by
  refine ⟨v.generation_fits, v.count_fits, ?_⟩
  have htime : (Rollup.status v.env.now found).lastTransitionTime = v.env.now := by
    unfold Rollup.status
    split <;> rfl
  show (Rollup.status v.env.now found).lastTransitionTime.Regular
  rw [htime]
  exact v.now_fits

/-- The components are brought in line and looked up without a change to the composite. -/
theorem SetVisit.runs_components (v : SetVisit ns name m) {r : Except Error (List ComponentHealth)} (hm : m.Filed)
    (h : v.components.Runs m es r m') :
    (∀ d, some d ∈ es → d.slot ≠ (addonSets.key ns name).slot)
      ∧ m'.statusOf (addonSets.key ns name) = m.statusOf (addonSets.key ns name) := by
  have hspares : v.components.Heeds (fun _ => Reconcile.Spares addonSets.kind) m :=
    (spares_installSet hm).bind fun _ _ _ _ => spares_collect
  have hall : Event.All (fun d => d.slot ≠ (addonSets.key ns name).slot) es := fun d hd hslot =>
    hspares.all h d hd (congrArg Slot.kind hslot)
  refine ⟨hall, Memory.statusOf_congr ?_⟩
  unfold Memory.object?
  rw [h.find?, Event.lastLeft?_eq_none_iff.2 hall]
  rfl

/-- An apply step keeps up what the store shows. -/
theorem ShowsAccount.applies (h : ShowsAccount (addonSets.key ns name) past m) (hcall : Applies ns name m t es a m') :
    (Through (addonSets.key ns name) es a →
        ∃ next, t = some next ∧ ShowsAccount (addonSets.key ns name) (next :: past) m')
      ∧ (¬Through (addonSets.key ns name) es a → ShowsAccount (addonSets.key ns name) past m') := by
  cases hcall with
  | aborted v hrun =>
    obtain ⟨hall, hsame⟩ := v.runs_components h.filed hrun
    exact ⟨fun ht => absurd ht (not_through hall), fun _ => h.congr (hrun.filed h.filed) hsame⟩
  | @computed v es es' found a m₁ m' hrun hwrite =>
    obtain ⟨hall, hsame⟩ := v.runs_components h.filed hrun
    rw [through_append hall]
    have h₁ := h.congr (hrun.filed h.filed) hsame
    have hfiled := hwrite.filed h₁.filed
    have hprevious : v.set.status = latest? Account.standing past :=
      Option.some.inj (v.stored.symm.trans h.readStatus)
    by_cases hdiffers : ((v.account found).status (v.health (v.account found).health)).differsFrom v.set.status
    · have hwritten := runs_writeSetStatus_new v.ns_eq hdiffers hwrite
      rw [v.name_eq] at hwritten
      obtain ⟨hnot, rfl⟩ | ⟨left, rfl, hmerged⟩ := hwritten
      · exact ⟨fun ht => absurd ht hnot, fun _ => h₁⟩
      · unfold SetVisit.health at hmerged
        rw [hprevious] at hmerged
        exact ⟨fun _ => ⟨_, rfl, ShowsAccount.merged h₁ hfiled (v.storable_account found) hmerged⟩,
          fun hnot => absurd through_deed hnot⟩
    · obtain ⟨rfl, rfl, rfl⟩ := runs_writeSetStatus_same (Bool.eq_false_iff.2 hdiffers) hwrite
      refine ⟨fun _ => ⟨_, rfl, hfiled, List.forall_mem_cons.2 ⟨v.storable_account found, h.fit⟩, ?_⟩,
        fun hnot => absurd (.inl rfl) hnot⟩
      rw [hprevious] at hdiffers
      cases past with
      | nil => exact absurd rfl hdiffers
      | cons p older =>
        have hsame := (Account.differsFrom_standing _ _).1 (Bool.eq_false_iff.2 hdiffers)
        rw [h₁.stored]
        exact congrArg SetStatus.toJson (Account.standing_of_sameAs hsame).symm

/-- What says nothing new is not written. -/
theorem ShowsAccount.silent {p next : Account} {older : List Account}
    (h : ShowsAccount (addonSets.key ns name) (p :: older) m) (hsame : p.SameAs next)
    (hcall : Applies ns name m (some next) es a m') :
    (∀ d, some d ∈ es → d.slot ≠ (addonSets.key ns name).slot) ∧ a = .ok () := by
  cases hcall with
  | @computed v es es' found a m₁ m' hrun hwrite =>
    obtain ⟨hall, -⟩ := v.runs_components h.filed hrun
    have hprevious : v.set.status = some (p.standing older) := Option.some.inj (v.stored.symm.trans h.readStatus)
    have hnothing : ((v.account found).status (v.health (v.account found).health)).differsFrom
        (some (p.standing older)) = false := (Account.differsFrom_standing _ _).2 hsame
    rw [← hprevious] at hnothing
    obtain ⟨rfl, rfl, -⟩ := runs_writeSetStatus_same hnothing hwrite
    exact ⟨by simpa using hall, rfl⟩

/-- An apply step that succeeds has computed something. -/
theorem Applies.isSome (h : Applies ns name m t es (.ok ()) m') : t.isSome := by
  cases h with
  | computed => rfl

end Composites

/-- What is stored after any history of calls, each of which may fail: for a component the last status, with the time
of the first one of the current run of its type, and for a composite its last account likewise. Nothing is left of
earlier ones, and what says nothing new is not written. -/
theorem stored_of_history :
    (∀ {σ : Type} (k : ResourceKind σ Status) (ns name : String) (past : List Status) (m : Memory),
      History (Publishes k ns name) (k.key ns name) past m →
        m.statusOf (k.key ns name) = ((latest? Status.standing past).map Status.toJson).getD .null
        ∧ ∀ s older next es a m', past = s :: older → s.sameAs next →
          Publishes k ns name m (some next) es a m' → es = [] ∧ a = .ok () ∧ m' = m)
      ∧ ∀ (ns name : String) (past : List Account) (m : Memory),
        History (Applies ns name) (addonSets.key ns name) past m →
          m.statusOf (addonSets.key ns name) = ((latest? Account.standing past).map SetStatus.toJson).getD .null
          ∧ (∀ p older next es a m', past = p :: older → p.SameAs next →
            Applies ns name m (some next) es a m' →
              (∀ d, some d ∈ es → d.slot ≠ (addonSets.key ns name).slot) ∧ a = .ok ())
          -- every run of the apply step is one that counts here
          ∧ ∀ (v : SetVisit ns name m) es a m', (Controller.sets.install v.env v.set).Runs m es a m' →
            ∃ t, Applies ns name m t es a m' ∧ (a = .ok () → t.isSome) := by
  refine ⟨fun k ns name past m h => ?_, fun ns name past m h => ?_⟩
  · have hshows : ShowsStatus (k.key ns name) past m := h.shows ShowsStatus.publishes
    refine ⟨hshows.stored, ?_⟩
    rintro s older next es a m' rfl hsame hcall
    exact hshows.silent hsame hcall
  · have hshows : ShowsAccount (addonSets.key ns name) past m := h.shows ShowsAccount.applies
    refine ⟨hshows.stored, ?_, fun v es a m' hrun => ?_⟩
    · rintro p older next es a m' rfl hsame hcall
      exact hshows.silent hsame hcall
    · obtain ⟨t, ht⟩ := applies_of_runs v hrun
      refine ⟨t, ht, ?_⟩
      rintro rfl
      exact ht.isSome

section Rollout

def web : ManifestAddon := { metadata := { name := some "web", ns := some "apps" }, spec := default }

def base (generation : Int) (past : List Account) : AddonSet :=
  { metadata := { name := some "base", ns := some "apps", generation := some generation }, spec := {}
    status := latest? Account.standing past }

/-- A component and a composite without statuses. -/
def fresh : Memory :=
  ((({ now := default } : Memory).create (manifestAddons.toObject web)).2.create (addonSets.toObject (base 1 []))).2

theorem fresh_filed : fresh.Filed := ((Memory.Filed.of_nil rfl).create _).create _

def rolling : Status := .progressing ⟨60, 0⟩ "Rolling" "1 of 2"

def serving : Status := .available ⟨120, 0⟩ "Available" "2 of 2"

def grown : Status := .available ⟨180, 0⟩ "Available" "3 of 3"

/-- Publish a status of the component after others. -/
def publishAfter (past : List Status) (next : Status) (m : Memory) : Except Error Unit × Host :=
  (writeStatus manifestAddons web (latest? Status.standing past) next).run { memory := m }

/-- The store after statuses of the component, the last first. -/
def rolledOut : List Status → Memory
  | [] => fresh
  | next :: past => (publishAfter past next (rolledOut past)).2.memory

theorem history_cons {past : List Status} {next : Status} (hnext : next.Storable)
    (hok : (publishAfter past next (rolledOut past)).1.toOption = some ())
    (h : History (Publishes manifestAddons "apps" "web") (manifestAddons.key "apps" "web") past (rolledOut past)) :
    History (Publishes manifestAddons "apps" "web") (manifestAddons.key "apps" "web") (next :: past)
      (rolledOut (next :: past)) := by
  obtain ⟨es, hrun⟩ := Session.runs_run (writeStatus manifestAddons web (latest? Status.standing past) next)
    { memory := rolledOut past }
  have hshows : ShowsStatus (manifestAddons.key "apps" "web") past (rolledOut past) :=
    h.shows ShowsStatus.publishes
  exact h.through (.call rfl rfl hshows.readStatus hnext hrun) (.inl (ok_of_toOption hok))

theorem rollout_checked : (publishAfter [] rolling (rolledOut [])).1.toOption = some ()
    ∧ (publishAfter [rolling] serving (rolledOut [rolling])).1.toOption = some ()
    ∧ (publishAfter [serving, rolling] grown (rolledOut [serving, rolling])).1.toOption = some () := by
  decide +kernel

/-- Bring the components of the composite in line and look them up; it declares none. -/
def lookAfter (past : List Account) (generation : Int) (m : Memory) : Except Error (List ComponentHealth) × Host :=
  (installSet (base generation past) >>= fun _ => Rollup.collect ⟨"base", "apps"⟩).run { memory := m }

/-- Write what an apply step comes to after others. -/
def noteAfter (past : List Account) (next : Account) (m : Memory) : Except Error Unit × Host :=
  (writeSetStatus (base next.generation past)
    (next.status (next.health.withTransitionFrom ((latest? Account.standing past).bind SetStatus.status)))).run
    (lookAfter past next.generation m).2

/-- The store after apply steps of the composite, the last first. -/
def settled : List Account → Memory
  | [] => fresh
  | next :: past => (noteAfter past next (settled past)).2.memory

/-- What an apply step of the composite comes to. -/
def calm (generation : Int) (now : Instant) : Account := ⟨generation, 0, Rollup.status now []⟩

theorem history_calm {past : List Account} {generation : Int} {now : Instant} (hnow : now.Regular)
    (hfits : -2 ^ 63 ≤ generation ∧ generation < 2 ^ 63)
    (hlook : (lookAfter past generation (settled past)).1.toOption = some [])
    (hok : (noteAfter past (calm generation now) (settled past)).1.toOption = some ())
    (h : History (Applies "apps" "base") (addonSets.key "apps" "base") past (settled past)) :
    History (Applies "apps" "base") (addonSets.key "apps" "base") (calm generation now :: past)
      (settled (calm generation now :: past)) := by
  have hshows : ShowsAccount (addonSets.key "apps" "base") past (settled past) := h.shows ShowsAccount.applies
  let v : SetVisit "apps" "base" (settled past) := {
    env := { now, render := fun url _ _ => .ok url.toUTF8 }
    set := base generation past
    generation
    ns_eq := rfl
    name_eq := rfl
    generation_eq := rfl
    stored := hshows.readStatus
    generation_fits := hfits
    count_fits := show 0 < 2 ^ 64 by decide
    now_fits := hnow }
  obtain ⟨es, hrun⟩ := Session.runs_run v.components { memory := settled past }
  obtain ⟨es', hrun'⟩ := Session.runs_run
    (writeSetStatus v.set ((v.account []).status (v.health (v.account []).health)))
    (lookAfter past generation (settled past)).2
  have hfound : (v.components.run { memory := settled past }).1 = .ok [] := ok_of_toOption hlook
  rw [hfound] at hrun
  exact h.through (.computed v hrun hrun') (.inl (ok_of_toOption hok))

theorem settled_checked : (lookAfter [] 1 (settled [])).1.toOption = some []
    ∧ (noteAfter [] (calm 1 ⟨60, 0⟩) (settled [])).1.toOption = some ()
    ∧ (lookAfter [calm 1 ⟨60, 0⟩] 2 (settled [calm 1 ⟨60, 0⟩])).1.toOption = some []
    ∧ (noteAfter [calm 1 ⟨60, 0⟩] (calm 2 ⟨120, 0⟩) (settled [calm 1 ⟨60, 0⟩])).1.toOption
      = some () := by
  decide +kernel

/-- A component that serves more and more shows since when it serves, and a composite that is calm since when it
is. -/
theorem rollout_stored :
    History (Publishes manifestAddons "apps" "web") (manifestAddons.key "apps" "web") [grown, serving, rolling]
        (rolledOut [grown, serving, rolling])
      ∧ (rolledOut [grown, serving, rolling]).statusOf (manifestAddons.key "apps" "web")
        = Status.toJson ⟨.available, ⟨120, 0⟩, "Available", "3 of 3"⟩
      ∧ History (Applies "apps" "base") (addonSets.key "apps" "base") [calm 2 ⟨120, 0⟩, calm 1 ⟨60, 0⟩]
        (settled [calm 2 ⟨120, 0⟩, calm 1 ⟨60, 0⟩])
      ∧ (settled [calm 2 ⟨120, 0⟩, calm 1 ⟨60, 0⟩]).statusOf (addonSets.key "apps" "base")
        = SetStatus.toJson
          ⟨some 2, 0, some ⟨.available, ⟨60, 0⟩, "Reconciled", "0 components available"⟩⟩ := by
  obtain ⟨hrolling, hserving, hgrown⟩ := rollout_checked
  obtain ⟨hlook, hnote, hlook', hnote'⟩ := settled_checked
  have hfirst : Instant.Regular ⟨60, 0⟩ := ⟨by decide, by decide, by decide⟩
  have hsecond : Instant.Regular ⟨120, 0⟩ := ⟨by decide, by decide, by decide⟩
  have hthird : grown.Storable := ⟨by decide, by decide, by decide⟩
  have hrolled : History _ _ [rolling] (rolledOut [rolling]) := history_cons hfirst hrolling (.start fresh_filed rfl)
  have hrollout := history_cons hthird hgrown (history_cons hsecond hserving hrolled)
  have hcalm := history_calm hsecond (by decide) hlook' hnote'
    (history_calm hfirst (by decide) hlook hnote (.start fresh_filed rfl))
  refine ⟨hrollout, ?_, hcalm, ?_⟩
  · exact (stored_of_history.1 manifestAddons "apps" "web" _ _ hrollout).1
  · exact (stored_of_history.2 "apps" "base" _ _ hcalm).1

end Rollout

end Operator

end Addons
