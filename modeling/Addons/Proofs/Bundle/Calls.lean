import Addons.Proofs.Bundle.Simulation
import Addons.Proofs.Store.Journal

/-!
# Calls of a manifest component

What may come of applying a bundle, of removing it and of trying it again, with a fault at any point
(`runs_apply`, `runs_remove`, `runs_retry`). An apply changes nothing, or it goes a path of steps from the
record of a first apply or from the one that is there with the render noted.

The bundles that are applied do not hold the record of their component (`LeavesRecord`).
-/

namespace Addons

namespace RecordSpec

/-- The record of a first apply. -/
def fresh (fingerprint : String) : RecordSpec := { url := "", checksum := fingerprint }

/-- The record once a render has been noted. -/
def begun (r : RecordSpec) (fingerprint : String) : RecordSpec :=
  { r with newChecksum := if r.checksum ≠ fingerprint then fingerprint else r.newChecksum }

theorem ledger_ofSpec (spec : ManifestSpec) (fingerprint : String) :
    (ofSpec spec fingerprint).ledger = fresh fingerprint := rfl

theorem ledger_beginChange (r : RecordSpec) (fingerprint : String) (spec : ManifestSpec) :
    (r.beginChange fingerprint spec).ledger = r.ledger.begun fingerprint := rfl

theorem ledger_of_same {r s : RecordSpec} (h : r.same s) : r.ledger = s.ledger := by
  unfold same at h
  simp only [Bool.and_eq_true, decide_eq_true_iff] at h
  obtain ⟨⟨⟨⟨⟨⟨⟨-, hc⟩, hn⟩, ho⟩, -⟩, -⟩, -⟩, -⟩ := h
  exact ledger_eq hc hn ho

theorem tidy_fresh (own : Slot) (fingerprint : String) : (fresh fingerprint).Tidy own where
  distinct := List.Pairwise.nil
  placed := fun _ h => absurd h List.not_mem_nil
  apart := fun _ h => absurd h List.not_mem_nil
  pending := fun h => absurd rfl h

theorem Tidy.begun {own : Slot} {r : RecordSpec} (h : r.Tidy own) (fingerprint : String) :
    (r.begun fingerprint).Tidy own where
  distinct := h.distinct
  placed := h.placed
  apart := h.apart
  pending := by
    unfold RecordSpec.begun
    by_cases hf : r.checksum ≠ fingerprint
    · rw [if_pos hf]
      exact fun _ => Ne.symm hf
    · rw [if_neg hf]
      exact h.pending

end RecordSpec

namespace Bundle

/-! ## Renders -/

theorem forall₂_of_mapM {ε α β : Type} {f : α → Except ε β} {l : List α} {l' : List β}
    (h : l.mapM f = .ok l') : List.Forall₂ (fun a b => f a = .ok b) l l' := by
  induction l generalizing l' with
  | nil =>
    obtain rfl := Except.ok.inj h
    exact .nil
  | cons a l ih =>
    rw [List.mapM_cons] at h
    obtain ⟨b, hb, h⟩ := of_bind_eq_ok h
    obtain ⟨bs, hbs, h⟩ := of_bind_eq_ok h
    obtain rfl := Except.ok.inj h
    exact .cons hb (ih hbs)

theorem of_mapError_eq_ok {ε δ α : Type} {x : Except ε α} {f : ε → δ} {a : α}
    (h : x.mapError f = .ok a) : x = .ok a := by
  cases x with
  | error e => cases h
  | ok b => exact congrArg Except.ok (Except.ok.inj h)

/-- A rendered manifest is prepared document by document. -/
theorem prepare_eq_ok {bytes : ByteArray} {ns name : String} {rendered : List Prepared}
    (h : prepare bytes ns name = .ok rendered) :
    ∃ source docs, Text.ofUtf8 bytes = .ok source ∧ Manifest.parseDocuments source = .ok docs
      ∧ List.Forall₂ (fun doc p => p.Of doc (labels name)) docs rendered := by
  obtain ⟨source, hsource, h⟩ := of_bind_eq_ok h
  obtain ⟨docs, hdocs, h⟩ := of_bind_eq_ok h
  exact ⟨source, docs, of_mapError_eq_ok hsource, of_mapError_eq_ok hdocs,
    (forall₂_of_mapM h).imp fun _ _ => Prepared.ofDocument_of⟩

theorem exists_of_mem {docs : List Json} {rendered : List Prepared} {labels : Table String String}
    (hall : List.Forall₂ (fun doc p => p.Of doc labels) docs rendered) {p : Prepared} (hp : p ∈ rendered) :
    ∃ doc ∈ docs, p.Of doc labels := (mem_of_forall₂ hall).2 p hp

theorem of_prepare {bytes : ByteArray} {ns name : String} {rendered : List Prepared}
    (h : prepare bytes ns name = .ok rendered) :
    ∀ p ∈ rendered, p.object.key = .ok p.key ∧ p.tracked.Placed := by
  obtain ⟨source, docs, -, -, hall⟩ := prepare_eq_ok h
  intro p hp
  obtain ⟨doc, -, hof⟩ := exists_of_mem hall hp
  exact ⟨hof.key, hof.placed⟩

/-- Whatever is rendered, the record of the component is not in it. -/
def LeavesRecord (render : Renderer) (ns name : String) (spec : ManifestSpec) : Prop :=
  ∀ bytes rendered, render spec.url spec.patches spec.images = .ok bytes →
    prepare bytes ns name = .ok rendered → ∀ p ∈ rendered, p.key.slot ≠ own ns name

section Calls

variable {ns name : String} {m m' : Memory} {es : List Event}

/-- Nothing comes of what is asked for. -/
def Idle (es : List Event) : Prop := ∀ s, Event.lastLeft? es s = none

theorem runs_record? {a : Except Error (Option ManifestRecord)} (h : (record? ns name).Runs m es a m') :
    es = [] ∧ m'.objects = m.objects ∧ (a = .ok none → m.object? (recordKey ns name) = none)
      ∧ ∀ record, a = .ok (some record) → ∃ o, m.object? (recordKey ns name) = some o
        ∧ manifestRecords.ofObject o = .ok record := by
  obtain ⟨o?, m₁, es₁, es₂, h₁, rfl, h₂⟩ | ⟨e, h₁, rfl⟩ := Session.runs_bind.1 h
  · obtain ⟨rfl, hm, ho⟩ := Session.runs_find? h₁
    cases o? with
    | none =>
      obtain ⟨rfl, rfl, rfl⟩ := h₂
      exact ⟨rfl, hm, fun _ => ho none rfl, (fun _ h => nomatch h)⟩
    | some o =>
      obtain ⟨record, hr, rfl, rfl, rfl⟩ | ⟨e, -, rfl, rfl, rfl⟩ := Session.runs_lift_bind.1 h₂
      · refine ⟨rfl, hm, (fun h => nomatch h), ?_⟩
        rintro _ ⟨rfl⟩
        exact ⟨o, ho _ rfl, hr⟩
      · exact ⟨rfl, hm, (fun h => nomatch h), (fun _ h => nomatch h)⟩
  · obtain ⟨rfl, hm, -⟩ := Session.runs_find? h₁
    exact ⟨rfl, hm, (fun h => nomatch h), (fun _ h => nomatch h)⟩

/-- The first writes of a run, that of the record: the pass begins. -/
theorem Shown.of_runs {α : Type} {s : Session α} {a : Except Error α} {r : RecordSpec}
    (h : s.Runs m es a m') (hes : ∀ s ≠ own ns name, Event.lastLeft? es s = none)
    (hr : Stored ns name m' r) : Shown ns name m.objects.find? es m' r [] where
  record := hr
  log := hes
  store := h.find?

/-! ## Applying -/

/-- Applying a component that has no record. -/
def applyFirst (ns name : String) (spec : ManifestSpec) (owner : Option OwnerReference) (fingerprint : String)
    (rendered : List Prepared) : Session ApplyReport := do
  let created ← Session.createNew (manifestRecords.toObject (newRecord ns name spec fingerprint owner))
  converge (← manifestRecords.ofObject created) fingerprint rendered

/-- Applying a component whose record does not have the render as applied. -/
def applyAgain (record : ManifestRecord) (spec : ManifestSpec) (fingerprint : String)
    (rendered : List Prepared) : Session ApplyReport := do
  converge (← begin record spec fingerprint) fingerprint rendered

/-- How an apply goes on from its render, by what it finds as the record. -/
inductive Proceeds (ns name : String) (spec : ManifestSpec) (owner : Option OwnerReference) (fingerprint : String)
    (rendered : List Prepared) (m : Memory) (es : List Event) (a : Except Error ApplyReport) (m' : Memory) :
    Prop
  | first {m₁ : Memory} : m₁.objects = m.objects → (m.Filed → m₁.Filed) →
      m.object? (recordKey ns name) = none →
      (applyFirst ns name spec owner fingerprint rendered).Runs m₁ es a m' →
      Proceeds ns name spec owner fingerprint rendered m es a m'
  | current {o : Object} {record : ManifestRecord} : m.object? (recordKey ns name) = some o →
      manifestRecords.ofObject o = .ok record →
      record.spec.isCurrent fingerprint (rendered.map Prepared.tracked) → es = [] →
      a = .ok { fingerprint, changed := false, objects := record.spec.objects } → m'.objects = m.objects →
      Proceeds ns name spec owner fingerprint rendered m es a m'
  | again {m₁ : Memory} {o : Object} {record : ManifestRecord} : m₁.objects = m.objects →
      (m.Filed → m₁.Filed) → m.object? (recordKey ns name) = some o →
      manifestRecords.ofObject o = .ok record →
      ¬record.spec.isCurrent fingerprint (rendered.map Prepared.tracked) →
      (applyAgain record spec fingerprint rendered).Runs m₁ es a m' →
      Proceeds ns name spec owner fingerprint rendered m es a m'

/-- An apply ends before it asks for anything, or it has its render and looks at the record. -/
theorem runs_apply_cases {render : Renderer} {spec : ManifestSpec} {owner : Option OwnerReference}
    {a : Except Error ApplyReport} (h : (apply render ns name spec owner).Runs m es a m') :
    (es = [] ∧ ∃ e, a = .error e)
      ∨ ∃ bytes rendered, render spec.url spec.patches spec.images = .ok bytes
        ∧ prepare bytes ns name = .ok rendered
        ∧ Proceeds ns name spec owner (Manifest.fingerprint bytes) rendered m es a m' := by
  obtain ⟨bytes, hbytes, h⟩ | ⟨e, -, rfl, rfl, rfl⟩ := Session.runs_lift_bind.1 h
  swap
  · exact .inl ⟨rfl, e, rfl⟩
  obtain ⟨rendered, hrendered, h⟩ | ⟨e, -, rfl, rfl, rfl⟩ := Session.runs_lift_bind.1 h
  swap
  · exact .inl ⟨rfl, e, rfl⟩
  obtain ⟨found, m₁, _, es₂, h₁, rfl, h₂⟩ | ⟨e, h₁, rfl⟩ := Session.runs_bind.1 h
  swap
  · exact .inl ⟨(runs_record? h₁).1, e, rfl⟩
  refine .inr ⟨bytes, rendered, hbytes, hrendered, ?_⟩
  have hfiled : m.Filed → m₁.Filed := h₁.filed
  obtain ⟨rfl, hm, hnone, hsome⟩ := runs_record? h₁
  cases found with
  | none => exact .first hm hfiled (hnone rfl) h₂
  | some record =>
    obtain ⟨o, ho, hread⟩ := hsome record rfl
    dsimp only at h₂
    by_cases hcurrent : record.spec.isCurrent (Manifest.fingerprint bytes) (rendered.map Prepared.tracked)
    · rw [if_pos hcurrent] at h₂
      obtain ⟨rfl, rfl, rfl⟩ := h₂
      exact .current ho hread hcurrent rfl rfl hm
    · rw [if_neg hcurrent] at h₂
      exact .again hm hfiled ho hread hcurrent h₂

/-- What the record says when the pass of an apply begins. -/
inductive Start (ns name : String) (m : Memory) (fingerprint : String) (rendered : List Prepared) :
    RecordSpec → Prop
  | first : m.object? (recordKey ns name) = none → Start ns name m fingerprint rendered (.fresh fingerprint)
  | again {r : RecordSpec} : Holds ns name m r →
      ¬r.isCurrent fingerprint (rendered.map Prepared.tracked) →
      Start ns name m fingerprint rendered (r.begun fingerprint)

/-- An apply that went the path of a pass. -/
structure Went (ns name : String) (m : Memory) (es : List Event) (m' : Memory) (fingerprint : String)
    (rendered : List Prepared) (a : Except Error ApplyReport) (r : RecordSpec) (σ : Pass) : Prop where
  start : Start ns name m fingerprint rendered r
  path : Steps m.objects.find? rendered ⟨.write [] rendered, r, []⟩ σ
  shown : Shown ns name m.objects.find? es m' σ.record σ.log
  finished : ∀ report, a = .ok report → Finished ns name rendered r fingerprint m' σ report

/-- An apply that found its render applied. -/
structure Current (ns name : String) (m : Memory) (fingerprint : String) (rendered : List Prepared)
    (a : Except Error ApplyReport) (r : RecordSpec) : Prop where
  holds : Holds ns name m r
  current : r.isCurrent fingerprint (rendered.map Prepared.tracked)
  report : a = .ok { fingerprint, changed := false, objects := r.objects }

/-- The record is missing, or it is kept as it should be and what it tracks is where something was done. -/
def Orderly (ns name : String) (done : Slot → Prop) (m : Memory) : Prop :=
  m.object? (recordKey ns name) = none
    ∨ ∃ r, Stored ns name m r ∧ r.Tidy (own ns name) ∧ ∀ t ∈ r.objects, done t.slot

variable {done : Slot → Prop}

theorem Orderly.of_holds {r : RecordSpec} (h : Orderly ns name done m) (hr : Holds ns name m r) :
    r.Tidy (own ns name) ∧ ∀ t ∈ r.objects, done t.slot := by
  obtain ⟨o, record, ho, hread, hin⟩ := hr
  obtain hnone | ⟨r', ⟨o', ho', htells⟩, htidy⟩ := h
  · rw [ho] at hnone
    cases hnone
  · rw [ho] at ho'
    obtain rfl := Option.some.inj ho'
    rwa [← hin.ledger, (htells record hread).ledger]

theorem Orderly.holds_of_read {o : Object} {record : ManifestRecord} (h : Orderly ns name done m)
    (ho : m.object? (recordKey ns name) = some o) (hread : manifestRecords.ofObject o = .ok record) :
    Holds ns name m record.spec.ledger ∧ InHand ns name record record.spec.ledger := by
  obtain hnone | ⟨r, ⟨o', ho', htells⟩, -⟩ := h
  · rw [ho] at hnone
    cases hnone
  · rw [ho] at ho'
    obtain rfl := Option.some.inj ho'
    obtain ⟨hname, hns, -⟩ := htells record hread
    exact ⟨⟨o, record, ho, hread, hname, hns, rfl⟩, hname, hns, rfl⟩

theorem Start.tidy {fingerprint : String} {rendered : List Prepared} {r : RecordSpec}
    (h : Orderly ns name done m) (hr : Start ns name m fingerprint rendered r) : r.Tidy (own ns name) := by
  cases hr with
  | first _ => exact RecordSpec.tidy_fresh _ fingerprint
  | again hr _ => exact (h.of_holds hr).1.begun fingerprint

/-- Noting a render fails with no deed, or the record says it. -/
theorem runs_begin {record : ManifestRecord} {r : RecordSpec} {spec : ManifestSpec} {fingerprint : String}
    {a : Except Error ManifestRecord} (hh : Holds ns name m r) (hin : InHand ns name record r)
    (h : (begin record spec fingerprint).Runs m es a m') :
    ((∀ s, Event.lastLeft? es s = none) ∧ ∃ e, a = .error e)
      ∨ (∀ s ≠ own ns name, Event.lastLeft? es s = none)
        ∧ ((Stored ns name m' (r.begun fingerprint) ∧ ∃ e, a = .error e)
          ∨ Holds ns name m' (r.begun fingerprint)
            ∧ ∃ record', a = .ok record' ∧ InHand ns name record' (r.begun fingerprint)) := by
  have hnext : InHand ns name { record with spec := record.spec.beginChange fingerprint spec }
      (r.begun fingerprint) :=
    ⟨hin.name, hin.ns, by rw [← hin.ledger]; exact RecordSpec.ledger_beginChange _ _ _⟩
  unfold begin at h
  by_cases hsame : (record.spec.beginChange fingerprint spec).same record.spec
  · -- the record says so already
    rw [if_pos hsame] at h
    obtain ⟨rfl, rfl, rfl⟩ := h
    have hledger : r.begun fingerprint = r := by
      rw [← hnext.ledger, ← hin.ledger]
      exact RecordSpec.ledger_of_same hsame
    exact .inr ⟨fun _ _ => rfl, .inr ⟨by rw [hledger]; exact hh, _, rfl, hnext⟩⟩
  · rw [if_neg hsame] at h
    exact runs_save hnext h

section Apply

variable {fingerprint : String} {rendered : List Prepared} {a : Except Error ApplyReport}
variable (hkeys : ∀ p ∈ rendered, p.object.key = .ok p.key)
variable (hdocs : ∀ p ∈ rendered, p.tracked.Placed ∧ p.key.slot ≠ own ns name)

include hkeys hdocs

/-- A first apply fails with no deed, or goes the path of a pass from a fresh record. -/
theorem runs_first {spec : ManifestSpec} {owner : Option OwnerReference}
    (hnone : m.object? (recordKey ns name) = none)
    (h : (applyFirst ns name spec owner fingerprint rendered).Runs m es a m') :
    (Idle es ∧ ∃ e, a = .error e) ∨ ∃ r σ, Went ns name m es m' fingerprint rendered a r σ := by
  have hin : InHand ns name (newRecord ns name spec fingerprint owner) (.fresh fingerprint) :=
    ⟨rfl, rfl, RecordSpec.ledger_ofSpec spec fingerprint⟩
  have htidy := RecordSpec.tidy_fresh (own ns name) fingerprint
  have hstart : Start ns name m fingerprint rendered (.fresh fingerprint) := .first hnone
  obtain ⟨created, m₁, es₁, es₂, h₁, rfl, h₂⟩ | ⟨e, h₁, rfl⟩ := Session.runs_bind.1 h
  · obtain ⟨k, hk, ho, rfl, hm⟩ := Session.runs_createNew_ok h₁
    obtain rfl := Except.ok.inj ((key_record hin).symm.trans hk)
    have hfind := Memory.object?_of_insert hm
    have htells := tells_of_unstamped hin ho.unstamped
    have hshown := Shown.of_runs h₁ (fun s hs => lastLeft?_single_ne hs) ⟨created, hfind, htells⟩
    obtain ⟨record, hread, h₃⟩ | ⟨e, -, rfl, rfl, rfl⟩ := Session.runs_lift_bind.1 h₂
    · have hin' := htells record hread
      obtain ⟨σ, hpath, hlast, hok⟩ := runs_converge hkeys hdocs htidy hshown
        ⟨created, record, hfind, hread, hin'⟩ hin' h₃
      exact .inr ⟨_, σ, hstart, hpath, hlast, hok⟩
    · exact .inr ⟨_, _, hstart, .refl, hshown, fun _ h => nomatch h⟩
  · obtain ⟨rfl, -, -⟩ | ⟨k, o, hk, -, ho, rfl, hm, -⟩ := Session.runs_createNew h₁
    · exact .inl ⟨fun _ => rfl, e, rfl⟩
    · obtain rfl := Except.ok.inj ((key_record hin).symm.trans hk)
      exact .inr ⟨_, _, hstart, .refl, Shown.of_runs h₁ (fun s hs => lastLeft?_single_ne hs)
        ⟨o, Memory.object?_of_insert hm, tells_of_unstamped hin ho.unstamped⟩, fun _ h => nomatch h⟩

/-- A later apply fails with no deed, or goes the path of a pass from the record that is there. -/
theorem runs_again {record : ManifestRecord} {r : RecordSpec} {spec : ManifestSpec}
    (hh : Holds ns name m r) (hin : InHand ns name record r) (htidy : r.Tidy (own ns name))
    (hnot : ¬r.isCurrent fingerprint (rendered.map Prepared.tracked))
    (h : (applyAgain record spec fingerprint rendered).Runs m es a m') :
    (Idle es ∧ ∃ e, a = .error e) ∨ ∃ r σ, Went ns name m es m' fingerprint rendered a r σ := by
  have hstart : Start ns name m fingerprint rendered (r.begun fingerprint) := .again hh hnot
  have htidy' := htidy.begun fingerprint
  obtain ⟨record', m₁, es₁, es₂, h₁, rfl, h₂⟩ | ⟨e, h₁, rfl⟩ := Session.runs_bind.1 h
  · obtain ⟨-, e, he⟩ | ⟨hes, ⟨-, e, he⟩ | ⟨hh', _, ⟨rfl⟩, hin'⟩⟩ := runs_begin hh hin h₁
    · cases he
    · cases he
    · obtain ⟨σ, hpath, hlast, hok⟩ := runs_converge hkeys hdocs htidy' (Shown.of_runs h₁ hes hh'.stored)
        hh' hin' h₂
      exact .inr ⟨_, σ, hstart, hpath, hlast, hok⟩
  · obtain ⟨hes, -⟩ | ⟨hes, ⟨hstored, -⟩ | ⟨-, _, he, -⟩⟩ := runs_begin hh hin h₁
    · exact .inl ⟨hes, e, rfl⟩
    · exact .inr ⟨_, _, hstart, .refl, Shown.of_runs h₁ hes hstored, fun _ h => nomatch h⟩
    · cases he

end Apply

theorem Went.congr {m₁ : Memory} {fingerprint : String} {rendered : List Prepared}
    {a : Except Error ApplyReport} {r : RecordSpec} {σ : Pass} (hm : m₁.objects = m.objects)
    (h : Went ns name m₁ es m' fingerprint rendered a r σ) :
    Went ns name m es m' fingerprint rendered a r σ where
  start := by
    have hkey := Memory.object?_congr hm (recordKey ns name)
    cases h.start with
    | first hnone => exact .first (hkey.symm.trans hnone)
    | again hh hnot => exact .again (hh.congr hkey.symm) hnot
  path := hm ▸ h.path
  shown := hm ▸ h.shown
  finished := h.finished

/-- Every run of an apply does nothing, finds its render applied, or goes the path of a pass. -/
theorem runs_apply {render : Renderer} {spec : ManifestSpec} {owner : Option OwnerReference}
    {a : Except Error ApplyReport} (horderly : Orderly ns name done m)
    (hleaves : LeavesRecord render ns name spec) (h : (apply render ns name spec owner).Runs m es a m') :
    (Idle es ∧ ∃ e, a = .error e)
      ∨ ∃ bytes rendered, render spec.url spec.patches spec.images = .ok bytes
        ∧ prepare bytes ns name = .ok rendered
        ∧ ((∃ r, Current ns name m (Manifest.fingerprint bytes) rendered a r ∧ es = []
              ∧ m'.objects = m.objects)
          ∨ ∃ r σ, Went ns name m es m' (Manifest.fingerprint bytes) rendered a r σ) := by
  obtain ⟨rfl, hfail⟩ | ⟨bytes, rendered, hbytes, hrendered, hproceeds⟩ := runs_apply_cases h
  · exact .inl ⟨fun _ => rfl, hfail⟩
  have hkeys := fun p hp => (of_prepare hrendered p hp).1
  have hdocs := fun p hp =>
    And.intro (of_prepare hrendered p hp).2 (hleaves bytes rendered hbytes hrendered p hp)
  cases hproceeds with
  | first hm _ hnone h =>
    obtain hidle | ⟨r, σ, hwent⟩ := runs_first hkeys hdocs ((Memory.object?_congr hm _).trans hnone) h
    · exact .inl hidle
    · exact .inr ⟨bytes, rendered, hbytes, hrendered, .inr ⟨r, σ, hwent.congr hm⟩⟩
  | @current o record ho hread hcurrent hes ha hm =>
    obtain ⟨hholds, -⟩ := horderly.holds_of_read ho hread
    exact .inr ⟨bytes, rendered, hbytes, hrendered,
      .inl ⟨record.spec.ledger, ⟨hholds, hcurrent, ha⟩, hes, hm⟩⟩
  | again hm _ ho hread hnot h =>
    obtain ⟨hholds, hin⟩ := horderly.holds_of_read ho hread
    obtain hidle | ⟨r, σ, hwent⟩ := runs_again hkeys hdocs (hholds.congr (Memory.object?_congr hm _)) hin
      (horderly.of_holds hholds).1 hnot h
    · exact .inl hidle
    · exact .inr ⟨bytes, rendered, hbytes, hrendered, .inr ⟨r, σ, hwent.congr hm⟩⟩

/-! ## Removing -/

/-- Deletions of tracked objects leave nothing where they have a deed. -/
theorem runs_removeTracked {ts : List Tracked} {a : Except Error Nat} (h : (removeTracked ts).Runs m es a m')
    (s : Slot) :
    Event.lastLeft? es s = none ∨ Event.lastLeft? es s = some none ∧ ∃ t ∈ ts, t.slot = s := by
  induction ts generalizing a m m' es with
  | nil =>
    obtain ⟨rfl, -, -⟩ := h
    exact .inl rfl
  | cons t ts ih =>
    have hdelete : ∀ {es₁ : List Event} {b : Except Error Bool} {m₁ : Memory},
        (Session.removeIfExists (Key.ofTracked t) .background).Runs m es₁ b m₁ →
        Event.lastLeft? es₁ s = none
          ∨ Event.lastLeft? es₁ s = some none ∧ ∃ u ∈ t :: ts, u.slot = s := by
      intro es₁ b m₁ h₁
      obtain ⟨rfl, -, -⟩ | ⟨rfl, -, -⟩ := Session.runs_removeIfExists h₁
      · exact .inl rfl
      · by_cases hs : t.slot = s
        · subst hs
          exact .inr ⟨Event.lastLeft?_concat_self [] ⟨t.slot, none⟩, t, List.mem_cons_self, rfl⟩
        · exact .inl (Event.lastLeft?_concat_ne (d := ⟨t.slot, none⟩) hs [])
    obtain ⟨existed, m₁, es₁, es₂, h₁, rfl, h₂⟩ | ⟨e, h₁, rfl⟩ := Session.runs_bind.1 h
    · have hmore : Event.lastLeft? es₂ s = none
          ∨ Event.lastLeft? es₂ s = some none ∧ ∃ u ∈ t :: ts, u.slot = s := by
        obtain ⟨more, m₂, es₃, es₄, h₃, rfl, rfl, -, -⟩ | ⟨e, h₃, rfl⟩ := Session.runs_bind.1 h₂
        · rw [List.append_nil]
          exact (ih h₃).imp_right fun ⟨hn, u, hu, hs⟩ => ⟨hn, u, List.mem_cons_of_mem t hu, hs⟩
        · exact (ih h₃).imp_right fun ⟨hn, u, hu, hs⟩ => ⟨hn, u, List.mem_cons_of_mem t hu, hs⟩
      rw [Event.lastLeft?_append]
      obtain hnone | ⟨hsome, ht⟩ := hmore
      · rw [hnone]
        exact hdelete h₁
      · rw [hsome]
        exact .inr ⟨rfl, ht⟩
    · exact hdelete h₁

/-- A removal that found its record. -/
structure Removal (ns name : String) (m : Memory) (es : List Event) (r : RecordSpec) : Prop where
  holds : Holds ns name m r
  deleted : ∀ s ≠ own ns name, Event.lastLeft? es s = none
    ∨ Event.lastLeft? es s = some none ∧ ∃ t ∈ r.objects, t.slot = s

/-- Deleting the record touches nothing else, and the record is gone unless that fails with no deed. -/
theorem runs_removeRecord {a : Except Error Bool}
    (h : (Session.removeIfExists (recordKey ns name) .background).Runs m es a m') :
    (∀ s ≠ own ns name, Event.lastLeft? es s = none)
      ∧ (m'.object? (recordKey ns name) = none
        ∨ Event.lastLeft? es (own ns name) = none ∧ ∃ e, a = .error e) := by
  obtain ⟨rfl, hm, ⟨-, hgone⟩ | hfail⟩ | ⟨rfl, hm, -⟩ := Session.runs_removeIfExists h
  · exact ⟨fun _ _ => rfl, .inl ((Memory.object?_congr hm _).trans hgone)⟩
  · exact ⟨fun _ _ => rfl, .inr ⟨rfl, hfail⟩⟩
  · exact ⟨fun s hs => lastLeft?_single_ne hs, .inl (Memory.object?_of_erase hm)⟩

/-- A removal has no record to go by or fails with no deed, or it deletes what the record tracks, and the
record last. -/
theorem runs_remove {a : Except Error Nat} (horderly : Orderly ns name done m)
    (h : (remove ns name).Runs m es a m') :
    (Idle es ∧ ∀ n, a = .ok n → m'.object? (recordKey ns name) = none)
      ∨ ∃ r, Removal ns name m es r
        ∧ (m'.object? (recordKey ns name) = none
          ∨ Event.lastLeft? es (own ns name) = none ∧ ∃ e, a = .error e) := by
  obtain ⟨found, m₁, _, es₂, h₁, rfl, h₂⟩ | ⟨e, h₁, rfl⟩ := Session.runs_bind.1 h
  swap
  · obtain ⟨rfl, -, -, -⟩ := runs_record? h₁
    exact .inl ⟨fun _ => rfl, fun _ h => nomatch h⟩
  obtain ⟨rfl, hm, hnone, hsome⟩ := runs_record? h₁
  cases found with
  | none =>
    obtain ⟨rfl, rfl, rfl⟩ := h₂
    exact .inl ⟨fun _ => rfl, fun _ _ => (Memory.object?_congr hm _).trans (hnone rfl)⟩
  | some record =>
    obtain ⟨o, ho, hread⟩ := hsome record rfl
    obtain ⟨hholds, -⟩ := horderly.holds_of_read ho hread
    have hapart := (horderly.of_holds hholds).1.apart
    -- the tracked objects are not the record, so that the record is still there after them
    have hrecord : ∀ {es₁ : List Event} {b : Except Error Nat} {m₂ : Memory},
        (removeTracked record.spec.objects).Runs m₁ es₁ b m₂ →
        Event.lastLeft? es₁ (own ns name) = none := by
      intro es₁ b m₂ h₁
      obtain hnone | ⟨-, t, ht, hslot⟩ := runs_removeTracked h₁ (own ns name)
      · exact hnone
      · exact absurd hslot (hapart t ht)
    refine .inr ⟨record.spec.ledger, ?_⟩
    obtain ⟨deleted, m₂, es₃, es₄, h₃, rfl, h₄⟩ | ⟨e, h₃, rfl⟩ := Session.runs_bind.1 h₂
    · have hdeleted : ∀ {fs : List Event}, (∀ s ≠ own ns name, Event.lastLeft? fs s = none) →
          Removal ns name m ([] ++ (es₃ ++ fs)) record.spec.ledger := by
        intro fs hfs
        refine ⟨hholds, fun s hs => ?_⟩
        rw [List.nil_append, Event.lastLeft?_append, hfs s hs]
        exact runs_removeTracked h₃ s
      obtain ⟨_, m₃, es₅, es₆, h₅, rfl, rfl, rfl, rfl⟩ | ⟨e, h₅, rfl⟩ := Session.runs_bind.1 h₄
      · obtain ⟨hfs, hgone | ⟨-, e, he⟩⟩ := runs_removeRecord h₅
        · rw [List.append_nil]
          exact ⟨hdeleted hfs, .inl hgone⟩
        · cases he
      · obtain ⟨hfs, hgone | ⟨hnodeed, -⟩⟩ := runs_removeRecord h₅
        · exact ⟨hdeleted hfs, .inl hgone⟩
        · refine ⟨hdeleted hfs, .inr ⟨?_, e, rfl⟩⟩
          rw [List.nil_append, Event.lastLeft?_append, hnodeed]
          exact hrecord h₃
    · exact ⟨⟨hholds, fun s _ => runs_removeTracked h₃ s⟩, .inr ⟨hrecord h₃, e, rfl⟩⟩

/-! ## Trying again -/

theorem identity_eq_ok {metadata : Metadata} (hns : metadata.ns = some ns)
    (hname : metadata.name = some name) : identity metadata = .ok (ns, name) := by
  unfold identity
  rw [hns, hname]

/-- Noting the time on a component writes to the component only. -/
theorem runs_stamp {now : Instant} {report : ApplyReport} {a : Except Error ApplyReport}
    (h : (do
      let live ← manifestAddons.ofObject (← Session.require (manifestAddons.key ns name))
      let _ ← Session.replace (manifestAddons.toObject (stampRetry now live))
      return report : Session ApplyReport).Runs m es a m') {s : Slot} (hs : s.kind ≠ "ManifestAddon") :
    Event.lastLeft? es s = none := by
  obtain ⟨o, m₁, es₁, es₂, h₁, rfl, h₂⟩ | ⟨e, h₁, rfl⟩ := Session.runs_bind.1 h
  swap
  · obtain ⟨rfl, -, -⟩ := Session.runs_require h₁
    rfl
  obtain ⟨rfl, -, -⟩ := Session.runs_require h₁
  obtain ⟨live, -, h₃⟩ | ⟨e, -, rfl, -, -⟩ := Session.runs_lift_bind.1 h₂
  swap
  · rfl
  have hreplace : ∀ {fs : List Event} {b : Except Error Object} {m₂ : Memory},
      (Session.replace (manifestAddons.toObject (stampRetry now live))).Runs m₁ fs b m₂ →
      Event.lastLeft? fs s = none := by
    intro fs b m₂ h
    obtain ⟨rfl, -, -⟩ | ⟨k, _, stored, hk, -, -, -, rfl, -, -⟩ := Session.runs_replace h
    · rfl
    · refine lastLeft?_single_ne fun hslot => hs ?_
      cases hn : live.metadata.name with
      | none =>
        unfold Object.key ResourceKind.toObject at hk
        dsimp only [stampRetry, Metadata.truncateTimes] at hk
        rw [hn] at hk
        cases hk
      | some name =>
        have hkey := ResourceKind.key_toObject (k := manifestAddons) (r := stampRetry now live) hn
        rw [hkey] at hk
        rw [hslot, ← Except.ok.inj hk]
        rfl
  obtain ⟨_, m₂, es₃, es₄, h₄, rfl, rfl, -, -⟩ | ⟨e, h₄, rfl⟩ := Session.runs_bind.1 h₃
  · rw [List.append_nil]
    exact hreplace h₄
  · exact hreplace h₄

/-- Trying again is a removal and then an apply, after which nothing is written but to the component. -/
theorem runs_retry {now : Instant} {render : Renderer} {addon : ManifestAddon}
    {owner : Option OwnerReference} {a : Except Error ApplyReport}
    (hid : identity addon.metadata = .ok (ns, name))
    (h : (retry now render addon owner).Runs m es a m') :
    (∃ e, (remove ns name).Runs m es (.error e) m')
      ∨ ∃ n b m₁ m₂ es₁ es₂ es₃, (remove ns name).Runs m es₁ (.ok n) m₁
        ∧ (apply render ns name addon.spec owner).Runs m₁ es₂ b m₂ ∧ es = es₁ ++ (es₂ ++ es₃)
        ∧ (∀ s : Slot, s.kind ≠ "ManifestAddon" → Event.lastLeft? es₃ s = none)
        ∧ ∀ s, m'.objects.find? s = after m₂.objects.find? es₃ s := by
  obtain ⟨id, hid', h⟩ | ⟨e, he, -⟩ := Session.runs_lift_bind.1 h
  swap
  · cases hid.symm.trans he
  obtain rfl := Except.ok.inj (hid.symm.trans hid')
  obtain ⟨n, m₁, es₁, es₂, h₁, rfl, h₂⟩ | ⟨e, h₁, rfl⟩ := Session.runs_bind.1 h
  swap
  · exact .inl ⟨e, h₁⟩
  obtain ⟨report, m₂, es₃, es₄, h₃, rfl, h₄⟩ | ⟨e, h₃, rfl⟩ := Session.runs_bind.1 h₂
  · exact .inr ⟨n, _, m₁, m₂, es₁, es₃, es₄, h₁, h₃, rfl, fun s hs => runs_stamp h₄ hs, h₄.find?⟩
  · exact .inr ⟨n, _, m₁, m', es₁, es₂, [], h₁, h₃, by rw [List.append_nil], fun _ _ => rfl, fun _ => rfl⟩

/-! ## Any call -/

/-- A call of a component, with whatever comes of it. -/
inductive Call (ns name : String) (m : Memory) (es : List Event) (m' : Memory) : Prop
  | apply {render : Renderer} {spec : ManifestSpec} {owner : Option OwnerReference}
      {a : Except Error ApplyReport} : LeavesRecord render ns name spec →
      (apply render ns name spec owner).Runs m es a m' → Call ns name m es m'
  | remove {a : Except Error Nat} : (Bundle.remove ns name).Runs m es a m' → Call ns name m es m'
  | retry {now : Instant} {render : Renderer} {addon : ManifestAddon} {owner : Option OwnerReference}
      {a : Except Error ApplyReport} : identity addon.metadata = .ok (ns, name) →
      LeavesRecord render ns name addon.spec → (retry now render addon owner).Runs m es a m' →
      Call ns name m es m'

/-- Where something was done before or by some events. -/
def DoneBy (done : Slot → Prop) (es : List Event) (s : Slot) : Prop := done s ∨ Event.lastLeft? es s ≠ none

theorem DoneBy.append_right {es fs : List Event} {s : Slot} (h : DoneBy done es s) :
    DoneBy done (es ++ fs) s := by
  refine h.imp_right fun h hnone => h ?_
  rw [Event.lastLeft?_append, Option.or_eq_none_iff] at hnone
  exact hnone.2

theorem DoneBy.append {es fs : List Event} {s : Slot} (h : DoneBy (DoneBy done es) fs s) :
    DoneBy done (es ++ fs) s := by
  obtain h | h := h
  · exact h.append_right
  · refine .inr fun hnone => h ?_
    rw [Event.lastLeft?_append, Option.or_eq_none_iff] at hnone
    exact hnone.1

theorem Orderly.imp {done' : Slot → Prop} (h : Orderly ns name done m)
    (hkey : m'.object? (recordKey ns name) = m.object? (recordKey ns name))
    (hdone : ∀ s, done s → done' s) : Orderly ns name done' m' := by
  obtain hnone | ⟨r, hr, htidy, ht⟩ := h
  · exact .inl (hkey.trans hnone)
  · exact .inr ⟨r, hr.congr hkey, htidy, fun t h => hdone _ (ht t h)⟩

/-- A call from which nothing comes keeps the order. -/
theorem Orderly.idle {α : Type} {s : Session α} {a : Except Error α} (h : Orderly ns name done m)
    (hrun : s.Runs m es a m') (hes : Idle es) : Orderly ns name (DoneBy done es) m' :=
  h.imp (object?_of_lastLeft? hrun (hes _)) fun _ => .inl

theorem Went.orderly {fingerprint : String} {rendered : List Prepared} {a : Except Error ApplyReport}
    {r : RecordSpec} {σ : Pass} (hdocs : ∀ p ∈ rendered, p.tracked.Placed ∧ p.key.slot ≠ own ns name)
    (h : Orderly ns name done m) (hwent : Went ns name m es m' fingerprint rendered a r σ) :
    Orderly ns name (DoneBy done es) m' := by
  have htidy := hwent.start.tidy h
  have hplaced := fun p hp => (hdocs p hp).1
  have hsound := Sound.steps _ rendered r hplaced htidy.distinct htidy.placed hwent.path
  refine .inr ⟨σ.record, hwent.shown.record, hsound.tidy hdocs htidy, fun t ht => ?_⟩
  by_cases hold : t ∈ r.objects
  · refine .inl ?_
    cases hwent.start with
    | first _ => exact absurd hold List.not_mem_nil
    | again hr _ => exact (h.of_holds hr).2 t hold
  · have hne := (hsound.tidy hdocs htidy).apart t ht
    refine .inr ?_
    rw [hwent.shown.log _ hne]
    exact hsound.lastLeft?_ne_none hplaced ht hold

theorem orderly_apply {render : Renderer} {spec : ManifestSpec} {owner : Option OwnerReference}
    {a : Except Error ApplyReport} (h : Orderly ns name done m)
    (hleaves : LeavesRecord render ns name spec) (hrun : (apply render ns name spec owner).Runs m es a m') :
    Orderly ns name (DoneBy done es) m' := by
  obtain ⟨hidle, -⟩ | ⟨bytes, rendered, hbytes, hrendered, ⟨r, -, rfl, -⟩ | ⟨r, σ, hwent⟩⟩ :=
    runs_apply h hleaves hrun
  · exact h.idle hrun hidle
  · exact h.idle hrun fun _ => rfl
  · exact hwent.orderly (fun p hp =>
      ⟨(of_prepare hrendered p hp).2, hleaves bytes rendered hbytes hrendered p hp⟩) h

theorem orderly_remove {a : Except Error Nat} (h : Orderly ns name done m)
    (hrun : (remove ns name).Runs m es a m') : Orderly ns name (DoneBy done es) m' := by
  obtain ⟨hidle, -⟩ | ⟨r, -, hgone | ⟨hnone, -⟩⟩ := runs_remove h hrun
  · exact h.idle hrun hidle
  · exact .inl hgone
  · exact h.imp (object?_of_lastLeft? hrun hnone) fun _ => .inl

/-- Whatever comes of a call, the record stays in order. -/
theorem Call.orderly (hcall : Call ns name m es m') (h : Orderly ns name done m) :
    Orderly ns name (DoneBy done es) m' := by
  cases hcall with
  | apply hleaves hrun => exact orderly_apply h hleaves hrun
  | remove hrun => exact orderly_remove h hrun
  | retry hid hleaves hrun =>
    obtain ⟨e, hrun⟩ | ⟨n, b, m₁, m₂, es₁, es₂, es₃, h₁, h₂, rfl, hes₃, hm'⟩ := runs_retry hid hrun
    · exact orderly_remove h hrun
    · have horderly := orderly_apply (orderly_remove h h₁) hleaves h₂
      have hown : m'.object? (recordKey ns name) = m₂.object? (recordKey ns name) := by
        show m'.objects.find? _ = _
        rw [hm', after, hes₃ _ (show "ManifestRecord" ≠ "ManifestAddon" by decide)]
        rfl
      refine horderly.imp hown fun s hs => ?_
      rw [← List.append_assoc]
      exact (DoneBy.append hs).append_right

/-- A store whose record, where there is one, only the calls of its component have written. Anyone may have
changed anything else at any time. -/
inductive Kept (ns name : String) : Memory → Prop
  | absent {m : Memory} : m.object? (recordKey ns name) = none → Kept ns name m
  | others {m m' : Memory} : Kept ns name m →
      m'.object? (recordKey ns name) = m.object? (recordKey ns name) → Kept ns name m'
  | call {m m' : Memory} {es : List Event} : Kept ns name m → Call ns name m es m' → Kept ns name m'

theorem Kept.orderly (h : Kept ns name m) : Orderly ns name (fun _ => True) m := by
  induction h with
  | absent hnone => exact .inl hnone
  | others _ hkey ih => exact ih.imp hkey fun _ => id
  | call _ hcall ih => exact (hcall.orderly ih).imp rfl fun _ _ => trivial

end Calls

end Bundle

end Addons
