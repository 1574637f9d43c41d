import Addons.Proofs.Bundle.Success

/-!
# What a successful apply leaves in its record

`apply_settles_iff`: after an apply that succeeds nothing is pending, and the record has the fingerprint of the
render, so that applying it once more writes nothing, unless the render is the one applied last and another was
pending (`Reverted`). Then the record has the fingerprint of the other, and applying the render once more
writes.

A render may hold the record of its own component. Where such a document was written over the record, what is
left is what the document says (`Prevails`).

The stores are in order (`Memory.Filed`), as every session leaves them.
-/

namespace Addons

namespace Digest

theorem hex_ne_empty {bytes : List UInt8} (h : bytes ≠ []) : hex bytes ≠ "" := by
  cases bytes with
  | nil => exact absurd rfl h
  | cons b bytes =>
    intro hhex
    have hlist := congrArg String.toList hhex
    unfold hex at hlist
    rw [String.toList_ofList] at hlist
    cases hlist

theorem sha256_ne_nil (bytes : List UInt8) : sha256 bytes ≠ [] := by
  unfold sha256
  dsimp only [List.flatMap_cons, bigEndian]
  intro h
  cases h

end Digest

theorem Manifest.fingerprint_ne_empty (rendered : ByteArray) : fingerprint rendered ≠ "" :=
  Digest.hex_ne_empty (Digest.sha256_ne_nil _)

namespace RecordSpec

/-- The record has a render as applied, and none as pending. -/
def Has (r : RecordSpec) (fingerprint : String) : Prop := r.checksum = fingerprint ∧ r.newChecksum = ""

/-- The record has a render as applied, and another as pending. -/
def Torn (r : RecordSpec) (fingerprint : String) : Prop :=
  r.checksum = fingerprint ∧ r.newChecksum ≠ "" ∧ r.newChecksum ≠ fingerprint

variable {r : RecordSpec} {fingerprint : String}

theorem isCurrent_iff {rendered : List Prepared} :
    r.isCurrent fingerprint (rendered.map Prepared.tracked)
      ↔ r.Has fingerprint ∧ ∀ p ∈ rendered, r.isTracked p.tracked := by
  unfold isCurrent Has
  rw [Bool.and_eq_true, Bool.and_eq_true, decide_eq_true_iff, String.isEmpty_iff, List.all_eq_true,
    List.forall_mem_map]

/-- Once a render has been noted, something is pending unless the record has the render. -/
theorem begun_newChecksum_iff (hne : fingerprint ≠ "") :
    (r.begun fingerprint).newChecksum = "" ↔ r.Has fingerprint := by
  unfold begun Has
  by_cases hc : r.checksum = fingerprint
  · simp [hc]
  · simp [hc, hne]

/-- What is promoted is the render that was noted, or the one that was pending over it. -/
theorem promote_begun_checksum_iff (hne : fingerprint ≠ "") :
    (r.begun fingerprint).promote.checksum = fingerprint ↔ ¬r.Torn fingerprint := by
  rw [promote_checksum]
  unfold begun Torn
  by_cases hc : r.checksum = fingerprint
  · by_cases hn : r.newChecksum = ""
    · simp [hc, hn]
    · simp [hc, hn]
  · simp [hc, hne]

end RecordSpec

namespace Bundle

/-- The stored record has a render as applied, and another as pending. -/
def Reverted (ns name : String) (m : Memory) (fingerprint : String) : Prop :=
  ∃ s ∈ recordSpec? ns name m, s.Torn fingerprint

section Settle

variable {ns name : String} {m m' : Memory} {es : List Event} {fingerprint : String}

theorem reverted_iff {s : RecordSpec} (h : recordSpec? ns name m = some s) :
    Reverted ns name m fingerprint ↔ s.Torn fingerprint := by
  unfold Reverted
  simp [h]

theorem not_reverted_of_none (h : m.object? (recordKey ns name) = none) :
    ¬Reverted ns name m fingerprint := by
  unfold Reverted recordSpec?
  simp [h]

theorem recordSpec?_congr (h : m'.objects = m.objects) : recordSpec? ns name m' = recordSpec? ns name m := by
  unfold recordSpec?
  rw [Memory.object?_congr h]

/-! ## Applying -/

/-- What the record says when a pass begins, of the render and of what was stored. -/
structure Begun (ns name : String) (m : Memory) (fingerprint : String) (r : RecordSpec) : Prop where
  checksum : r.promote.checksum = fingerprint ↔ ¬Reverted ns name m fingerprint
  unpending : r.newChecksum = "" → ¬Reverted ns name m fingerprint

theorem Begun.first {r : RecordSpec} (hnone : m.object? (recordKey ns name) = none)
    (h : r.ledger = .fresh fingerprint) : Begun ns name m fingerprint r := by
  have hnot : ¬Reverted ns name m fingerprint := not_reverted_of_none hnone
  have hc : r.checksum = fingerprint := congrArg RecordSpec.checksum h
  have hn : r.newChecksum = "" := congrArg RecordSpec.newChecksum h
  refine ⟨iff_of_true ?_ hnot, fun _ => hnot⟩
  rw [RecordSpec.promote_checksum, if_pos hn, hc]

theorem Begun.again {r s : RecordSpec} (hne : fingerprint ≠ "") (hs : recordSpec? ns name m = some s)
    (h : r.ledger = s.ledger.begun fingerprint) : Begun ns name m fingerprint r := by
  have hc : r.checksum = (s.begun fingerprint).checksum := by
    show r.ledger.checksum = (s.ledger.begun fingerprint).checksum
    rw [h]
  have hn : r.newChecksum = (s.begun fingerprint).newChecksum := by
    show r.ledger.newChecksum = (s.ledger.begun fingerprint).newChecksum
    rw [h]
  refine ⟨?_, fun hempty => ?_⟩
  · rw [reverted_iff hs, ← RecordSpec.promote_begun_checksum_iff hne, RecordSpec.promote_checksum,
      RecordSpec.promote_checksum, hc, hn]
  · rw [reverted_iff hs]
    obtain ⟨-, hnone⟩ := (RecordSpec.begun_newChecksum_iff hne).1 (hn.symm.trans hempty)
    exact fun htorn => htorn.2.1 hnone

variable {render : Renderer} {spec : ManifestSpec} {owner : Option OwnerReference} {report : ApplyReport}

/-- An apply that succeeds found its render applied, or it came to the end of a pass. -/
theorem runs_apply_ok (hfiled : m.Filed) (h : (apply render ns name spec owner).Runs m es (.ok report) m') :
    ∃ bytes rendered, render spec.url spec.patches spec.images = .ok bytes
      ∧ prepare bytes ns name = .ok rendered
      ∧ ((report.changed = false ∧ m'.objects = m.objects ∧ ∃ s ∈ recordSpec? ns name m,
          s.isCurrent (Manifest.fingerprint bytes) (rendered.map Prepared.tracked))
        ∨ report.changed = true ∧ ∃ r record, Begun ns name m (Manifest.fingerprint bytes) r
          ∧ Ended ns name m' rendered r record) := by
  obtain ⟨-, e, he⟩ | ⟨bytes, rendered, hbytes, hrendered, hproceeds⟩ := runs_apply_cases h
  · cases he
  refine ⟨bytes, rendered, hbytes, hrendered, ?_⟩
  have hkeys := fun p hp => (of_prepare hrendered p hp).1
  cases hproceeds with
  | first hm hfiled₁ hnone h =>
    obtain ⟨created, m₂, es₃, es₄, h₃, h₄⟩ := Session.runs_bind_ok h
    obtain ⟨record, hread, h₅⟩ | ⟨e, -, -, he, -⟩ := Session.runs_lift_bind.1 h₄
    swap
    · cases he
    obtain ⟨k, hk, ho, -, hm₂⟩ := Session.runs_createNew_ok h₃
    obtain rfl := Except.ok.inj ((ResourceKind.key_toObject rfl).symm.trans hk)
    have hfind := Memory.object?_of_insert hm₂
    obtain ⟨-, -, -, hledger⟩ := read_of_unstamped ho.unstamped hread
    obtain ⟨hchanged, record', hended⟩ := runs_converge_ok hkeys
      (.of_read (h₃.filed (hfiled₁ hfiled)) hfind hread) h₅
    exact .inr ⟨hchanged, _, record', .first hnone
      (hledger.trans (RecordSpec.ledger_ofSpec spec (Manifest.fingerprint bytes))), hended⟩
  | @current o record ho hread hcurrent _ ha hm =>
    obtain rfl := Except.ok.inj ha
    exact .inl ⟨rfl, hm, record.spec, recordSpec?_of_read ho hread, hcurrent⟩
  | again hm hfiled₁ ho hread hnot h =>
    obtain ⟨record₁, m₂, es₃, es₄, h₃, h₄⟩ := Session.runs_bind_ok h
    have hfollows := Follows.of_read (hfiled₁ hfiled) ((Memory.object?_congr hm _).trans ho) hread
    obtain ⟨hbegun, hledger⟩ := runs_begin_ok hfollows h₃
    obtain ⟨hchanged, record', hended⟩ := runs_converge_ok hkeys hbegun h₄
    exact .inr ⟨hchanged, _, record',
      .again (Manifest.fingerprint_ne_empty bytes) (recordSpec?_of_read ho hread) hledger, hended⟩

/-- At the end of a pass the stored record says what the document that was written over it last says, or has
its render tracked, nothing pending, and as applied what was promoted. -/
theorem Ended.recorded {rendered : List Prepared} {r : RecordSpec} {record : ManifestRecord}
    (h : Ended ns name m' rendered r record) :
    (∃ q, ownDoc? ns name rendered = some q ∧ recordSpec? ns name m' = says? q.object)
      ∨ ownDoc? ns name rendered = none ∧ ∃ s, recordSpec? ns name m' = some s
        ∧ s.checksum = r.promote.checksum ∧ s.newChecksum = ""
        ∧ ∀ p ∈ rendered, s.isTracked p.tracked := by
  obtain ⟨⟨-, ⟨o, ho, hstands⟩, -, -, -⟩, hchecksum, hnew, htracked, -⟩ := h
  have hheld : recordSpec? ns name m' = says? o := by
    unfold recordSpec?
    rw [ho]
    rfl
  cases hown : ownDoc? ns name rendered with
  | some q =>
    rw [hown] at hstands
    refine .inl ⟨q, rfl, hheld.trans ?_⟩
    unfold says?
    rw [hstands.2]
  | none =>
    rw [hown] at hstands
    obtain ⟨s, hs, hledger⟩ := Option.map_eq_some_iff.1 hstands.2
    refine .inr ⟨rfl, s, hheld.trans hs, ?_, ?_, fun p hp => ?_⟩
    · rw [← hchecksum]
      show s.ledger.checksum = record.spec.ledger.checksum
      rw [hledger]
    · rw [← hnew]
      show s.ledger.newChecksum = record.spec.ledger.newChecksum
      rw [hledger]
    · show s.ledger.isTracked p.tracked
      rw [hledger]
      exact htracked p hp

/-! ## Applying once more -/

/-- An apply whose render the record has as applied asks for no change, whatever comes of it. -/
theorem runs_of_current {a : Except Error ApplyReport} {bytes : ByteArray} {rendered : List Prepared}
    {s : RecordSpec} (hbytes : render spec.url spec.patches spec.images = .ok bytes)
    (hprepare : prepare bytes ns name = .ok rendered) (hs : recordSpec? ns name m = some s)
    (hcurrent : s.isCurrent (Manifest.fingerprint bytes) (rendered.map Prepared.tracked))
    (h : (apply render ns name spec owner).Runs m es a m') : es = [] := by
  obtain ⟨hes, -⟩ | ⟨_, _, hb, hp, hproceeds⟩ := runs_apply_cases h
  · exact hes
  obtain rfl := Except.ok.inj (hbytes.symm.trans hb)
  obtain rfl := Except.ok.inj (hprepare.symm.trans hp)
  cases hproceeds with
  | first _ _ hnone _ =>
    obtain ⟨o, ho, -⟩ := Option.bind_eq_some_iff.1 hs
    rw [hnone] at ho
    cases ho
  | current _ _ _ hes _ _ => exact hes
  | again _ _ ho hread hnot _ =>
    obtain rfl := Option.some.inj ((recordSpec?_of_read ho hread).symm.trans hs)
    exact absurd hcurrent hnot

/-- Every save asks for a change. -/
theorem not_runs_save {record record' : ManifestRecord} : ¬(save record).Runs m [] (.ok record') m' := by
  intro h
  obtain ⟨stored, m₁, h₁, -⟩ := Session.runs_bind_silent h
  obtain ⟨_, _, -, -, -, -, hes, -⟩ := Session.runs_replace_ok h₁
  cases hes

theorem not_runs_createNew {o stored : Object} : ¬(Session.createNew o).Runs m [] (.ok stored) m' := by
  intro h
  obtain ⟨_, -, -, hes, -⟩ := Session.runs_createNew_ok h
  cases hes

/-- A pass asks for a change unless it has no document to write and nothing pending. -/
theorem runs_converge_silent {record : ManifestRecord} {rendered : List Prepared}
    (hkeys : ∀ p ∈ rendered, p.object.key = .ok p.key)
    (h : (converge record fingerprint rendered).Runs m [] (.ok report) m') :
    rendered = [] ∧ record.spec.newChecksum = "" := by
  obtain ⟨record₁, m₁, h₁, h₂⟩ := Session.runs_bind_silent h
  cases rendered with
  | cons p ps =>
    obtain ⟨⟨⟩, m₂, h₃, -⟩ := Session.runs_bind_silent h₁
    obtain ⟨-, e, he⟩ | ⟨live, hlanded⟩ := runs_createOrAdopt (hkeys p List.mem_cons_self) h₃
    · cases he
    · have hleft := (hlanded.left p.key.slot).trans (Event.lastLeft?_concat_self [] ⟨p.key.slot, some live⟩)
      cases hleft
  | nil =>
    obtain ⟨-, ⟨rfl⟩, rfl⟩ := h₁
    obtain ⟨record₂, m₂, h₃, h₄⟩ := Session.runs_bind_silent h₂
    obtain ⟨record₃, m₃, h₅, -⟩ := Session.runs_bind_silent h₄
    have hsame : record₂ = record := by
      generalize record.spec.stale _ = ts at h₃
      cases ts with
      | nil =>
        obtain ⟨-, ⟨rfl⟩, -⟩ := h₃
        rfl
      | cons t ts =>
        obtain ⟨_, m₄, -, h₆⟩ := Session.runs_bind_silent h₃
        obtain ⟨_, m₅, h₇, -⟩ := Session.runs_bind_silent h₆
        exact absurd h₇ not_runs_save
    refine ⟨rfl, ?_⟩
    by_contra hne
    rw [hsame] at h₅
    unfold settle at h₅
    rw [if_pos (show record.spec.isPending by unfold RecordSpec.isPending; simpa using hne)] at h₅
    exact not_runs_save h₅

/-- An apply that succeeds without asking for a change has its render as applied. -/
theorem current_of_runs {bytes : ByteArray} {rendered : List Prepared}
    (hbytes : render spec.url spec.patches spec.images = .ok bytes)
    (hprepare : prepare bytes ns name = .ok rendered)
    (h : (apply render ns name spec owner).Runs m [] (.ok report) m') :
    ∃ s ∈ recordSpec? ns name m,
      s.isCurrent (Manifest.fingerprint bytes) (rendered.map Prepared.tracked) := by
  obtain ⟨-, e, he⟩ | ⟨_, _, hb, hp, hproceeds⟩ := runs_apply_cases h
  · cases he
  obtain rfl := Except.ok.inj (hbytes.symm.trans hb)
  obtain rfl := Except.ok.inj (hprepare.symm.trans hp)
  cases hproceeds with
  | first _ _ _ h =>
    obtain ⟨_, _, h₃, -⟩ := Session.runs_bind_silent h
    exact absurd h₃ not_runs_createNew
  | @current o record ho hread hcurrent _ _ _ => exact ⟨record.spec, recordSpec?_of_read ho hread, hcurrent⟩
  | @again m₁ o record _ _ _ _ hnot h =>
    obtain ⟨record₁, m₂, h₃, h₄⟩ := Session.runs_bind_silent h
    obtain ⟨rfl, hempty⟩ := runs_converge_silent (fun p hp => (of_prepare hprepare p hp).1) h₄
    unfold begin at h₃
    by_cases hsame : (record.spec.beginChange (Manifest.fingerprint bytes) spec).same record.spec
    · rw [if_pos hsame] at h₃
      obtain ⟨-, ⟨rfl⟩, -⟩ := h₃
      have hhas := (RecordSpec.begun_newChecksum_iff (Manifest.fingerprint_ne_empty bytes)).1 hempty
      exact absurd (RecordSpec.isCurrent_iff.2 ⟨hhas, fun p hp => absurd hp List.not_mem_nil⟩) hnot
    · rw [if_neg hsame] at h₃
      exact absurd h₃ not_runs_save

/-! ## What is left -/

/-- The render that is applied is not one that another was pending over, and the document that is written over
the record, if there is one, says what is wanted. -/
def Prevails (ns name : String) (m : Memory) (fingerprint : String) (rendered : List Prepared)
    (changed : Bool) (wanted : RecordSpec → Prop) : Prop :=
  ¬Reverted ns name m fingerprint
    ∧ (changed = true → ∀ q ∈ ownDoc? ns name rendered, ∃ s ∈ says? q.object, wanted s)

/-- What the record says after a successful apply, for all that amounts to its fingerprint where nothing is
pending and the render is tracked. -/
theorem recorded_iff {bytes : ByteArray} {rendered : List Prepared} {wanted : RecordSpec → Prop}
    (hbytes : render spec.url spec.patches spec.images = .ok bytes)
    (hprepare : prepare bytes ns name = .ok rendered) (hfiled : m.Filed)
    (hwanted : ∀ s : RecordSpec, s.newChecksum = "" → (∀ p ∈ rendered, s.isTracked p.tracked) →
      (wanted s ↔ s.checksum = Manifest.fingerprint bytes))
    (h : (apply render ns name spec owner).Runs m es (.ok report) m') :
    (∃ s ∈ recordSpec? ns name m', wanted s)
      ↔ Prevails ns name m (Manifest.fingerprint bytes) rendered report.changed wanted := by
  unfold Prevails
  obtain ⟨_, _, hb, hp, ⟨hunchanged, hm, s, hs, hcurrent⟩ | ⟨hchanged, r, record, hbegun, hended⟩⟩ :=
    runs_apply_ok hfiled h
  · obtain rfl := Except.ok.inj (hbytes.symm.trans hb)
    obtain rfl := Except.ok.inj (hprepare.symm.trans hp)
    obtain ⟨⟨hc, hn⟩, htracked⟩ := RecordSpec.isCurrent_iff.1 hcurrent
    have hs' := (recordSpec?_congr hm).trans hs
    refine iff_of_true ⟨s, hs', (hwanted s hn htracked).2 hc⟩ ⟨?_, ?_⟩
    · rw [reverted_iff hs]
      exact fun htorn => htorn.2.1 hn
    · rw [hunchanged]
      exact fun h => absurd h Bool.false_ne_true
  · obtain rfl := Except.ok.inj (hbytes.symm.trans hb)
    obtain rfl := Except.ok.inj (hprepare.symm.trans hp)
    obtain ⟨q, hown, hheld⟩ | ⟨hown, s, hs, hc, hn, htracked⟩ := hended.recorded
    · -- a document was written over the record, so that nothing was pending
      have hnot := hbegun.unpending (hended.unpending (by rw [hown]; exact Option.some_ne_none q))
      rw [hheld, hown, hchanged]
      simp [hnot]
    · rw [hs, hown]
      have hiff := hwanted s hn htracked
      rw [hc, hbegun.checksum] at hiff
      simp [hiff]

/-- A successful apply leaves a record with its render as applied and none as pending, and then applying the
render once more asks for no change, exactly unless the render was the one applied last and another was
pending, or a document of the render was written over the record and does not say so. -/
theorem apply_settles_iff (hfiled : m.Filed)
    (h : (apply render ns name spec owner).Runs m es (.ok report) m') :
    ∃ bytes rendered, render spec.url spec.patches spec.images = .ok bytes
      ∧ prepare bytes ns name = .ok rendered
      ∧ ((∃ s ∈ recordSpec? ns name m', s.Has (Manifest.fingerprint bytes))
        ↔ Prevails ns name m (Manifest.fingerprint bytes) rendered report.changed
          fun s => s.Has (Manifest.fingerprint bytes))
      -- applying the render once more, whatever comes of it and if it succeeds
      ∧ ∀ render' spec' owner' m₁ es' a m₂, render' spec'.url spec'.patches spec'.images = .ok bytes →
        m₁.objects = m'.objects → (apply render' ns name spec' owner').Runs m₁ es' a m₂ →
        (Prevails ns name m (Manifest.fingerprint bytes) rendered report.changed
            (fun s => s.isCurrent (Manifest.fingerprint bytes) (rendered.map Prepared.tracked)) → es' = [])
          ∧ ((∃ report', a = .ok report') → es' = [] →
            Prevails ns name m (Manifest.fingerprint bytes) rendered report.changed
              fun s => s.isCurrent (Manifest.fingerprint bytes) (rendered.map Prepared.tracked)) := by
  obtain ⟨bytes, rendered, hbytes, hprepare, -⟩ := runs_apply_ok hfiled h
  have hcurrent : (∃ s ∈ recordSpec? ns name m',
        s.isCurrent (Manifest.fingerprint bytes) (rendered.map Prepared.tracked))
      ↔ Prevails ns name m (Manifest.fingerprint bytes) rendered report.changed
        fun s => s.isCurrent (Manifest.fingerprint bytes) (rendered.map Prepared.tracked) := by
    refine recorded_iff hbytes hprepare hfiled (fun s hn ht => ?_) h
    rw [RecordSpec.isCurrent_iff]
    exact ⟨fun h => h.1.1, fun hc => ⟨⟨hc, hn⟩, ht⟩⟩
  refine ⟨bytes, rendered, hbytes, hprepare, ?_, ?_⟩
  · exact recorded_iff hbytes hprepare hfiled (fun s hn _ => ⟨fun h => h.1, fun hc => ⟨hc, hn⟩⟩) h
  intro render' spec' owner' m₁ es' a m₂ hbytes' hm h'
  rw [← hcurrent, ← recordSpec?_congr hm]
  constructor
  · rintro ⟨s, hs, hc⟩
    exact runs_of_current hbytes' hprepare hs hc h'
  · rintro ⟨report', rfl⟩ rfl
    exact current_of_runs hbytes' hprepare h'

end Settle

/-! ## Two levels of one bundle -/

/-- The render of an address is the address. -/
def echo : Renderer := fun url _ _ => .ok url.toUTF8

def levelOne : ManifestSpec := { url := "apiVersion: v1\nkind: ConfigMap\nmetadata: \x7bname: a\x7d\nx: 1" }

def levelTwo : ManifestSpec := { url := "apiVersion: v1\nkind: ConfigMap\nmetadata: \x7bname: a\x7d\nx: 2" }

/-- An empty store; the first update of a config map will fail. -/
def bare : Host := { memory := { failures := [(.update, "ConfigMap")], now := default } }

def applied (spec : ManifestSpec) (h : Host) : Except Error ApplyReport × Host :=
  (apply echo "default" "metrics" spec none).run h

theorem leavesRecord_echo {ns name : String} {spec : ManifestSpec}
    (h : (((prepare spec.url.toUTF8 ns name).toOption.getD []).all fun p => p.key.slot != own ns name)
      = true) : LeavesRecord echo ns name spec := by
  intro bytes rendered hbytes hprepare p hp
  obtain rfl := Except.ok.inj hbytes
  rw [hprepare] at h
  exact bne_iff_ne.1 (List.all_eq_true.1 h p hp)

theorem levelOne_leavesRecord : LeavesRecord echo "default" "metrics" levelOne :=
  leavesRecord_echo (by decide +kernel)

theorem levelTwo_leavesRecord : LeavesRecord echo "default" "metrics" levelTwo :=
  leavesRecord_echo (by decide +kernel)

theorem runs_applied (spec : ManifestSpec) (h : Host) :
    ∃ es, (apply echo "default" "metrics" spec none).Runs h.memory es (applied spec h).1
      (applied spec h).2.memory := Session.runs_run _ h

section Levels

-- an apply to a given store is run by the kernel only
attribute [local irreducible] apply

theorem bare_filed : bare.memory.Filed := .of_nil rfl

theorem first_apply_settles :
    ∃ s ∈ recordSpec? "default" "metrics" (applied levelOne bare).2.memory,
      s.Has (Manifest.fingerprint levelOne.url.toUTF8) := by
  have hchecked : ((applied levelOne bare).1.toOption.any fun _ => true) = true
      ∧ ((prepare levelOne.url.toUTF8 "default" "metrics").toOption.any fun rendered =>
        (ownDoc? "default" "metrics" rendered).isNone) = true := by
    decide +kernel
  obtain ⟨hok, hdocs⟩ := hchecked
  obtain ⟨report, hreport, -⟩ := ok_of_any hok
  obtain ⟨es, h⟩ := runs_applied levelOne bare
  rw [hreport] at h
  obtain ⟨bytes, rendered, hbytes, hprepare, hiff, -⟩ := apply_settles_iff bare_filed h
  obtain rfl := Except.ok.inj hbytes
  obtain ⟨_, hprepare', hnone⟩ := ok_of_any hdocs
  obtain rfl := Except.ok.inj (hprepare.symm.trans hprepare')
  refine hiff.2 ⟨not_reverted_of_none rfl, fun _ q hq => ?_⟩
  rw [Option.isNone_iff_eq_none.1 hnone] at hq
  cases hq

/-- The first level is applied, the second is cut short, and the first is applied again. -/
def revertedApply : Except Error ApplyReport × Host :=
  applied levelOne (applied levelTwo (applied levelOne bare).2).2

/-- A level that is applied again while the other is pending succeeds, and its record has the fingerprint of
the other. -/
theorem reverted_apply_unsettled :
    ∃ m es report, m.Filed ∧ m = (applied levelTwo (applied levelOne bare).2).2.memory
      ∧ (apply echo "default" "metrics" levelOne none).Runs m es (.ok report) revertedApply.2.memory
      ∧ ¬∃ s ∈ recordSpec? "default" "metrics" revertedApply.2.memory,
        s.Has (Manifest.fingerprint levelOne.url.toUTF8) := by
  have hchecked : (revertedApply.1.toOption.any fun _ => true) = true
      ∧ ((recordSpec? "default" "metrics" revertedApply.2.memory).any fun s =>
        s.checksum == Manifest.fingerprint levelOne.url.toUTF8) = false := by
    decide +kernel
  obtain ⟨hok, hnot⟩ := hchecked
  obtain ⟨report, hreport, -⟩ := ok_of_any hok
  obtain ⟨es₁, h₁⟩ := runs_applied levelOne bare
  obtain ⟨es₂, h₂⟩ := runs_applied levelTwo (applied levelOne bare).2
  obtain ⟨es₃, h₃⟩ := runs_applied levelOne (applied levelTwo (applied levelOne bare).2).2
  rw [show (applied levelOne (applied levelTwo (applied levelOne bare).2).2).1 = _ from hreport] at h₃
  refine ⟨_, es₃, report, h₂.filed (h₁.filed bare_filed), rfl, h₃, ?_⟩
  rintro ⟨s, hs, hhas⟩
  have hne := (Option.any_eq_false ..).1 hnot s hs
  rw [hhas.1, beq_self_eq_true] at hne
  cases hne

end Levels

end Bundle

end Addons
