import Addons.Proofs.Bundle.Calls
import Addons.Proofs.Store.Filed

/-!
# Passes that succeed

A render may hold the record of its own component. Such a document is written over the record, under a version
that the pass does not know, so that the pass cannot save its record any more. A pass that succeeds leaves its
record, or the document that it wrote over it last (`Follows`, `runs_converge_ok`).
-/

namespace Addons

/-- Another record has the same fingerprints, and tracks what this one does but for some objects. -/
structure RecordSpec.Keeps (r r' : RecordSpec) (but : List Tracked) : Prop where
  checksum : r'.checksum = r.checksum
  newChecksum : r'.newChecksum = r.newChecksum
  tracked : ∀ u, (∀ t ∈ but, ¬t.sameIdentity u) → r.isTracked u → r'.isTracked u

namespace RecordSpec.Keeps

variable {r r' r'' : RecordSpec} {t : Tracked} {but : List Tracked}

theorem refl (r : RecordSpec) (but : List Tracked) : r.Keeps r but := ⟨rfl, rfl, fun _ _ h => h⟩

theorem trans (h : r.Keeps r' but) (h' : r'.Keeps r'' but) : r.Keeps r'' but where
  checksum := h'.checksum.trans h.checksum
  newChecksum := h'.newChecksum.trans h.newChecksum
  tracked := fun u hu ht => h'.tracked u hu (h.tracked u hu ht)

theorem track (h : r'.ledger = (r.track t).ledger) : r.Keeps r' [] where
  checksum := show r'.ledger.checksum = (r.track t).ledger.checksum by rw [h]
  newChecksum := show r'.ledger.newChecksum = (r.track t).ledger.newChecksum by rw [h]
  tracked := by
    intro u _ hu
    show r'.ledger.isTracked u
    rw [h]
    exact RecordSpec.isTracked_track.2 (.inr hu)

theorem untrack (h : r'.ledger = (r.untrack t).ledger) (ht : t ∈ but) : r.Keeps r' but where
  checksum := show r'.ledger.checksum = (r.untrack t).ledger.checksum by rw [h]
  newChecksum := show r'.ledger.newChecksum = (r.untrack t).ledger.newChecksum by rw [h]
  tracked := by
    intro u hbut hu
    show r'.ledger.isTracked u
    rw [h]
    exact RecordSpec.isTracked_untrack.2 ⟨hbut t ht, hu⟩

end RecordSpec.Keeps

namespace Bundle

/-- What an object says as a record. -/
def says? (o : Object) : Option RecordSpec := (Table.find? o.data "spec").bind RecordSpec.ofJson?

/-- What the stored record of a component says. -/
def recordSpec? (ns name : String) (m : Memory) : Option RecordSpec :=
  (m.object? (recordKey ns name)).bind says?

/-- The last document in the place of the record of the component. -/
def ownDoc? (ns name : String) (rendered : List Prepared) : Option Prepared :=
  rendered.reverse.find? fun p => p.key.slot = own ns name

theorem ownDoc?_cons_or (ns name : String) (p : Prepared) (ps : List Prepared) (cover : Option Prepared) :
    (ownDoc? ns name (p :: ps)).or cover
      = (ownDoc? ns name ps).or (if p.key.slot = own ns name then some p else cover) := by
  unfold ownDoc?
  rw [List.reverse_cons, List.find?_append, Option.or_assoc, List.find?_singleton]
  by_cases h : p.key.slot = own ns name
  · simp [h]
  · simp [h]

theorem says?_of_read {o : Object} {record : ManifestRecord} (h : manifestRecords.ofObject o = .ok record) :
    says? o = some record.spec := by
  obtain ⟨-, j, hj, hspec⟩ := ResourceKind.ofObject_eq_ok h
  exact Option.bind_eq_some_iff.2 ⟨j, hj, hspec⟩

theorem recordSpec?_of_read {ns name : String} {m : Memory} {o : Object} {record : ManifestRecord}
    (ho : m.object? (recordKey ns name) = some o) (hread : manifestRecords.ofObject o = .ok record) :
    recordSpec? ns name m = some record.spec := by
  unfold recordSpec?
  rw [ho]
  exact says?_of_read hread

/-- How a record in hand stands to the stored object: it is stored so, or a document has been written over it
since. -/
def Stands (record : ManifestRecord) (o : Object) : Option Prepared → Prop
  | none => o.metadata.resourceVersion = record.metadata.resourceVersion
    ∧ (says? o).map RecordSpec.ledger = some record.spec.ledger
  | some q => o.metadata.resourceVersion ≠ record.metadata.resourceVersion ∧ o.data = q.object.data

/-- A record that a pass has in hand, and the document that has been written over it. -/
structure Follows (ns name : String) (m : Memory) (record : ManifestRecord) (cover : Option Prepared) :
    Prop where
  filed : m.Filed
  stored : ∃ o, m.object? (recordKey ns name) = some o ∧ Stands record o cover
  dated : ∃ n ≤ m.version, record.metadata.resourceVersion = some (Memory.versionText n)
  name : record.metadata.name = some name
  ns : record.metadata.ns.getD "" = ns

section Single

variable {ns name : String} {m m' : Memory} {es : List Event} {record record' : ManifestRecord}
variable {cover : Option Prepared}

/-- The record that a store has, as it is read. -/
theorem Follows.of_read {o : Object} (hfiled : m.Filed) (ho : m.object? (recordKey ns name) = some o)
    (hread : manifestRecords.ofObject o = .ok record) : Follows ns name m record none := by
  obtain ⟨hmeta, -⟩ := ResourceKind.ofObject_eq_ok hread
  obtain ⟨hname, hns, hversion⟩ := Metadata.ofJson?_toJson hmeta
  obtain ⟨k, hk, hslot⟩ := hfiled.key_of_find? ho
  obtain ⟨n, hn, ho'⟩ := hfiled.version_of_find? ho
  obtain ⟨-, hkname, hkns⟩ := Object.of_key_eq_ok hk
  obtain ⟨-, -, hs, hnm⟩ := Slot.mk.inj hslot
  refine ⟨hfiled, ⟨o, ho, hversion.symm, ?_⟩, ⟨n, hn, hversion.trans ho'⟩, ?_, ?_⟩
  · rw [says?_of_read hread]
    rfl
  · rw [hname, hkname]
    exact congrArg some hnm
  · rw [hns, hkns]
    exact hs

/-- The store may change where the record is not. -/
theorem Follows.congr (h : Follows ns name m record cover) (hfiled : m'.Filed) (hv : m.version ≤ m'.version)
    (ho : m'.object? (recordKey ns name) = m.object? (recordKey ns name)) :
    Follows ns name m' record cover := by
  obtain ⟨n, hn, hversion⟩ := h.dated
  obtain ⟨o, hfound, hstands⟩ := h.stored
  exact ⟨hfiled, ⟨o, ho.trans hfound, hstands⟩, ⟨n, hn.trans hv, hversion⟩, h.name, h.ns⟩

/-- A record that was saved has replaced one of the same version, and is the stored one. -/
theorem runs_save_ok {s : RecordSpec} (hfiled : m.Filed) (hname : record.metadata.name = some name)
    (hns : record.metadata.ns.getD "" = ns) (h : (save { record with spec := s }).Runs m es (.ok record') m') :
    es ≠ [] ∧ (∃ live, m.object? (recordKey ns name) = some live
        ∧ live.metadata.resourceVersion = record.metadata.resourceVersion)
      ∧ Follows ns name m' record' none ∧ record'.spec.ledger = s.ledger := by
  have hfiled' := h.filed hfiled
  obtain ⟨stored, m₁, es₁, es₂, h₁, rfl, rfl, hread, rfl⟩ | ⟨e, -, he⟩ := Session.runs_bind.1 h
  swap
  · cases he
  obtain ⟨k, live, hk, hlive, hversion, ho, rfl, hm⟩ := Session.runs_replace_ok h₁
  have hkey := ResourceKind.key_toObject (k := manifestRecords) (r := { record with spec := s }) hname
  obtain rfl := Except.ok.inj (hkey.symm.trans hk)
  have hslot : Key.slot ⟨manifestRecords.type, record.metadata.ns, name⟩ = own ns name := by
    subst hns
    rfl
  have hread : manifestRecords.ofObject stored = .ok record' := hread.symm
  obtain ⟨-, -, -, hledger⟩ := read_of_unstamped ho.unstamped hread
  refine ⟨List.cons_ne_nil _ _, ⟨live, ?_, hversion⟩, Follows.of_read hfiled' ?_ hread, hledger⟩
  · rw [← hlive]
    exact congrArg m.objects.find? hslot.symm
  · rw [hslot] at hm
    exact Memory.object?_of_insert hm

/-- A pass that saves its record has not written over it. -/
theorem Follows.save {s : RecordSpec} (h : Follows ns name m record cover)
    (hrun : (save { record with spec := s }).Runs m es (.ok record') m') :
    cover = none ∧ Follows ns name m' record' none ∧ record'.spec.ledger = s.ledger := by
  obtain ⟨-, ⟨live, hlive, hversion⟩, hsaved⟩ := runs_save_ok h.filed h.name h.ns hrun
  obtain ⟨o, ho, hstands⟩ := h.stored
  rw [ho] at hlive
  obtain rfl := Option.some.inj hlive
  cases cover with
  | none => exact ⟨rfl, hsaved⟩
  | some q => exact absurd hversion hstands.1

/-- A document that was written is written over the record where it is in its place. -/
theorem Follows.createOrAdopt {p : Prepared} (h : Follows ns name m record cover)
    (hkey : p.object.key = .ok p.key) (hrun : (createOrAdopt p).Runs m es (.ok ()) m') :
    es ≠ [] ∧ Follows ns name m' record (if p.key.slot = own ns name then some p else cover) := by
  obtain ⟨-, e, he⟩ | ⟨live, hcarries, ⟨n, hn, hversion⟩, hleft⟩ := runs_createOrAdopt hkey hrun
  · cases he
  have hthere : Event.lastLeft? es p.key.slot = some (some live) :=
    (hleft _).trans (Event.lastLeft?_concat_self [] ⟨p.key.slot, some live⟩)
  refine ⟨?_, ?_⟩
  · rintro rfl
    cases hthere
  have hfiled := hrun.filed h.filed
  by_cases hown : p.key.slot = own ns name
  · rw [if_pos hown]
    obtain ⟨k, hk, hrecord⟩ := h.dated
    refine ⟨hfiled, ⟨live, ?_, ?_, hcarries.data⟩, ⟨k, hk.trans hrun.version_le, hrecord⟩, h.name, h.ns⟩
    · show m'.objects.find? (own ns name) = _
      rw [hrun.find?, ← hown, hthere]
      rfl
    · rw [hversion, hrecord]
      intro heq
      have hnk := Memory.versionText_injective (Option.some.inj heq)
      omega
  · rw [if_neg hown]
    refine h.congr hfiled hrun.version_le (object?_of_lastLeft? hrun ?_)
    exact (hleft _).trans (lastLeft?_single_ne (Ne.symm hown))

end Single

/-! ## Loops -/

section Loops

variable {ns name : String} {m m' : Memory} {es : List Event} {record record' : ManifestRecord}
variable {cover : Option Prepared}

/-- Writing and tracking documents leaves the record, or the last document in its place. -/
theorem runs_applyAll_ok {ps : List Prepared} (hkeys : ∀ p ∈ ps, p.object.key = .ok p.key)
    (h : Follows ns name m record cover) (hrun : (applyAll record ps).Runs m es (.ok record') m') :
    Follows ns name m' record' ((ownDoc? ns name ps).or cover) ∧ record.spec.Keeps record'.spec []
      ∧ ∀ p ∈ ps, record'.spec.isTracked p.tracked := by
  induction ps generalizing m es record cover with
  | nil =>
    obtain ⟨rfl, ⟨rfl⟩, rfl⟩ := hrun
    exact ⟨h, .refl _ _, fun p hp => absurd hp List.not_mem_nil⟩
  | cons p ps ih =>
    have hrest := fun q hq => hkeys q (List.mem_cons_of_mem p hq)
    obtain ⟨⟨⟩, m₁, es₁, es₂, h₁, h₂⟩ := Session.runs_bind_ok hrun
    obtain ⟨-, hwritten⟩ := h.createOrAdopt (hkeys p List.mem_cons_self) h₁
    rw [ownDoc?_cons_or]
    by_cases hexact : record.spec.tracksExactly p.tracked
    · rw [if_pos hexact] at h₂
      obtain ⟨hfollows, hkeeps, hall⟩ := ih hrest hwritten h₂
      refine ⟨hfollows, hkeeps, fun q hq => ?_⟩
      rcases List.mem_cons.1 hq with rfl | hq
      · refine hkeeps.tracked _ (fun t ht => absurd ht List.not_mem_nil) ?_
        rw [RecordSpec.isTracked_eq, RecordSpec.tracksExactly_iff.1 hexact]
        rfl
      · exact hall q hq
    · rw [if_neg hexact] at h₂
      obtain ⟨record₂, m₂, es₃, es₄, h₃, h₄⟩ := Session.runs_bind_ok h₂
      obtain ⟨hnone, hsaved, hledger⟩ := hwritten.save h₃
      obtain ⟨hfollows, hkeeps, hall⟩ := ih hrest hsaved h₄
      rw [hnone]
      refine ⟨hfollows, (RecordSpec.Keeps.track hledger).trans hkeeps, fun q hq => ?_⟩
      rcases List.mem_cons.1 hq with rfl | hq
      · refine hkeeps.tracked _ (fun t ht => absurd ht List.not_mem_nil) ?_
        show record₂.spec.ledger.isTracked q.tracked
        rw [hledger]
        exact RecordSpec.isTracked_track.2 (.inl (Tracked.sameIdentity_refl _))
      · exact hall q hq

/-- Deleting and forgetting stale objects forgets these only. -/
theorem runs_prune_ok {ts but : List Tracked} (hbut : ts ⊆ but) (h : Follows ns name m record cover)
    (hrun : (prune record ts).Runs m es (.ok record') m') :
    Follows ns name m' record' cover ∧ record.spec.Keeps record'.spec but := by
  induction ts generalizing m es record cover with
  | nil =>
    obtain ⟨rfl, ⟨rfl⟩, rfl⟩ := hrun
    exact ⟨h, .refl _ _⟩
  | cons t ts ih =>
    obtain ⟨ht, hrest⟩ := List.cons_subset.1 hbut
    obtain ⟨_, m₁, es₁, es₂, h₁, h₂⟩ := Session.runs_bind_ok hrun
    obtain ⟨record₂, m₂, es₃, es₄, h₃, h₄⟩ := Session.runs_bind_ok h₂
    obtain ⟨-, ⟨live, hlive, hversion⟩, hsaved, hledger⟩ := runs_save_ok (h₁.filed h.filed) h.name h.ns h₃
    -- the record that was replaced is the one that was there before the deletion
    have hsame : m.object? (recordKey ns name) = some live := by
      obtain ⟨-, hm, -⟩ | ⟨-, hm, -⟩ := Session.runs_removeIfExists h₁
      · exact (Memory.object?_congr hm _).symm.trans hlive
      · unfold Memory.object? at hlive ⊢
        rw [hm, Table.find?_erase] at hlive
        split at hlive
        · cases hlive
        · exact hlive
    obtain ⟨o, ho, hstands⟩ := h.stored
    rw [ho] at hsame
    obtain rfl := Option.some.inj hsame
    cases cover with
    | some q => exact absurd hversion hstands.1
    | none =>
      obtain ⟨hfollows, hkeeps⟩ := ih hrest hsaved h₄
      exact ⟨hfollows, (RecordSpec.Keeps.untrack hledger ht).trans hkeeps⟩

/-- A pass that has something pending ends with a save. -/
theorem runs_settle_ok (h : Follows ns name m record cover)
    (hrun : (settle record).Runs m es (.ok record') m') :
    Follows ns name m' record' cover ∧ record'.spec.ledger = record.spec.promote.ledger
      ∧ (record.spec.isPending → cover = none) := by
  unfold settle at hrun
  by_cases hp : record.spec.isPending
  · rw [if_pos hp] at hrun
    obtain ⟨rfl, hsaved, hledger⟩ := h.save hrun
    exact ⟨hsaved, hledger, fun _ => rfl⟩
  · rw [if_neg hp] at hrun
    obtain ⟨rfl, ⟨rfl⟩, rfl⟩ := hrun
    refine ⟨h, ?_, fun h => absurd h hp⟩
    unfold RecordSpec.promote
    rw [if_neg hp]

/-- Noting a render leaves a record that says it. -/
theorem runs_begin_ok {spec : ManifestSpec} {fingerprint : String} (h : Follows ns name m record none)
    (hrun : (begin record spec fingerprint).Runs m es (.ok record') m') :
    Follows ns name m' record' none ∧ record'.spec.ledger = record.spec.ledger.begun fingerprint := by
  unfold begin at hrun
  by_cases hsame : (record.spec.beginChange fingerprint spec).same record.spec
  · rw [if_pos hsame] at hrun
    obtain ⟨rfl, ⟨rfl⟩, rfl⟩ := hrun
    have hledger := RecordSpec.ledger_of_same hsame
    obtain ⟨o, ho, hversion, hheld⟩ := h.stored
    exact ⟨⟨h.filed, ⟨o, ho, hversion, by rw [hheld, ← hledger]⟩, h.dated, h.name, h.ns⟩, rfl⟩
  · rw [if_neg hsame] at hrun
    obtain ⟨-, hsaved, hledger⟩ := h.save hrun
    exact ⟨hsaved, hledger⟩

/-- What a pass that succeeds has in hand at its end: a record with nothing pending and all of the render
tracked, that is stored unless a document has been written over it. -/
structure Ended (ns name : String) (m' : Memory) (rendered : List Prepared) (r : RecordSpec)
    (record : ManifestRecord) : Prop where
  follows : Follows ns name m' record (ownDoc? ns name rendered)
  checksum : record.spec.checksum = r.promote.checksum
  newChecksum : record.spec.newChecksum = ""
  tracked : ∀ p ∈ rendered, record.spec.isTracked p.tracked
  unpending : ownDoc? ns name rendered ≠ none → r.newChecksum = ""

theorem runs_converge_ok {fingerprint : String} {rendered : List Prepared} {report : ApplyReport}
    (hkeys : ∀ p ∈ rendered, p.object.key = .ok p.key) (h : Follows ns name m record none)
    (hrun : (converge record fingerprint rendered).Runs m es (.ok report) m') :
    report.changed = true ∧ ∃ record', Ended ns name m' rendered record.spec record' := by
  obtain ⟨record₁, m₁, es₁, es₂, h₁, h₂⟩ := Session.runs_bind_ok hrun
  obtain ⟨hwritten, hkeeps₁, hall⟩ := runs_applyAll_ok hkeys h h₁
  rw [Option.or_none] at hwritten
  obtain ⟨record₂, m₂, es₃, es₄, h₃, h₄⟩ := Session.runs_bind_ok h₂
  obtain ⟨hpruned, hkeeps₂⟩ := runs_prune_ok (List.Subset.refl _) hwritten h₃
  obtain ⟨record₃, m₃, es₅, es₆, h₅, h₆⟩ := Session.runs_bind_ok h₄
  obtain ⟨hsettled, hledger, hpending⟩ := runs_settle_ok hpruned h₅
  obtain ⟨-, ⟨rfl⟩, rfl⟩ := h₆
  have hchecksum := hkeeps₂.checksum.trans hkeeps₁.checksum
  have hnew := hkeeps₂.newChecksum.trans hkeeps₁.newChecksum
  refine ⟨rfl, record₃, hsettled, ?_, ?_, fun p hp => ?_, fun hown => ?_⟩
  · show record₃.spec.ledger.checksum = _
    rw [hledger]
    show record₂.spec.promote.checksum = _
    rw [RecordSpec.promote_checksum, RecordSpec.promote_checksum, hchecksum, hnew]
  · show record₃.spec.ledger.newChecksum = _
    rw [hledger]
    exact RecordSpec.promote_newChecksum record₂.spec
  · -- what is rendered is not stale
    have hrendered : record₂.spec.isTracked p.tracked := by
      refine hkeeps₂.tracked _ (fun t ht hsame => ?_) (hall p hp)
      exact (RecordSpec.mem_stale.1 ht).2 _ (List.mem_map_of_mem hp) (Tracked.sameIdentity_symm hsame)
    show record₃.spec.ledger.isTracked p.tracked
    rw [hledger]
    unfold RecordSpec.promote
    split
    · exact hrendered
    · exact hrendered
  · by_contra hne
    refine hown (hpending ?_)
    unfold RecordSpec.isPending
    rw [hnew]
    simpa using hne

end Loops

end Bundle

end Addons
