import Addons.Proofs.Bundle.Settled

/-!
# What a changing apply leaves in the store

`changing_apply_converges`: after an apply that reports a change, every rendered identity is in the store as its
last document asks for (`Realises`), the record tracks exactly the rendered identities, what was tracked before
and is not rendered is gone, and the report counts what was done.
-/

namespace Addons.Bundle

/-- An object is what a document of a component asks for: its type and fields are those of the document, and
so are its labels but for the two of the component. -/
def Realises (name : String) (doc : Json) (live : Object) : Prop :=
  ∃ o, Object.ofDocument doc = .ok o ∧ live.type = o.type ∧ live.data = o.data
    ∧ ∀ k, live.metadata.label? k = if k = managedByLabel then some managedBy
      else if k = manifestLabel then some name else o.metadata.label? k

/-- What the stored record of a component tracks. -/
def trackedIn (ns name : String) (m : Memory) : List Tracked :=
  match m.object? (recordKey ns name) with
  | some o =>
    match manifestRecords.ofObject o with
    | .ok record => record.spec.objects
    | .error _ => []
  | none => []

theorem trackedIn_eq_of_object? {ns name : String} {m m' : Memory}
    (h : m'.object? (recordKey ns name) = m.object? (recordKey ns name)) :
    trackedIn ns name m' = trackedIn ns name m := by
  unfold trackedIn
  rw [h]

theorem labels_eq (name : String) :
    labels name = [(managedByLabel, managedBy), (manifestLabel, name)] := by
  have hne : manifestLabel ≠ managedByLabel := by decide
  have hlt : ¬manifestLabel < managedByLabel := by decide
  unfold labels Table.ofList
  simp only [List.foldl_cons, List.foldl_nil, Table.insert, if_neg hne, if_neg hlt]

/-- The labels of a component win over those of a document. -/
theorem find?_addLabels (own : Option (Table String String)) (name k : String) :
    ((Prepared.addLabels own (labels name)).bind fun t => t.find? k)
      = if k = managedByLabel then some managedBy else if k = manifestLabel then some name
        else own.bind fun t => t.find? k := by
  unfold Prepared.addLabels
  rw [labels_eq]
  show Table.find? (Table.union (own.getD []) _) k = _
  rw [Table.find?_union, Table.lookup_reverse (by simp [managedByLabel, manifestLabel]), List.lookup_cons,
    List.lookup_cons]
  by_cases hmanaged : k = managedByLabel
  · rw [if_pos hmanaged, beq_iff_eq.2 hmanaged]
    rfl
  · rw [if_neg hmanaged, beq_eq_false_iff_ne.2 hmanaged]
    by_cases hmanifest : k = manifestLabel
    · rw [if_pos hmanifest, beq_iff_eq.2 hmanifest]
      rfl
    · rw [if_neg hmanifest, beq_eq_false_iff_ne.2 hmanifest]
      cases own <;> rfl

theorem realises_of_carries {name : String} {doc : Json} {p : Prepared} {live : Object}
    (hof : p.Of doc (labels name)) (h : live.Carries p) : Realises name doc live := by
  obtain ⟨o, ho, htype, hdata, hlabels⟩ := hof.document
  refine ⟨o, ho, h.type.trans htype, h.data.trans hdata, fun k => ?_⟩
  unfold Metadata.label?
  rw [h.labels, hlabels]
  exact find?_addLabels o.metadata.labels name k

section Changed

variable {ns name : String} {m m' : Memory} {es : List Event} {r : RecordSpec} {fingerprint : String}
variable {rendered : List Prepared} {a : Except Error ApplyReport} {σ : Pass} {report : ApplyReport}

theorem trackedIn_of_holds (h : Holds ns name m r) : trackedIn ns name m = r.objects := by
  obtain ⟨o, record, ho, hread, hin⟩ := h
  unfold trackedIn
  rw [ho]
  dsimp only
  rw [hread, ← hin.ledger]
  rfl

/-- A pass begins with what the stored record tracks. -/
theorem Start.objects (h : Start ns name m fingerprint rendered r) : r.objects = trackedIn ns name m := by
  cases h with
  | first hnone =>
    unfold trackedIn
    rw [hnone]
    rfl
  | again hh _ => exact (trackedIn_of_holds hh).symm

/-- What the pass of an apply keeps to. -/
theorem Went.sound {done : Slot → Prop} (horderly : Orderly ns name done m)
    (hplaced : ∀ p ∈ rendered, p.tracked.Placed) (h : Went ns name m es m' fingerprint rendered a r σ) :
    Sound m.objects.find? rendered r σ :=
  Sound.steps _ rendered r hplaced (h.start.tidy horderly).distinct (h.start.tidy horderly).placed h.path

/-- The last document of a rendered identity is in its place. -/
theorem Went.landed (h : Went ns name m es m' fingerprint rendered a r σ)
    (hsound : Sound m.objects.find? rendered r σ)
    (hdocs : ∀ p ∈ rendered, p.tracked.Placed ∧ p.key.slot ≠ own ns name) (hdone : σ.phase = .done)
    {p : Prepared} (hp : p ∈ rendered) :
    ∃ q live, lastOf rendered p.tracked = some q ∧ m'.object? p.key = some live ∧ live.Carries q := by
  obtain ⟨q, hq⟩ := exists_lastOf hp
  have hqm := mem_of_lastOf hq
  obtain ⟨live, hlive, hlog⟩ := hsound.landed p.tracked q (by rw [hdone]; exact hq)
  have hslot : p.tracked.slot = q.tracked.slot :=
    (Tracked.slot_eq_of_sameIdentity (hdocs q hqm).1 (hdocs p hp).1 (sameIdentity_of_lastOf hq)).symm
  refine ⟨q, live, hq, ?_, hlive⟩
  show m'.objects.find? p.tracked.slot = some live
  rw [hslot, Prepared.slot_tracked, h.shown.find? (hdocs q hqm).2]
  unfold after
  rw [hlog]
  rfl

/-- What was tracked and is not rendered is gone. -/
theorem Went.absent (h : Went ns name m es m' fingerprint rendered a r σ)
    (hsound : Sound m.objects.find? rendered r σ) (htidy : r.Tidy (own ns name)) (hdone : σ.phase = .done)
    {t : Tracked} (ht : t ∈ trackedIn ns name m) (hnot : ∀ p ∈ rendered, ¬p.tracked.sameIdentity t) :
    m'.object? (Key.ofTracked t) = none := by
  rw [← h.start.objects] at ht
  show m'.objects.find? t.slot = none
  rw [h.shown.find? (htidy.apart t ht)]
  refine hsound.absent t (RecordSpec.mem_stale.2 ⟨ht, ?_⟩) ?_
  · rw [List.forall_mem_map]
    exact hnot
  · rw [hdone]
    exact List.not_mem_nil

/-- After a pass the record tracks exactly what was rendered. -/
theorem Sound.isTracked_iff {shelf : Slot → Option Object} (h : Sound shelf rendered r σ)
    (hdone : σ.phase = .done) (t : Tracked) :
    σ.record.isTracked t ↔ ∃ p ∈ rendered, p.tracked.sameIdentity t := by
  have hentry : σ.record.held? t = (lastOf rendered t).map Prepared.tracked := by
    rw [h.entries, hdone]
    rfl
  rw [RecordSpec.isTracked_eq, hentry, Option.isSome_map]
  cases hl : lastOf rendered t with
  | none =>
    refine iff_of_false Bool.false_ne_true ?_
    rintro ⟨p, hp, hpt⟩
    exact lastOf_eq_none.1 hl p hp hpt
  | some q => exact iff_of_true rfl ⟨q, mem_of_lastOf hl, sameIdentity_of_lastOf hl⟩

variable {render : Renderer} {spec : ManifestSpec} {owner : Option OwnerReference}

/-- A changing apply brings the store in line with its render. -/
theorem changing_apply_converges (hkept : Kept ns name m) (hleaves : LeavesRecord render ns name spec)
    (h : (apply render ns name spec owner).Runs m es (.ok report) m') (hchanged : report.changed = true) :
    ∃ bytes source docs rendered o record,
      render spec.url spec.patches spec.images = .ok bytes ∧ prepare bytes ns name = .ok rendered
      ∧ Text.ofUtf8 bytes = .ok source ∧ Manifest.parseDocuments source = .ok docs
      ∧ List.Forall₂ (fun doc p => p.Of doc (labels name)) docs rendered
      ∧ m'.object? (recordKey ns name) = some o ∧ manifestRecords.ofObject o = .ok record
      -- every rendered identity is there as its last document asks for
      ∧ (∀ p ∈ rendered, ∃ q doc live, lastOf rendered p.tracked = some q ∧ doc ∈ docs
        ∧ q.Of doc (labels name) ∧ m'.object? p.key = some live ∧ Realises name doc live)
      -- the record tracks exactly the rendered identities, each once
      ∧ (record.spec.objects.Pairwise fun t u => ¬t.sameIdentity u)
      ∧ (∀ t, record.spec.isTracked t ↔ ∃ p ∈ rendered, p.tracked.sameIdentity t)
      -- what was tracked before and is not rendered is gone
      ∧ (∀ t ∈ trackedIn ns name m, (∀ p ∈ rendered, ¬p.tracked.sameIdentity t) →
        m'.object? (Key.ofTracked t) = none)
      ∧ report.objects = record.spec.objects ∧ report.applied = docs.length
      ∧ report.pruned
        = ((trackedIn ns name m).filter fun t => !rendered.any fun p => p.tracked.sameIdentity t).length := by
  have horderly := hkept.orderly
  obtain ⟨-, e, he⟩ | ⟨bytes, rendered, hbytes, hrendered, ⟨r, hcurrent, -⟩ | ⟨r, σ, hwent⟩⟩ :=
    runs_apply horderly hleaves h
  · cases he
  · obtain rfl := Except.ok.inj hcurrent.report
    cases hchanged
  have hdocs := fun p hp =>
    And.intro (of_prepare hrendered p hp).2 (hleaves bytes rendered hbytes hrendered p hp)
  have htidy := hwent.start.tidy horderly
  have hsound := hwent.sound horderly fun p hp => (hdocs p hp).1
  obtain ⟨hdone, ⟨o, record, ho, hread, hin⟩, hreport⟩ := hwent.finished report rfl
  obtain ⟨source, docs, hsource, hparse, hall⟩ := prepare_eq_ok hrendered
  have hobjects : record.spec.objects = σ.record.objects := by
    rw [← hin.ledger]
    rfl
  refine ⟨bytes, source, docs, rendered, o, record, hbytes, hrendered, hsource, hparse, hall, ho, hread, ?_,
    ?_, ?_, fun t => hwent.absent hsound htidy hdone, ?_, ?_, ?_⟩
  · intro p hp
    obtain ⟨q, live, hq, hlive, hcarries⟩ := hwent.landed hsound hdocs hdone hp
    obtain ⟨doc, hdoc, hof⟩ := exists_of_mem hall (mem_of_lastOf hq)
    exact ⟨q, doc, live, hq, hdoc, hof, hlive, realises_of_carries hof hcarries⟩
  · rw [hobjects]
    exact hsound.distinct
  · intro t
    rw [← hsound.isTracked_iff hdone t, ← hin.ledger]
    rfl
  · rw [hreport, hobjects]
  · rw [hreport]
    exact hall.length_eq.symm
  · rw [hreport, ← hwent.start.objects]
    show (r.stale (rendered.map Prepared.tracked)).length = _
    unfold RecordSpec.stale
    simp only [List.any_map]
    rfl

end Changed

section Levels

attribute [local irreducible] apply

theorem first_apply_converges :
    ∃ report o record, (applied levelOne bare).1 = .ok report ∧ report.changed = true
      ∧ (applied levelOne bare).2.memory.object? (recordKey "default" "metrics") = some o
      ∧ manifestRecords.ofObject o = .ok record ∧ report.objects = record.spec.objects := by
  have hchecked : ((applied levelOne bare).1.toOption.any fun report => report.changed) = true := by
    decide +kernel
  obtain ⟨report, hreport, hchanged⟩ := ok_of_any hchecked
  obtain ⟨es, h⟩ := runs_applied levelOne bare
  rw [hreport] at h
  obtain ⟨_, _, _, _, o, record, -, -, -, -, -, ho, hread, -, -, -, -, hobjects, -⟩ :=
    changing_apply_converges (.absent rfl) levelOne_leavesRecord h hchanged
  exact ⟨report, o, record, hreport, hchanged, ho, hread, hobjects⟩

end Levels

end Addons.Bundle
