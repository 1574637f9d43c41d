import Addons.Proofs.Bundle.Pass
import Addons.Proofs.Resource.Reading
import Addons.Proofs.Store.Filed

/-!
# Runs of a pass

Every run of `Bundle.converge`, faults and all, goes a path of steps (`runs_converge`): the record that is
stored, the deeds outside of it and the record in hand are those of the pass where it stops, and a run that
gets to its end has come to the end of the pass.
-/

namespace Addons.Bundle

section Own

variable (ns name : String)

/-- The place of the record of a component. -/
abbrev own : Slot := (recordKey ns name).slot

/-- A record as a client has it: that of the component, and what it says. -/
structure InHand (record : ManifestRecord) (r : RecordSpec) : Prop where
  name : record.metadata.name = some name
  ns : record.metadata.ns = some ns
  ledger : record.spec.ledger = r

/-- Whoever reads the record from an object finds this. -/
def Tells (o : Object) (r : RecordSpec) : Prop :=
  ∀ record, manifestRecords.ofObject o = .ok record → InHand ns name record r

/-- The stored record says this, if it can be read. -/
def Stored (m : Memory) (r : RecordSpec) : Prop :=
  ∃ o, m.object? (recordKey ns name) = some o ∧ Tells ns name o r

/-- The stored record can be read, and says this. -/
def Holds (m : Memory) (r : RecordSpec) : Prop :=
  ∃ o record, m.object? (recordKey ns name) = some o ∧ manifestRecords.ofObject o = .ok record
    ∧ InHand ns name record r

/-- How a store came from a shelf by events, and what it says of a pass. -/
structure Shown (shelf : Slot → Option Object) (es : List Event) (m : Memory) (r : RecordSpec)
    (log : List Event) : Prop where
  record : Stored ns name m r
  log : ∀ s ≠ own ns name, Event.lastLeft? es s = Event.lastLeft? log s
  store : ∀ s, m.objects.find? s = after shelf es s

/-- A pass that has come to its end, from a record `r`. -/
structure Finished (rendered : List Prepared) (r : RecordSpec) (fingerprint : String) (m : Memory)
    (σ : Pass) (report : ApplyReport) : Prop where
  phase : σ.phase = .done
  holds : Holds ns name m σ.record
  report : report = {
    fingerprint, changed := true, applied := rendered.length
    pruned := (r.stale (rendered.map Prepared.tracked)).length, objects := σ.record.objects }

end Own

variable {ns name : String} {m m' : Memory} {es : List Event} {r : RecordSpec} {record : ManifestRecord}

theorem Holds.stored (h : Holds ns name m r) : Stored ns name m r := by
  obtain ⟨o, record, ho, hr, hin⟩ := h
  refine ⟨o, ho, fun record' hr' => ?_⟩
  rw [hr] at hr'
  obtain rfl := Except.ok.inj hr'
  exact hin

theorem Holds.unique {s : RecordSpec} (h : Holds ns name m r) (h' : Holds ns name m s) : r = s := by
  obtain ⟨o, record, ho, hread, hin⟩ := h'
  obtain ⟨o', ho', htells⟩ := h.stored
  rw [ho] at ho'
  obtain rfl := Option.some.inj ho'
  rw [← (htells record hread).ledger, hin.ledger]

theorem Stored.congr (h : m'.object? (recordKey ns name) = m.object? (recordKey ns name))
    (hs : Stored ns name m r) : Stored ns name m' r := by
  obtain ⟨o, ho, ht⟩ := hs
  exact ⟨o, h.trans ho, ht⟩

theorem Holds.congr (h : m'.object? (recordKey ns name) = m.object? (recordKey ns name))
    (hs : Holds ns name m r) : Holds ns name m' r := by
  obtain ⟨o, record, ho, hr⟩ := hs
  exact ⟨o, record, h.trans ho, hr⟩

/-- A record that was written is read as it was written, with the version that the store gave it. -/
theorem read_of_unstamped {o : Object} {read : ManifestRecord}
    (h : o.unstamped = (manifestRecords.toObject record).unstamped) (hread : manifestRecords.ofObject o = .ok read) :
    read.metadata.name = record.metadata.name ∧ read.metadata.ns = record.metadata.ns
      ∧ read.metadata.resourceVersion = o.metadata.resourceVersion
      ∧ read.spec.ledger = record.spec.ledger := by
  obtain ⟨hmeta, j, hj, hspec⟩ := ResourceKind.ofObject_eq_ok hread
  obtain ⟨hname, hns, hversion⟩ := Metadata.ofJson?_toJson hmeta
  rw [Object.data_of_unstamped h, ResourceKind.find?_toObject] at hj
  obtain rfl := Option.some.inj hj
  obtain ⟨hc, hn, ho⟩ := RecordSpec.ofJson?_toJson hspec
  exact ⟨hname.trans (Object.name_of_unstamped h), hns.trans (Object.ns_of_unstamped h), hversion,
    RecordSpec.ledger_eq hc hn ho⟩

theorem tells_of_unstamped {o : Object} (hin : InHand ns name record r)
    (h : o.unstamped = (manifestRecords.toObject record).unstamped) : Tells ns name o r := by
  intro read hread
  obtain ⟨hname, hns, -, hledger⟩ := read_of_unstamped h hread
  exact ⟨hname.trans hin.name, hns.trans hin.ns, hledger.trans hin.ledger⟩

theorem key_record (hin : InHand ns name record r) :
    (manifestRecords.toObject record).key = .ok (recordKey ns name) := by
  rw [ResourceKind.key_toObject hin.name, hin.ns]
  rfl

/-! ## Single writes -/

theorem lastLeft?_single_ne {d : Deed} {s : Slot} (h : s ≠ d.slot) :
    Event.lastLeft? [some d] s = none := Event.lastLeft?_concat_ne (Ne.symm h) []

/-- Writing a record fails with no deed, or stores it. -/
theorem runs_save {a : Except Error ManifestRecord} (hin : InHand ns name record r)
    (h : (save record).Runs m es a m') :
    ((∀ s, Event.lastLeft? es s = none) ∧ ∃ e, a = .error e)
      ∨ (∀ s ≠ own ns name, Event.lastLeft? es s = none)
        ∧ ((Stored ns name m' r ∧ ∃ e, a = .error e)
          ∨ Holds ns name m' r ∧ ∃ record', a = .ok record' ∧ InHand ns name record' r) := by
  obtain ⟨stored, m₁, es₁, es₂, h₁, rfl, rfl, rfl, rfl⟩ | ⟨e, h₁, rfl⟩ := Session.runs_bind.1 h
  · obtain ⟨k, live, hk, -, -, ho, rfl, hm⟩ := Session.runs_replace_ok h₁
    rw [key_record hin] at hk
    obtain rfl := Except.ok.inj hk
    rw [List.append_nil]
    refine .inr ⟨fun s hs => lastLeft?_single_ne hs, ?_⟩
    have hfind := Memory.object?_of_insert hm
    have htells := tells_of_unstamped hin ho.unstamped
    cases hread : manifestRecords.ofObject stored with
    | error e => exact .inl ⟨⟨stored, hfind, htells⟩, e, rfl⟩
    | ok record' =>
      exact .inr ⟨⟨stored, record', hfind, hread, htells record' hread⟩, record', rfl,
        htells record' hread⟩
  · obtain ⟨rfl, -, -⟩ | ⟨k, live, o, hk, -, -, ho, rfl, hm, -⟩ := Session.runs_replace h₁
    · exact .inl ⟨fun s => rfl, e, rfl⟩
    · rw [key_record hin] at hk
      obtain rfl := Except.ok.inj hk
      exact .inr ⟨fun s hs => lastLeft?_single_ne hs,
        .inl ⟨⟨o, Memory.object?_of_insert hm, tells_of_unstamped hin ho.unstamped⟩, e, rfl⟩⟩

theorem carries_create {p : Prepared} {live : Object} (h : live.unstamped = p.object.unstamped) :
    live.Carries p :=
  ⟨Object.type_of_unstamped h, Object.data_of_unstamped h, Object.labels_of_unstamped h⟩

theorem carries_adopt {p : Prepared} {live existing : Object}
    (h : live.unstamped = (p.object.adopt existing).unstamped) : live.Carries p :=
  ⟨(Object.type_of_unstamped h).trans rfl, (Object.data_of_unstamped h).trans rfl,
    (Object.labels_of_unstamped h).trans rfl⟩

/-- What is written for a document: an object with its content, under a version that the store had not handed
out before. -/
structure Landed (m : Memory) (p : Prepared) (live : Object) (es : List Event) : Prop where
  carries : live.Carries p
  dated : ∃ n > m.version, live.metadata.resourceVersion = some (Memory.versionText n)
  left : ∀ s, Event.lastLeft? es s = Event.lastLeft? [some ⟨p.key.slot, some live⟩] s

theorem Landed.of_stamped {p : Prepared} {o live : Object} {m₁ : Memory} (h : m₁.Stamped o live m')
    (hcarries : live.Carries p) (hv : m.version ≤ m₁.version) :
    Landed m p live [some ⟨p.key.slot, some live⟩] where
  carries := hcarries
  dated := ⟨m'.version, by rw [h.next]; omega, h.version⟩
  left := fun _ => rfl

/-- Adopting an object that is there fails with no deed, or gives it the content. -/
theorem runs_adopt {p : Prepared} {a : Except Error Unit} (hkey : p.object.key = .ok p.key)
    (h : (do
      let existing ← Session.require p.key
      let _ ← Session.replace (p.object.adopt existing) : Session Unit).Runs m es a m') :
    ((∀ s, Event.lastLeft? es s = none) ∧ ∃ e, a = .error e) ∨ ∃ live, Landed m p live es := by
  -- what comes of the update, whatever is made of its answer
  have update : ∀ {existing : Object} {m₁ m₂ : Memory} {fs : List Event} {r : Except Error Object},
      m.version ≤ m₁.version → (Session.replace (p.object.adopt existing)).Runs m₁ fs r m₂ →
      ((∀ s, Event.lastLeft? fs s = none) ∧ ∃ e, r = .error e) ∨ ∃ live, Landed m p live fs := by
    intro existing m₁ m₂ fs r hv h
    obtain ⟨rfl, -, he⟩ | ⟨k, _, live, hk, -, -, hlive, rfl, -, -⟩ := Session.runs_replace h
    · exact .inl ⟨fun _ => rfl, he⟩
    · obtain rfl := Except.ok.inj (hkey.symm.trans hk)
      exact .inr ⟨live, .of_stamped hlive (carries_adopt hlive.unstamped) hv⟩
  obtain ⟨existing, m₁, es₁, es₂, h₁, rfl, h₂⟩ | ⟨e, h₁, rfl⟩ := Session.runs_bind.1 h
  · have hv := h₁.version_le
    obtain ⟨rfl, -, -⟩ := Session.runs_require h₁
    obtain ⟨_, m₂, es₃, es₄, h₃, rfl, rfl, -, -⟩ | ⟨e, h₃, rfl⟩ := Session.runs_bind.1 h₂
    · rw [List.append_nil]
      refine (update hv h₃).imp_left fun ⟨_, e, he⟩ => ?_
      cases he
    · exact (update hv h₃).imp_left fun ⟨hes, _⟩ => ⟨hes, e, rfl⟩
  · obtain ⟨rfl, -, -⟩ := Session.runs_require h₁
    exact .inl ⟨fun _ => rfl, e, rfl⟩

/-- Creating or adopting an object fails with no deed, or puts the object in its place. -/
theorem runs_createOrAdopt {p : Prepared} {a : Except Error Unit} (hkey : p.object.key = .ok p.key)
    (h : (createOrAdopt p).Runs m es a m') :
    ((∀ s, Event.lastLeft? es s = none) ∧ ∃ e, a = .error e) ∨ ∃ live, Landed m p live es := by
  obtain ⟨r, m₁, es₁, es₂, h₁, rfl, h₂⟩ | ⟨e, h₁, rfl⟩ := Session.runs_bind.1 h
  · obtain ⟨r, ⟨rfl⟩, h₁⟩ := Session.runs_attempt.1 h₁
    have hv := h₁.version_le
    obtain ⟨rfl, -, e, rfl⟩ | ⟨k, live, hk, -, hlive, rfl, -, hr⟩ := Session.runs_createNew h₁
    · dsimp only at h₂
      by_cases he : e.isAlreadyExists
      · rw [if_pos he] at h₂
        obtain ⟨hes, hfail⟩ | ⟨live, hcarries, ⟨n, hn, hversion⟩, hleft⟩ := runs_adopt hkey h₂
        · exact .inl ⟨fun s => (Event.lastLeft?_none_cons es₂ s).trans (hes s), hfail⟩
        · refine .inr ⟨live, hcarries, ⟨n, hv.trans_lt hn, hversion⟩, fun s => ?_⟩
          exact (Event.lastLeft?_none_cons es₂ s).trans (hleft s)
      · rw [if_neg he] at h₂
        obtain ⟨rfl, rfl, -⟩ := h₂
        exact .inl ⟨fun _ => rfl, e, rfl⟩
    · obtain rfl := Except.ok.inj (hkey.symm.trans hk)
      have hlanded := Landed.of_stamped hlive (carries_create hlive.unstamped) le_rfl
      obtain rfl | ⟨e, he, rfl⟩ := hr
      · obtain ⟨rfl, -, -⟩ := h₂
        exact .inr ⟨live, hlanded⟩
      · dsimp only at h₂
        rw [if_neg (by rw [he.2]; exact Bool.false_ne_true)] at h₂
        obtain ⟨rfl, -, -⟩ := h₂
        exact .inr ⟨live, hlanded⟩
  · obtain ⟨_, he, -⟩ := Session.runs_attempt.1 h₁
    cases he

/-! ## Loops -/

section Loops

variable {α : Type} {shelf : Slot → Option Object} {rendered : List Prepared} {log es₀ : List Event}

/-- A run that has no deed in a place leaves what is there. -/
theorem object?_of_lastLeft? {s : Session α} {a : Except Error α} {k : Key} (h : s.Runs m es a m')
    (hk : Event.lastLeft? es k.slot = none) : m'.object? k = m.object? k := by
  unfold Memory.object?
  rw [h.find?, hk]
  rfl

/-- A run is added to the events, and its deeds outside of the record to the log. -/
theorem Shown.next {s : Session α} {a : Except Error α} {f : List Event} {r' : RecordSpec}
    (h : Shown ns name shelf es₀ m r log) (hrun : s.Runs m es a m')
    (hlog : ∀ s ≠ own ns name, Event.lastLeft? es s = Event.lastLeft? f s)
    (hrec : Stored ns name m' r') : Shown ns name shelf (es₀ ++ es) m' r' (log ++ f) where
  record := hrec
  log := by
    intro s hs
    rw [Event.lastLeft?_append, Event.lastLeft?_append, h.log s hs, hlog s hs]
  store := by
    intro s
    unfold after
    rw [hrun.find?, h.store, Event.lastLeft?_append, Option.getD_or]
    rfl

/-- A run without deeds outside of the record adds nothing to the log. -/
theorem Shown.save {s : Session α} {a : Except Error α} {r' : RecordSpec}
    (h : Shown ns name shelf es₀ m r log) (hrun : s.Runs m es a m')
    (hes : ∀ s ≠ own ns name, Event.lastLeft? es s = none) (hrec : Stored ns name m' r') :
    Shown ns name shelf (es₀ ++ es) m' r' log := by
  have hnext := h.next hrun (f := []) hes hrec
  rwa [List.append_nil] at hnext

/-- A run without deeds leaves a pass where it is. -/
theorem Shown.stay {s : Session α} {a : Except Error α} (h : Shown ns name shelf es₀ m r log)
    (hrun : s.Runs m es a m') (hes : ∀ s, Event.lastLeft? es s = none) :
    Shown ns name shelf (es₀ ++ es) m' r log :=
  h.save hrun (fun s _ => hes s) (h.record.congr (object?_of_lastLeft? hrun (hes _)))

/-- Outside of the record, the store is what the log has made of the shelf. -/
theorem Shown.find? (h : Shown ns name shelf es₀ m r log) {s : Slot} (hs : s ≠ own ns name) :
    m.objects.find? s = after shelf log s := by
  rw [h.store, after, h.log s hs]
  rfl

/-- A deed outside of the record is added to the log, and the record stays. -/
theorem Shown.deed {s : Session α} {a : Except Error α} {d : Deed} (h : Shown ns name shelf es₀ m r log)
    (hrun : s.Runs m es a m') (hne : d.slot ≠ own ns name)
    (hes : ∀ s, Event.lastLeft? es s = Event.lastLeft? [some d] s) :
    Shown ns name shelf (es₀ ++ es) m' r (log ++ [some d])
      ∧ m'.object? (recordKey ns name) = m.object? (recordKey ns name) := by
  have hkey := object?_of_lastLeft? hrun ((hes _).trans (lastLeft?_single_ne (Ne.symm hne)))
  exact ⟨h.next hrun (fun s _ => hes s) (h.record.congr hkey), hkey⟩

theorem InHand.track (hin : InHand ns name record r) (t : Tracked) :
    InHand ns name { record with spec := record.spec.track t } (r.track t) :=
  ⟨hin.name, hin.ns, by rw [← hin.ledger]; exact RecordSpec.ledger_track _ t⟩

theorem InHand.untrack (hin : InHand ns name record r) (t : Tracked) :
    InHand ns name { record with spec := record.spec.untrack t } (r.untrack t) :=
  ⟨hin.name, hin.ns, by rw [← hin.ledger]; exact RecordSpec.ledger_untrack _ t⟩

theorem InHand.promote (hin : InHand ns name record r) :
    InHand ns name { record with spec := record.spec.promote } r.promote :=
  ⟨hin.name, hin.ns, by rw [← hin.ledger]; exact RecordSpec.ledger_promote _⟩

/-- Writing and tracking documents goes a path of steps. -/
theorem runs_applyAll (before : List Prepared) {after : List Prepared} {a : Except Error ManifestRecord}
    (hdocs : ∀ p ∈ after, p.object.key = .ok p.key ∧ p.key.slot ≠ own ns name)
    (hs : Shown ns name shelf es₀ m r log) (hh : Holds ns name m r) (hin : InHand ns name record r)
    (h : (applyAll record after).Runs m es a m') :
    ∃ σ, Steps shelf rendered ⟨.write before after, r, log⟩ σ
      ∧ Shown ns name shelf (es₀ ++ es) m' σ.record σ.log
      ∧ ∀ record', a = .ok record' → σ.phase = .write (before ++ after) []
        ∧ Holds ns name m' σ.record ∧ InHand ns name record' σ.record := by
  induction after generalizing before record r log es₀ es m with
  | nil =>
    obtain ⟨rfl, rfl, rfl⟩ := h
    rw [List.append_nil]
    refine ⟨_, .refl, hs, ?_⟩
    rintro record' ⟨rfl⟩
    rw [List.append_nil]
    exact ⟨rfl, hh, hin⟩
  | cons p rest ih =>
    obtain ⟨hkey, hne⟩ := hdocs p List.mem_cons_self
    have hrest := fun q hq => hdocs q (List.mem_cons_of_mem p hq)
    obtain ⟨⟨⟩, m₁, es₁, es₂, h₁, rfl, h₂⟩ | ⟨e, h₁, rfl⟩ := Session.runs_bind.1 h
    · obtain ⟨-, e, he⟩ | ⟨live, hlive, -, hes⟩ := runs_createOrAdopt hkey h₁
      · cases he
      obtain ⟨hwrote, hown⟩ := hs.deed h₁ hne hes
      have hh₁ := hh.congr hown
      have hwrite : Steps shelf rendered ⟨.write before (p :: rest), r, log⟩
          ⟨.track before p rest, r, log ++ [some ⟨p.key.slot, some live⟩]⟩ := .single (.write hlive)
      have htrack := hwrite.tail .track
      rw [List.append_cons, ← List.append_assoc]
      by_cases hexact : record.spec.tracksExactly p.tracked
      · rw [if_pos hexact] at h₂
        have hr : r.track p.tracked = r := by
          rw [← hin.ledger]
          exact RecordSpec.track_eq_self hexact
        rw [hr] at htrack
        obtain ⟨σ, hpath, hshown, hok⟩ := ih _ hrest hwrote hh₁ hin h₂
        exact ⟨σ, htrack.trans hpath, hshown, hok⟩
      · rw [if_neg hexact] at h₂
        obtain ⟨record₂, m₂, es₃, es₄, h₃, rfl, h₄⟩ | ⟨e, h₃, rfl⟩ := Session.runs_bind.1 h₂
        · obtain ⟨-, e, he⟩ | ⟨hlog, ⟨-, e, he⟩ | ⟨hh₂, record', hr, hin₂⟩⟩ :=
            runs_save (hin.track p.tracked) h₃
          · cases he
          · cases he
          obtain rfl := Except.ok.inj hr
          have hsaved := hwrote.save h₃ hlog hh₂.stored
          rw [← List.append_assoc]
          obtain ⟨σ, hpath, hshown, hok⟩ := ih _ hrest hsaved hh₂ hin₂ h₄
          exact ⟨σ, htrack.trans hpath, hshown, hok⟩
        · obtain ⟨hes₂, -⟩ | ⟨hlog, ⟨hstored, -⟩ | ⟨-, _, he, -⟩⟩ := runs_save (hin.track p.tracked) h₃
          · exact ⟨_, hwrite, hwrote.stay h₃ hes₂, fun _ h => nomatch h⟩
          · exact ⟨_, htrack, hwrote.save h₃ hlog hstored, fun _ h => nomatch h⟩
          · cases he
    · obtain ⟨hes, -⟩ | ⟨live, hlive, -, hes⟩ := runs_createOrAdopt hkey h₁
      · exact ⟨_, .refl, hs.stay h₁ hes, fun _ h => nomatch h⟩
      · obtain ⟨hwrote, -⟩ := hs.deed h₁ hne hes
        exact ⟨_, .single (.write hlive), hwrote, fun _ h => nomatch h⟩

variable (rendered) in
/-- Deleting a stale object, with a deed or without one, is a step of a pass if it succeeds. -/
theorem Shown.delete {t : Tracked} {b : Except Error Bool} (hne : t.slot ≠ own ns name)
    (hs : Shown ns name shelf es₀ m r log) (ts : List Tracked)
    (h : (Session.removeIfExists (Key.ofTracked t) .background).Runs m es b m') :
    ∃ log' ph, (∀ existed, b = .ok existed → ph = .forget t ts)
      ∧ Steps shelf rendered ⟨.prune (t :: ts), r, log⟩ ⟨ph, r, log'⟩
      ∧ Shown ns name shelf (es₀ ++ es) m' r log'
      ∧ m'.object? (recordKey ns name) = m.object? (recordKey ns name) := by
  obtain ⟨rfl, hm, hb⟩ | ⟨rfl, -, -⟩ := Session.runs_removeIfExists h
  · have hstay := hs.stay h fun _ => rfl
    have hown := Memory.object?_congr hm (recordKey ns name)
    obtain ⟨rfl, hgone⟩ | ⟨e, rfl⟩ := hb
    · refine ⟨log, .forget t ts, fun _ _ => rfl, .single (.gone ?_), hstay, hown⟩
      rw [← hs.find? hne]
      exact hgone
    · exact ⟨log, .prune (t :: ts), fun _ h => (nomatch h), .refl, hstay, hown⟩
  · obtain ⟨hshown, hown⟩ := hs.deed h hne fun _ => rfl
    exact ⟨_, _, fun _ _ => rfl, .single .prune, hshown, hown⟩

/-- Deleting and forgetting stale objects goes a path of steps. -/
theorem runs_prune {ts : List Tracked} {a : Except Error ManifestRecord}
    (hts : ∀ t ∈ ts, t.slot ≠ own ns name) (hs : Shown ns name shelf es₀ m r log) (hh : Holds ns name m r)
    (hin : InHand ns name record r) (h : (prune record ts).Runs m es a m') :
    ∃ σ, Steps shelf rendered ⟨.prune ts, r, log⟩ σ ∧ Shown ns name shelf (es₀ ++ es) m' σ.record σ.log
      ∧ ∀ record', a = .ok record' → σ.phase = .prune []
        ∧ Holds ns name m' σ.record ∧ InHand ns name record' σ.record := by
  induction ts generalizing record r log es₀ es m with
  | nil =>
    obtain ⟨rfl, rfl, rfl⟩ := h
    rw [List.append_nil]
    refine ⟨_, .refl, hs, ?_⟩
    rintro record' ⟨rfl⟩
    exact ⟨rfl, hh, hin⟩
  | cons t ts ih =>
    have hne := hts t List.mem_cons_self
    have hrest := fun u hu => hts u (List.mem_cons_of_mem t hu)
    obtain ⟨b, m₁, es₁, es₂, h₁, rfl, h₂⟩ | ⟨e, h₁, rfl⟩ := Session.runs_bind.1 h
    · obtain ⟨log₁, ph, hph, hpath, hshown, hown⟩ := hs.delete rendered hne ts h₁
      obtain rfl := hph b rfl
      have hforget := hpath.tail .forget
      rw [← List.append_assoc]
      obtain ⟨record₂, m₂, es₃, es₄, h₃, rfl, h₄⟩ | ⟨e, h₃, rfl⟩ := Session.runs_bind.1 h₂
      · obtain ⟨-, e, he⟩ | ⟨hlog, ⟨-, e, he⟩ | ⟨hh₂, record', hr, hin₂⟩⟩ := runs_save (hin.untrack t) h₃
        · cases he
        · cases he
        obtain rfl := Except.ok.inj hr
        have hsaved := hshown.save h₃ hlog hh₂.stored
        rw [← List.append_assoc]
        obtain ⟨σ, hsteps, hlast, hok⟩ := ih hrest hsaved hh₂ hin₂ h₄
        exact ⟨σ, hforget.trans hsteps, hlast, hok⟩
      · obtain ⟨hes₂, -⟩ | ⟨hlog, ⟨hstored, -⟩ | ⟨-, _, he, -⟩⟩ := runs_save (hin.untrack t) h₃
        · exact ⟨_, hpath, hshown.stay h₃ hes₂, fun _ h => nomatch h⟩
        · exact ⟨_, hforget, hshown.save h₃ hlog hstored, fun _ h => nomatch h⟩
        · cases he
    · obtain ⟨log₁, ph, -, hpath, hshown, -⟩ := hs.delete rendered hne ts h₁
      exact ⟨_, hpath, hshown, fun _ h => nomatch h⟩

variable (rendered) in
theorem runs_settle {a : Except Error ManifestRecord} (hs : Shown ns name shelf es₀ m r log)
    (hh : Holds ns name m r) (hin : InHand ns name record r) (h : (settle record).Runs m es a m') :
    ∃ σ, Steps shelf rendered ⟨.prune [], r, log⟩ σ ∧ Shown ns name shelf (es₀ ++ es) m' σ.record σ.log
      ∧ ∀ record', a = .ok record' → σ.phase = .done
        ∧ Holds ns name m' σ.record ∧ InHand ns name record' σ.record := by
  unfold settle at h
  have hpending : r.isPending = record.spec.isPending := by
    rw [← hin.ledger]
    rfl
  by_cases hp : record.spec.isPending
  · rw [if_pos hp] at h
    obtain ⟨hes, e, rfl⟩ | ⟨hlog, ⟨hstored, e, rfl⟩ | ⟨hh', record', rfl, hin'⟩⟩ := runs_save hin.promote h
    · exact ⟨_, .refl, hs.stay h hes, fun _ h => nomatch h⟩
    · exact ⟨_, .single .settle, hs.save h hlog hstored, fun _ h => nomatch h⟩
    · refine ⟨_, .single .settle, hs.save h hlog hh'.stored, ?_⟩
      rintro _ ⟨rfl⟩
      exact ⟨rfl, hh', hin'⟩
  · rw [if_neg hp] at h
    obtain ⟨rfl, rfl, rfl⟩ := h
    have hpromote : r.promote = r := by
      unfold RecordSpec.promote
      rw [hpending, if_neg hp]
    have hstep : Step shelf rendered ⟨.prune [], r, log⟩ ⟨.done, r, log⟩ := by
      have h : Step shelf rendered ⟨.prune [], r, log⟩ ⟨.done, r.promote, log⟩ := .settle
      rwa [hpromote] at h
    rw [List.append_nil]
    refine ⟨_, .single hstep, hs, ?_⟩
    rintro _ ⟨rfl⟩
    exact ⟨rfl, hh, hin⟩

/-- Every run of a pass goes a path of steps, and one that succeeds comes to its end. -/
theorem runs_converge {fingerprint : String} {a : Except Error ApplyReport}
    (hkeys : ∀ p ∈ rendered, p.object.key = .ok p.key)
    (hdocs : ∀ p ∈ rendered, p.tracked.Placed ∧ p.key.slot ≠ own ns name)
    (htidy : r.Tidy (own ns name)) (hs : Shown ns name shelf es₀ m r []) (hh : Holds ns name m r)
    (hin : InHand ns name record r) (h : (converge record fingerprint rendered).Runs m es a m') :
    ∃ σ, Steps shelf rendered ⟨.write [] rendered, r, []⟩ σ
      ∧ Shown ns name shelf (es₀ ++ es) m' σ.record σ.log
      ∧ ∀ report, a = .ok report → Finished ns name rendered r fingerprint m' σ report := by
  have hplaced := fun p hp => (hdocs p hp).1
  have hall := fun p hp => And.intro (hkeys p hp) (hdocs p hp).2
  obtain ⟨record₁, m₁, es₁, es₂, h₁, rfl, h₂⟩ | ⟨e, h₁, rfl⟩ := Session.runs_bind.1 h
  · obtain ⟨⟨ph, r₁, log₁⟩, hpath₁, hs₁, hok₁⟩ := runs_applyAll [] hall hs hh hin h₁
    obtain ⟨rfl, hh₁, hin₁⟩ := hok₁ record₁ rfl
    have hsound := Sound.steps shelf rendered r hplaced htidy.distinct htidy.placed hpath₁
    have hstale : record₁.spec.stale (rendered.map Prepared.tracked)
        = r.stale (rendered.map Prepared.tracked) := by
      rw [← hsound.fits.2, ← hin₁.ledger]
      rfl
    have hts : ∀ t ∈ r.stale (rendered.map Prepared.tracked), t.slot ≠ own ns name :=
      fun t ht => htidy.apart t (RecordSpec.mem_stale.1 ht).1
    have hturn := hpath₁.tail .turn
    rw [show r₁.stale (rendered.map Prepared.tracked) = _ from hsound.fits.2] at hturn
    dsimp only at h₂
    rw [hstale] at h₂
    rw [← List.append_assoc]
    obtain ⟨record₂, m₂, es₃, es₄, h₃, rfl, h₄⟩ | ⟨e, h₃, rfl⟩ := Session.runs_bind.1 h₂
    · obtain ⟨⟨ph, r₂, log₂⟩, hpath₂, hs₂, hok₂⟩ := runs_prune hts hs₁ hh₁ hin₁ h₃
      obtain ⟨rfl, hh₂, hin₂⟩ := hok₂ record₂ rfl
      rw [← List.append_assoc]
      obtain ⟨record₃, m₃, es₅, es₆, h₅, rfl, rfl, rfl, rfl⟩ | ⟨e, h₅, rfl⟩ := Session.runs_bind.1 h₄
      · obtain ⟨σ, hpath₃, hs₃, hok₃⟩ := runs_settle rendered hs₂ hh₂ hin₂ h₅
        obtain ⟨hph, hh₃, hin₃⟩ := hok₃ record₃ rfl
        rw [List.append_nil]
        refine ⟨σ, (hturn.trans hpath₂).trans hpath₃, hs₃, ?_⟩
        rintro report ⟨rfl⟩
        refine ⟨hph, hh₃, ?_⟩
        rw [← hin₃.ledger]
        rfl
      · obtain ⟨σ, hpath₃, hs₃, -⟩ := runs_settle rendered hs₂ hh₂ hin₂ h₅
        exact ⟨σ, (hturn.trans hpath₂).trans hpath₃, hs₃, fun _ h => nomatch h⟩
    · obtain ⟨σ, hpath₂, hs₂, -⟩ := runs_prune hts hs₁ hh₁ hin₁ h₃
      exact ⟨σ, hturn.trans hpath₂, hs₂, fun _ h => nomatch h⟩
  · obtain ⟨σ, hpath₁, hs₁, -⟩ := runs_applyAll [] hall hs hh hin h₁
    exact ⟨σ, hpath₁, hs₁, fun _ h => nomatch h⟩

end Loops

end Addons.Bundle
