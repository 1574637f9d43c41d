import Addons.Proofs.Bundle.Strays
import Addons.Proofs.Bundle.Success
import Addons.Proofs.Store.Outcome
import Addons.Proofs.Store.Upserts

/-!
# Calls that no failure cuts short

Where no request to the store fails and no document is a record, an apply whose source is not at fault ends well,
unless it finds or leaves a record that cannot be read (`ends_apply`). A removal ends well unless it finds
one (`ends_remove`).
-/

namespace Addons.Bundle

open Session (Ends ends_done)

variable {ns name : String} {m m' : Memory} {es : List Event} {record : ManifestRecord}

/-! ## Removing -/

/-- Where no request fails, a record is read unless it is none. -/
theorem ends_record? (hm : m.Healthy) : (record? ns name).Ends m fun r _ =>
    (Readable ns name m → ∃ found, r = .ok found) ∧ (¬Readable ns name m → r = .error .serialization) := by
  refine Ends.bind ((Session.ends_find? (hm.not_mem _)).imp ?_)
  rintro r m₁ ⟨rfl, -⟩
  cases hfind : m.object? (recordKey ns name) with
  | none =>
    refine ⟨none, rfl, ends_done ⟨fun _ => ⟨none, rfl⟩, fun h => absurd ?_ h⟩⟩
    intro o ho
    rw [hfind] at ho
    cases ho
  | some o =>
    refine ⟨some o, rfl, ?_⟩
    dsimp only
    cases hread : manifestRecords.ofObject o with
    | ok record =>
      refine ends_done ⟨fun _ => ⟨some record, rfl⟩, fun h => absurd ?_ h⟩
      intro o' ho'
      obtain rfl := Option.some.inj (hfind.symm.trans ho')
      exact ⟨record, hread⟩
    | error e =>
      refine ends_done ⟨fun h => absurd (h o hfind) ?_, fun _ => ?_⟩
      · rintro ⟨record, hok⟩
        rw [hread] at hok
        cases hok
      · show Except.error e = _
        unfold ResourceKind.ofObject at hread
        split at hread
        · cases hread
        · exact congrArg Except.error (Except.error.inj hread).symm

theorem ends_removeTracked (hm : m.Healthy) (ts : List Tracked) :
    (removeTracked ts).Ends m fun r _ => ∃ n, r = .ok n := by
  induction ts generalizing m with
  | nil => exact ends_done ⟨0, rfl⟩
  | cons t ts ih =>
    refine Ends.bind ((Session.ends_removeIfExists (hm.not_mem _)).runs.imp ?_)
    rintro _ m₁ ⟨⟨existed, rfl⟩, es, hrun⟩
    refine ⟨existed, rfl, Ends.bind ((ih (hrun.healthy hm)).imp ?_)⟩
    rintro _ m₂ ⟨more, rfl⟩
    exact ⟨more, rfl, ends_done ⟨_, rfl⟩⟩

/-- Where no request fails, a removal gets through unless the record cannot be read. -/
theorem ends_remove (hm : m.Healthy) : (remove ns name).Ends m fun r _ =>
    (Readable ns name m → ∃ n, r = .ok n) ∧ (¬Readable ns name m → r = .error .serialization) := by
  refine Ends.bind_cases ((ends_record? hm).runs.imp ?_)
  rintro r m₁ ⟨⟨hreadable, hunreadable⟩, es, hrun⟩
  by_cases hread : Readable ns name m
  · obtain ⟨found, rfl⟩ := hreadable hread
    refine .inl ⟨found, rfl, Ends.imp ?_ fun r _ h => ⟨fun _ => h, fun h => absurd hread h⟩⟩
    cases found with
    | none => exact ends_done ⟨0, rfl⟩
    | some record =>
      refine Ends.bind ((ends_removeTracked (hrun.healthy hm) _).runs.imp ?_)
      rintro _ m₂ ⟨⟨deleted, rfl⟩, fs, hrun'⟩
      have hm₂ := hrun'.healthy (hrun.healthy hm)
      refine ⟨deleted, rfl, Ends.bind ((Session.ends_removeIfExists (hm₂.not_mem _)).imp ?_)⟩
      rintro _ m₃ ⟨existed, rfl⟩
      exact ⟨existed, rfl, ends_done ⟨deleted, rfl⟩⟩
  · exact .inr ⟨_, hunreadable hread, fun h => absurd h hread, fun _ => rfl⟩

/-! ## Progress -/

section Progress

variable {α β : Type}

/-- A session ends well, or leaves a record that cannot be read. -/
def Progresses (ns name : String) (s : Session α) (m : Memory) : Prop :=
  s.Ends m fun r m' => (∃ a, r = .ok a) ∨ ¬Readable ns name m'

theorem progresses_ok (a : α) : Progresses ns name (Session.ok a) m := ends_done (.inl ⟨a, rfl⟩)

theorem Progresses.bind {s : Session α} {f : α → Session β} (h : Progresses ns name s m)
    (hf : ∀ a es m₁, s.Runs m es (.ok a) m₁ → Progresses ns name (f a) m₁) :
    Progresses ns name (s >>= f) m := by
  refine Ends.bind_cases (Ends.imp (Ends.runs h) ?_)
  rintro r m₁ ⟨hr, es, hrun⟩
  cases r with
  | ok a => exact .inl ⟨a, rfl, hf a es m₁ hrun⟩
  | error e =>
    refine .inr ⟨e, rfl, .inr (hr.resolve_left ?_)⟩
    rintro ⟨a, ha⟩
    cases ha

end Progress

/-! ## Single writes -/

/-- A stored record is read, or it cannot be. -/
theorem progresses_read {o : Object} (ho : m.object? (recordKey ns name) = some o) :
    Progresses ns name (liftM (manifestRecords.ofObject o) : Session ManifestRecord) m := by
  cases hread : manifestRecords.ofObject o with
  | ok record => exact progresses_ok record
  | error e =>
    refine ends_done (.inr fun hreadable => ?_)
    obtain ⟨record, hok⟩ := hreadable o ho
    rw [hread] at hok
    cases hok

/-- A record in hand is saved, or it cannot be read back. -/
theorem progresses_save {s : RecordSpec} (hm : m.Healthy) (h : Follows ns name m record none) :
    Progresses ns name (save { record with spec := s }) m := by
  obtain ⟨o, ho, hversion, -⟩ := h.stored
  obtain ⟨n, -, hdated⟩ := h.dated
  have hkey := ResourceKind.key_toObject (k := manifestRecords) (r := { record with spec := s }) h.name
  have hslot : Key.slot ⟨manifestRecords.type, record.metadata.ns, name⟩ = own ns name := by
    unfold own recordKey ResourceKind.key
    rw [← h.ns]
    rfl
  have hlive : m.object? ⟨manifestRecords.type, record.metadata.ns, name⟩ = some o := by
    rw [← ho]
    exact congrArg m.objects.find? hslot
  have hreplace := Session.ends_replace hkey (hm.not_mem _) hlive (hversion.trans hdated) hdated
  refine Ends.bind (hreplace.runs.imp ?_)
  rintro _ m₁ ⟨⟨stored, rfl⟩, es, hrun⟩
  refine ⟨stored, rfl, ?_⟩
  obtain ⟨k, -, hk, -, -, -, -, hm₁⟩ := Session.runs_replace_ok hrun
  obtain rfl := Except.ok.inj (hkey.symm.trans hk)
  rw [hslot] at hm₁
  exact progresses_read (Memory.object?_of_insert hm₁)

/-- A document is written, whatever is in its place. -/
theorem ends_createOrAdopt {p : Prepared} (hm : m.Healthy) (hfiled : m.Filed) (hkey : p.object.key = .ok p.key) :
    (createOrAdopt p).Ends m fun r _ => r = .ok () := by
  cases hlive : m.object? p.key with
  | none =>
    refine Ends.bind ((Session.ends_createNew hkey (hm.not_mem _) hlive).attempt.imp ?_)
    rintro _ m₁ ⟨_, rfl, stored, rfl⟩
    exact ⟨_, rfl, ends_done rfl⟩
  | some live =>
    have htaken : m.object? p.key ≠ none := by
      rw [hlive]
      exact Option.some_ne_none live
    refine Ends.bind ((Session.ends_createNew_exists hkey (hm.not_mem _) htaken).runs.attempt.imp ?_)
    rintro _ m₁ ⟨_, rfl, rfl, es, hrun⟩
    refine ⟨_, rfl, ?_⟩
    show Ends (do
      let existing ← Session.require p.key
      let _ ← Session.replace (p.object.adopt existing)) _ _
    have hm₁ := hrun.healthy hm
    have hlive₁ : m₁.object? p.key = some live :=
      (Memory.object?_congr (Session.runs_createNew_taken hrun rfl) _).trans hlive
    obtain ⟨n, -, hversion⟩ := (hrun.filed hfiled).version_of_find? hlive₁
    refine Ends.bind ((Session.ends_require (hm₁.not_mem _) hlive₁).imp ?_)
    rintro _ m₂ ⟨rfl, rfl⟩
    have hadopted : (p.object.adopt live).key = .ok p.key := hkey
    have hlive₂ : (m₁.looked 1 0).object? p.key = some live := hlive₁
    have hreplace := Session.ends_replace (m := m₁.looked 1 0) hadopted (hm₁.not_mem _) hlive₂ hversion hversion
    refine ⟨live, rfl, Ends.bind (hreplace.imp ?_)⟩
    rintro _ m₃ ⟨stored, rfl⟩
    exact ⟨stored, rfl, ends_done rfl⟩

/-! ## Loops -/

theorem progresses_applyAll {ps : List Prepared} (hm : m.Healthy) (hkeys : ∀ p ∈ ps, p.object.key = .ok p.key)
    (hapart : ∀ p ∈ ps, p.key.slot ≠ own ns name) (h : Follows ns name m record none) :
    Progresses ns name (applyAll record ps) m := by
  induction ps generalizing m record with
  | nil => exact progresses_ok record
  | cons p ps ih =>
    obtain ⟨hkey, hkeys⟩ := List.forall_mem_cons.1 hkeys
    obtain ⟨hne, hapart⟩ := List.forall_mem_cons.1 hapart
    have hwrite : Progresses ns name (createOrAdopt p) m :=
      (ends_createOrAdopt hm h.filed hkey).imp fun r _ hr => .inl ⟨(), hr⟩
    refine Progresses.bind hwrite fun _ es m₁ hrun => ?_
    have hwritten := (h.createOrAdopt hkey hrun).2
    rw [if_neg hne] at hwritten
    have hm₁ := hrun.healthy hm
    by_cases hexact : record.spec.tracksExactly p.tracked
    · rw [if_pos hexact]
      exact ih hm₁ hkeys hapart hwritten
    · rw [if_neg hexact]
      refine (progresses_save hm₁ hwritten).bind fun record' fs m₂ hsave => ?_
      exact ih (hsave.healthy hm₁) hkeys hapart (hwritten.save hsave).2.1

theorem progresses_prune {ts : List Tracked} (hm : m.Healthy) (hts : ∀ t ∈ ts, t.slot ≠ own ns name)
    (h : Follows ns name m record none) : Progresses ns name (prune record ts) m := by
  induction ts generalizing m record with
  | nil => exact progresses_ok record
  | cons t ts ih =>
    obtain ⟨hne, hts⟩ := List.forall_mem_cons.1 hts
    have hdelete : Progresses ns name (Session.removeIfExists (Key.ofTracked t) .background) m :=
      (Session.ends_removeIfExists (hm.not_mem _)).imp fun r _ => .inl
    refine hdelete.bind fun existed es m₁ hrun => ?_
    have hm₁ := hrun.healthy hm
    have hkept : m₁.object? (recordKey ns name) = m.object? (recordKey ns name) := by
      obtain ⟨-, hm, -⟩ | ⟨-, hm, -⟩ := Session.runs_removeIfExists hrun
      · exact Memory.object?_congr hm _
      · unfold Memory.object?
        rw [hm]
        exact Table.find?_erase_ne (Ne.symm hne) _
    have hfollows := h.congr (hrun.filed h.filed) hrun.version_le hkept
    refine (progresses_save hm₁ hfollows).bind fun record' fs m₂ hsave => ?_
    exact ih (hsave.healthy hm₁) hts (hfollows.save hsave).2.1

theorem progresses_settle (hm : m.Healthy) (h : Follows ns name m record none) :
    Progresses ns name (settle record) m := by
  unfold settle
  by_cases hp : record.spec.isPending
  · rw [if_pos hp]
    exact progresses_save hm h
  · rw [if_neg hp]
    exact progresses_ok record

theorem progresses_begin {spec : ManifestSpec} {fingerprint : String} (hm : m.Healthy)
    (h : Follows ns name m record none) : Progresses ns name (begin record spec fingerprint) m := by
  unfold begin
  by_cases hsame : (record.spec.beginChange fingerprint spec).same record.spec
  · rw [if_pos hsame]
    exact progresses_ok _
  · rw [if_neg hsame]
    exact progresses_save hm h

section Converge

variable {rendered : List Prepared} {fingerprint : String}

theorem ownDoc?_eq_none (hapart : ∀ p ∈ rendered, p.key.slot ≠ own ns name) : ownDoc? ns name rendered = none := by
  unfold ownDoc?
  rw [List.find?_eq_none]
  intro p hp
  simpa using hapart p (List.mem_reverse.1 hp)

/-- A pass that begins with the record in hand stored, and nothing tracked in its place. -/
theorem progresses_converge {r : RecordSpec} (hm : m.Healthy) (hkeys : ∀ p ∈ rendered, p.object.key = .ok p.key)
    (hapart : ∀ p ∈ rendered, p.key.slot ≠ own ns name) (htracked : ∀ t ∈ r.objects, t.slot ≠ own ns name)
    (hin : InHand ns name record r) (h : Follows ns name m record none) :
    Progresses ns name (converge record fingerprint rendered) m := by
  refine (progresses_applyAll hm hkeys hapart h).bind fun record₁ es₁ m₁ h₁ => ?_
  have hm₁ := h₁.healthy hm
  have hwritten := (runs_applyAll_ok hkeys h h₁).1
  rw [ownDoc?_eq_none hapart, Option.none_or] at hwritten
  obtain ⟨r₁, hin₁, -, hstale, -⟩ := hin.applyAll hkeys (List.Subset.refl _) h₁
  have hts : ∀ t ∈ record₁.spec.stale (rendered.map Prepared.tracked), t.slot ≠ own ns name := by
    intro t ht
    have hmem : t ∈ r₁.stale (rendered.map Prepared.tracked) := hin₁.ledger ▸ ht
    rw [hstale] at hmem
    exact htracked t (RecordSpec.mem_stale.1 hmem).1
  refine (progresses_prune hm₁ hts hwritten).bind fun record₂ es₂ m₂ h₂ => ?_
  have hpruned := (runs_prune_ok (List.Subset.refl _) hwritten h₂).1
  refine (progresses_settle (h₂.healthy hm₁) hpruned).bind fun record₃ es₃ m₃ h₃ => ?_
  exact progresses_ok _

end Converge

/-! ## Applying -/

section Apply

variable {render : Renderer} {spec : ManifestSpec} {owner : Option OwnerReference} {fingerprint : String}
  {rendered : List Prepared} {done : Slot → Prop}

/-- The first apply of a component. -/
theorem progresses_first (hm : m.Healthy) (hfiled : m.Filed) (hkeys : ∀ p ∈ rendered, p.object.key = .ok p.key)
    (hapart : ∀ p ∈ rendered, p.key.slot ≠ own ns name) (hnone : m.object? (recordKey ns name) = none) :
    Progresses ns name (applyFirst ns name spec owner fingerprint rendered) m := by
  have hin : InHand ns name (newRecord ns name spec fingerprint owner) (.fresh fingerprint) :=
    ⟨rfl, rfl, RecordSpec.ledger_ofSpec spec fingerprint⟩
  have hcreate := Session.ends_createNew (key_record hin) (hm.not_mem _) hnone
  refine Progresses.bind (hcreate.imp fun r _ => .inl) fun created es₁ m₁ h₁ => ?_
  obtain ⟨k, hk, hstamped, -, hm₁⟩ := Session.runs_createNew_ok h₁
  obtain rfl := Except.ok.inj ((key_record hin).symm.trans hk)
  have hcreated := Memory.object?_of_insert hm₁
  refine (progresses_read hcreated).bind fun record es₂ m₂ h₂ => ?_
  obtain ⟨-, hread, rfl⟩ := h₂
  have hin₁ := inHand_of_read_new hstamped.unstamped hread.symm
  refine progresses_converge (h₁.healthy hm) hkeys hapart (fun t ht => ?_) hin₁
    (.of_read (h₁.filed hfiled) hcreated hread.symm)
  exact absurd ht List.not_mem_nil

/-- An apply that finds a record whose render was not applied. -/
theorem progresses_again {r : RecordSpec} (hm : m.Healthy) (hkeys : ∀ p ∈ rendered, p.object.key = .ok p.key)
    (hapart : ∀ p ∈ rendered, p.key.slot ≠ own ns name) (htracked : ∀ t ∈ r.objects, t.slot ≠ own ns name)
    (hin : InHand ns name record r) (h : Follows ns name m record none) :
    Progresses ns name (applyAgain record spec fingerprint rendered) m := by
  refine (progresses_begin hm h).bind fun record₁ es₁ m₁ h₁ => ?_
  exact progresses_converge (r := r.begun fingerprint) (h₁.healthy hm) hkeys hapart htracked (hin.began h₁)
    (runs_begin_ok h h₁).1

/-- An apply that no failure cuts short ends well, finds or leaves a record that cannot be read, or does
nothing. -/
theorem ends_apply (hm : m.Healthy) (hfiled : m.Filed) (horderly : Orderly ns name done m)
    (hleaves : LeavesRecord render ns name spec) : (apply render ns name spec owner).Ends m fun r m' =>
      (∃ report, r = .ok report) ∨ ¬Readable ns name m' ∨ m'.objects = m.objects := by
  unfold apply
  cases hbytes : render spec.url spec.patches spec.images with
  | error e => exact Ends.bind_cases (ends_done (.inr ⟨e, rfl, .inr (.inr rfl)⟩))
  | ok bytes =>
    refine Ends.bind (ends_done ⟨bytes, rfl, ?_⟩)
    cases hrendered : prepare bytes ns name with
    | error e => exact Ends.bind_cases (ends_done (.inr ⟨e, rfl, .inr (.inr rfl)⟩))
    | ok rendered =>
      refine Ends.bind (ends_done ⟨rendered, rfl, ?_⟩)
      have hkeys := fun p hp => (of_prepare hrendered p hp).1
      have hapart := hleaves bytes rendered hbytes hrendered
      refine Ends.bind_cases ((ends_record? hm).runs.imp ?_)
      rintro r m₁ ⟨-, es, hrun⟩
      obtain ⟨-, hm₁, hnone, hsome⟩ := runs_record? hrun
      cases r with
      | error e => exact .inr ⟨e, rfl, .inr (.inr hm₁)⟩
      | ok found =>
        have himp : ∀ {s : Session ApplyReport}, Progresses ns name s m₁ → s.Ends m₁ fun r m' =>
            (∃ report, r = .ok report) ∨ ¬Readable ns name m' ∨ m'.objects = m.objects :=
          fun h => Ends.imp h fun r m' hr => hr.imp_right .inl
        refine .inl ⟨found, rfl, himp ?_⟩
        have hkey := Memory.object?_congr hm₁ (recordKey ns name)
        cases found with
        | none => exact progresses_first (hrun.healthy hm) (hrun.filed hfiled) hkeys hapart (hkey.trans (hnone rfl))
        | some record =>
          obtain ⟨o, ho, hread⟩ := hsome record rfl
          obtain ⟨hholds, hin⟩ := horderly.holds_of_read ho hread
          have hfollows := Follows.of_read (hrun.filed hfiled) (hkey.trans ho) hread
          dsimp only
          by_cases hcurrent : record.spec.isCurrent (Manifest.fingerprint bytes) (rendered.map Prepared.tracked)
          · rw [if_pos hcurrent]
            exact progresses_ok _
          · rw [if_neg hcurrent]
            refine progresses_again (hrun.healthy hm) hkeys hapart ?_ hin hfollows
            exact (horderly.of_holds hholds).1.apart

end Apply

end Addons.Bundle
