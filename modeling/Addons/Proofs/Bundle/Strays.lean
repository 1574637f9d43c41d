import Addons.Proofs.Bundle.Frame

/-!
# What a removal leaves behind

A document is written and then tracked, by two requests. An apply that fails between the two leaves an object
that its record does not know (`CutShort`). A later apply that does not render it again does not prune it, and
a removal that succeeds does not delete it. `left_behind_iff_cut_short`: of all that the applies of a component
have written, a removal that succeeds leaves exactly that.
-/

namespace Addons.Bundle

/-- Every document in whose place there was a deed is tracked in the end, unless the run was cut short with the
write of the document as its last deed. -/
def Accounted (rendered : List Prepared) (r : RecordSpec) (es : List Event) (cut : Prop) : Prop :=
  ∀ p ∈ rendered, Event.lastLeft? es p.key.slot ≠ none →
    r.isTracked p.tracked ∨ cut ∧ ∃ live, Event.last? es = some ⟨p.key.slot, some live⟩

section Accounting

variable {ns name : String} {m m' : Memory} {es fs : List Event} {r r' : RecordSpec} {cut : Prop}
variable {record : ManifestRecord} {rendered : List Prepared} {fingerprint : String} {p : Prepared}

theorem last?_of_idle (h : Idle es) : Event.last? es = none := by
  cases hlast : Event.last? es with
  | none => rfl
  | some d =>
    have hleft := Event.lastLeft?_of_last? hlast
    rw [h] at hleft
    cases hleft

/-- To write a document is one deed. -/
theorem Landed.last? {live : Object} (h : Landed m p live es) :
    Event.last? es = some ⟨p.key.slot, some live⟩ := by
  have hself : Event.lastLeft? [some ⟨p.key.slot, some live⟩] p.key.slot = some (some live) :=
    Event.lastLeft?_concat_self [] ⟨p.key.slot, some live⟩
  cases hlast : Event.last? es with
  | none =>
    have hleft := h.left p.key.slot
    rw [Event.last?_eq_none hlast, hself] at hleft
    cases hleft
  | some d =>
    have hleft := (h.left d.slot).symm.trans (Event.lastLeft?_of_last? hlast)
    by_cases hs : p.key.slot = d.slot
    · rw [← hs, hself] at hleft
      rw [hs, Option.some.inj hleft]
    · rw [lastLeft?_single_ne (d := ⟨p.key.slot, some live⟩) (Ne.symm hs)] at hleft
      cases hleft

theorem Landed.slot_eq {live : Object} {s : Slot} (h : Landed m p live es)
    (hs : Event.lastLeft? es s ≠ none) : s = p.key.slot := by
  by_contra hne
  rw [h.left, lastLeft?_single_ne (d := ⟨p.key.slot, some live⟩) hne] at hs
  exact hs rfl

theorem Accounted.of_idle (h : Idle es) : Accounted rendered r es cut :=
  fun _ _ hne => absurd (h _) hne

/-- What comes first is tracked, or about no document. -/
theorem Accounted.prepend (h : Accounted rendered r fs cut)
    (hes : ∀ p ∈ rendered, Event.lastLeft? es p.key.slot ≠ none → r.isTracked p.tracked) :
    Accounted rendered r (es ++ fs) cut := by
  intro p hp hne
  by_cases hfs : Event.lastLeft? fs p.key.slot = none
  · rw [Event.lastLeft?_append, hfs, Option.none_or] at hne
    exact .inl (hes p hp hne)
  · refine (h p hp hfs).imp_right fun ⟨hcut, live, hlast⟩ => ⟨hcut, live, ?_⟩
    rw [Event.last?_append, hlast]
    rfl

theorem Accounted.all_tracked (h : Accounted rendered r es cut) (hcut : ¬cut) (hp : p ∈ rendered)
    (hne : Event.lastLeft? es p.key.slot ≠ none) : r.isTracked p.tracked :=
  (h p hp hne).resolve_right fun hc => hcut hc.1

theorem isTracked_of_slot {q : Prepared} (hp : p.tracked.Placed) (hq : q.tracked.Placed)
    (hslot : q.key.slot = p.key.slot) (h : r.isTracked p.tracked) : r.isTracked q.tracked := by
  have hsame : p.tracked.sameIdentity q.tracked := (Tracked.slot_eq_iff hp hq).1 hslot.symm
  unfold RecordSpec.isTracked at h ⊢
  simpa only [Tracked.sameIdentity_congr_right hsame] using h

/-! ## Documents -/

/-- Documents are tracked as they are written. -/
theorem runs_applyAll_accounted {ps : List Prepared} {a : Except Error ManifestRecord}
    (hdocs : ∀ p ∈ rendered, p.object.key = .ok p.key ∧ p.tracked.Placed ∧ p.key.slot ≠ own ns name)
    (hps : ps ⊆ rendered) (hh : Holds ns name m r) (hin : InHand ns name record r)
    (h : (applyAll record ps).Runs m es a m') :
    ∃ r', (∀ u, r.isTracked u → r'.isTracked u) ∧ Stored ns name m' r'
      ∧ (∀ record', a = .ok record' → Holds ns name m' r' ∧ InHand ns name record' r')
      ∧ Accounted rendered r' es (∃ e, a = .error e) := by
  induction ps generalizing record r m es with
  | nil =>
    obtain ⟨rfl, rfl, rfl⟩ := h
    refine ⟨r, fun _ hu => hu, hh.stored, ?_, .of_idle fun _ => rfl⟩
    rintro record' ⟨rfl⟩
    exact ⟨hh, hin⟩
  | cons p ps ih =>
    have hp : p ∈ rendered := hps List.mem_cons_self
    obtain ⟨hkey, hplaced, hne⟩ := hdocs p hp
    have hrest : ps ⊆ rendered := fun q hq => hps (List.mem_cons_of_mem p hq)
    -- once the document is tracked, its write is accounted for
    have tracked : ∀ {gs : List Event} {live : Object} {r' : RecordSpec}, Landed m p live gs →
        r'.isTracked p.tracked → ∀ q ∈ rendered, Event.lastLeft? gs q.key.slot ≠ none →
        r'.isTracked q.tracked := by
      intro gs live r' hlanded htracked q hq hdeed
      exact isTracked_of_slot hplaced (hdocs q hq).2.1 (hlanded.slot_eq hdeed) htracked
    have stay : ∀ {gs : List Event} {live : Object} {b : Except Error Unit} {m₁ : Memory},
        (createOrAdopt p).Runs m gs b m₁ → Landed m p live gs → Holds ns name m₁ r := by
      intro gs live b m₁ hrun hlanded
      refine hh.congr (object?_of_lastLeft? hrun ?_)
      exact (hlanded.left _).trans (lastLeft?_single_ne (Ne.symm hne))
    rcases Session.runs_bind.1 h with ⟨⟨⟩, m₁, es₁, es₂, h₁, rfl, h₂⟩ | ⟨e, h₁, rfl⟩
    swap
    · rcases runs_createOrAdopt hkey h₁ with ⟨hidle, -⟩ | ⟨live, hlanded⟩
      · exact ⟨r, fun _ hu => hu, hh.stored.congr (object?_of_lastLeft? h₁ (hidle _)), (fun _ h => nomatch h),
          .of_idle hidle⟩
      · refine ⟨r, fun _ hu => hu, (stay h₁ hlanded).stored, (fun _ h => nomatch h), fun q _ hdeed => ?_⟩
        rw [hlanded.slot_eq hdeed]
        exact .inr ⟨⟨e, rfl⟩, live, hlanded.last?⟩
    rcases runs_createOrAdopt hkey h₁ with ⟨-, e, he⟩ | ⟨live, hlanded⟩
    · cases he
    have hh₁ := stay h₁ hlanded
    by_cases hexact : record.spec.tracksExactly p.tracked
    · rw [if_pos hexact] at h₂
      obtain ⟨r', hkeeps, hstored, hok, hacc⟩ := ih hrest hh₁ hin h₂
      have hr : r.isTracked p.tracked := by
        rw [RecordSpec.isTracked_eq, ← hin.ledger]
        exact (congrArg Option.isSome (RecordSpec.tracksExactly_iff.1 hexact)).trans rfl
      exact ⟨r', hkeeps, hstored, hok, hacc.prepend (tracked hlanded (hkeeps _ hr))⟩
    · rw [if_neg hexact] at h₂
      have htrack := hin.track p.tracked
      have hself : (r.track p.tracked).isTracked p.tracked :=
        RecordSpec.isTracked_track.2 (.inl (Tracked.sameIdentity_refl _))
      have hmono : ∀ u, r.isTracked u → (r.track p.tracked).isTracked u :=
        fun _ hu => RecordSpec.isTracked_track.2 (.inr hu)
      have hwrites : ∀ {gs : List Event}, (∀ s ≠ own ns name, Event.lastLeft? gs s = none) →
          ∀ q ∈ rendered, Event.lastLeft? gs q.key.slot = none := fun hgs q hq => hgs _ (hdocs q hq).2.2
      rcases Session.runs_bind.1 h₂ with ⟨record₂, m₂, es₃, es₄, h₃, rfl, h₄⟩ | ⟨e, h₃, rfl⟩
      · rcases runs_save htrack h₃ with ⟨-, e, he⟩ | ⟨hgs, ⟨-, e, he⟩ | ⟨hh₂, _, ⟨rfl⟩, hin₂⟩⟩
        · cases he
        · cases he
        obtain ⟨r', hkeeps, hstored, hok, hacc⟩ := ih hrest hh₂ hin₂ h₄
        refine ⟨r', fun u hu => hkeeps u (hmono u hu), hstored, hok, ?_⟩
        refine Accounted.prepend ?_ (tracked hlanded (hkeeps _ hself))
        exact hacc.prepend fun q hq hdeed => absurd (hwrites hgs q hq) hdeed
      · rcases runs_save htrack h₃ with ⟨hidle, -⟩ | ⟨hgs, ⟨hstored, -⟩ | ⟨-, _, he, -⟩⟩
        · -- the write is the last deed
          refine ⟨r, fun _ hu => hu, hh₁.stored.congr (object?_of_lastLeft? h₃ (hidle _)),
            (fun _ h => nomatch h), fun q _ hdeed => ?_⟩
          rw [Event.lastLeft?_append, hidle, Option.none_or] at hdeed
          rw [hlanded.slot_eq hdeed, Event.last?_append, last?_of_idle hidle, Option.none_or]
          exact .inr ⟨⟨e, rfl⟩, live, hlanded.last?⟩
        · refine ⟨r.track p.tracked, hmono, hstored, (fun _ h => nomatch h), ?_⟩
          refine Accounted.prepend ?_ (tracked hlanded hself)
          exact fun q hq hdeed => absurd (hwrites hgs q hq) hdeed
        · cases he

/-! ## Passes -/

variable (rendered) in
/-- Pruning and settling leave a document alone that is not stale, and keep it tracked. -/
theorem kept_of_steps {shelf : Slot → Option Object} {ts : List Tracked} {log : List Event} {σ : Pass}
    (hts : ∀ t ∈ ts, ¬t.sameIdentity p.tracked ∧ t.slot ≠ p.key.slot)
    (hs : Steps shelf rendered ⟨.prune ts, r, log⟩ σ) :
    (r.isTracked p.tracked → σ.record.isTracked p.tracked)
      ∧ Event.lastLeft? σ.log p.key.slot = Event.lastLeft? log p.key.slot := by
  have hinv : ((r.isTracked p.tracked → σ.record.isTracked p.tracked)
        ∧ Event.lastLeft? σ.log p.key.slot = Event.lastLeft? log p.key.slot)
      ∧ match σ.phase with
        | .prune us => us ⊆ ts
        | .forget u us => u ∈ ts ∧ us ⊆ ts
        | .done => True
        | _ => False := by
    induction hs with
    | refl => exact ⟨⟨id, rfl⟩, List.Subset.refl ts⟩
    | tail _ hstep ih =>
      obtain ⟨⟨htracked, hlog⟩, hphase⟩ := ih
      cases hstep with
      | write _ => exact absurd hphase id
      | track => exact absurd hphase id
      | turn => exact absurd hphase id
      | @prune t us _ _ =>
        have ht : t ∈ ts := hphase List.mem_cons_self
        refine ⟨⟨htracked, ?_⟩, List.cons_subset.1 hphase⟩
        exact (Event.lastLeft?_concat_ne (d := ⟨t.slot, none⟩) (hts t ht).2 _).trans hlog
      | gone _ => exact ⟨⟨htracked, hlog⟩, List.cons_subset.1 hphase⟩
      | forget =>
        refine ⟨⟨fun h => ?_, hlog⟩, hphase.2⟩
        exact RecordSpec.isTracked_untrack.2 ⟨(hts _ hphase.1).1, htracked h⟩
      | settle =>
        refine ⟨⟨fun h => ?_, hlog⟩, trivial⟩
        unfold RecordSpec.isTracked at htracked ⊢
        rw [RecordSpec.promote_objects]
        exact htracked h
  exact hinv.1

theorem Shown.begin (h : Stored ns name m r) : Shown ns name m.objects.find? [] m r [] where
  record := h
  log := fun _ _ => rfl
  store := fun _ => rfl

variable {done : Slot → Prop} {m₀ : Memory}

/-- A pass accounts for the documents that it writes. -/
theorem runs_converge_accounted {a : Except Error ApplyReport}
    (hdocs : ∀ p ∈ rendered, p.object.key = .ok p.key ∧ p.tracked.Placed ∧ p.key.slot ≠ own ns name)
    (horderly : Orderly ns name done m₀)
    (hstale : ∀ t ∈ r.stale (rendered.map Prepared.tracked), Outdated ns name m₀ rendered t)
    (hh : Holds ns name m r) (hin : InHand ns name record r)
    (h : (converge record fingerprint rendered).Runs m es a m') :
    ∃ r', Stored ns name m' r' ∧ Accounted rendered r' es (∃ e, a = .error e) := by
  rcases Session.runs_bind.1 h with ⟨record₁, m₁, es₁, es₂, h₁, rfl, h₂⟩ | ⟨e, h₁, rfl⟩
  swap
  · obtain ⟨r', -, hstored, -, hacc⟩ := runs_applyAll_accounted hdocs (List.Subset.refl _) hh hin h₁
    exact ⟨r', hstored, fun p hp hdeed => (hacc p hp hdeed).imp_right fun ⟨_, hlast⟩ => ⟨⟨e, rfl⟩, hlast⟩⟩
  obtain ⟨r₁, -, -, hok, hacc⟩ := runs_applyAll_accounted hdocs (List.Subset.refl _) hh hin h₁
  obtain ⟨hh₁, hin₁⟩ := hok record₁ rfl
  obtain ⟨-, hts, -⟩ := hin.outdated (fun p hp => (hdocs p hp).1) hstale h₁
  -- all that was written is tracked by now, and is not stale
  have hwritten : ∀ p ∈ rendered, Event.lastLeft? es₁ p.key.slot ≠ none → r₁.isTracked p.tracked :=
    fun p hp => hacc.all_tracked (fun ⟨_, he⟩ => nomatch he) hp
  have hapart : ∀ t ∈ record₁.spec.stale (rendered.map Prepared.tracked),
      t.slot ≠ own ns name ∧ ∀ p ∈ rendered, t.slot ≠ p.key.slot :=
    fun t ht => (hts t ht).apart horderly fun p hp => (hdocs p hp).2.1
  have hfresh : ∀ p ∈ rendered, ∀ t ∈ record₁.spec.stale (rendered.map Prepared.tracked),
      ¬t.sameIdentity p.tracked ∧ t.slot ≠ p.key.slot := fun p hp t ht =>
    ⟨fun hsame => (hts t ht).2 p hp (Tracked.sameIdentity_symm hsame), (hapart t ht).2 p hp⟩
  have hdone : ∀ {gs : List Event} {r' : RecordSpec},
      (∀ p ∈ rendered, (r₁.isTracked p.tracked → r'.isTracked p.tracked)
        ∧ Event.lastLeft? gs p.key.slot = none) →
      Accounted rendered r' (es₁ ++ gs) (∃ e, a = .error e) := by
    intro gs r' hgs
    have hsilent : Accounted rendered r' gs (∃ e, a = .error e) :=
      fun p hp hdeed => absurd (hgs p hp).2 hdeed
    exact hsilent.prepend fun p hp hdeed => (hgs p hp).1 (hwritten p hp hdeed)
  rcases Session.runs_bind.1 h₂ with ⟨record₂, m₂, es₃, es₄, h₃, rfl, h₄⟩ | ⟨e, h₃, rfl⟩
  · obtain ⟨σ, hpath, hshown, hok₂⟩ :=
      runs_prune (fun t ht => (hapart t ht).1) (.begin hh₁.stored) hh₁ hin₁ h₃
    obtain ⟨hph, hh₂, hin₂⟩ := hok₂ record₂ rfl
    have last : ∀ {gs : List Event} {b : Except Error ManifestRecord} {m₃ : Memory},
        (settle record₂).Runs m₂ gs b m₃ →
        ∃ r', Stored ns name m₃ r' ∧ Accounted rendered r' (es₁ ++ (es₃ ++ gs)) (∃ e, a = .error e) := by
      intro gs b m₃ hrun
      obtain ⟨σ', hpath', hshown', -⟩ := runs_settle rendered (.begin hh₂.stored) hh₂ hin₂ hrun
      refine ⟨σ'.record, hshown'.record, hdone fun p hp => ?_⟩
      have hne := (hdocs p hp).2.2
      obtain ⟨hkeeps, hlog⟩ := kept_of_steps rendered (hfresh p hp) hpath
      obtain ⟨hkeeps', hlog'⟩ := kept_of_steps rendered (p := p) (fun _ h => absurd h List.not_mem_nil) hpath'
      refine ⟨fun h => hkeeps' (hkeeps h), ?_⟩
      rw [Event.lastLeft?_append, show Event.lastLeft? gs p.key.slot = _ from hshown'.log _ hne, hlog',
        show Event.lastLeft? es₃ p.key.slot = _ from hshown.log _ hne, hlog]
      rfl
    rcases Session.runs_bind.1 h₄ with ⟨record₃, m₃, es₅, es₆, h₅, rfl, rfl, -, rfl⟩ | ⟨e, h₅, -⟩
    · rw [List.append_nil]
      exact last h₅
    · exact last h₅
  · obtain ⟨σ, hpath, hshown, -⟩ :=
      runs_prune (fun t ht => (hapart t ht).1) (.begin hh₁.stored) hh₁ hin₁ h₃
    refine ⟨σ.record, hshown.record, hdone fun p hp => ?_⟩
    obtain ⟨hkeeps, hlog⟩ := kept_of_steps rendered (hfresh p hp) hpath
    exact ⟨hkeeps, (hshown.log _ (hdocs p hp).2.2).trans hlog⟩

/-! ## Applying -/

/-- The stored record can be read, if there is one. -/
def Readable (ns name : String) (m : Memory) : Prop :=
  ∀ o, m.object? (recordKey ns name) = some o → ∃ record, manifestRecords.ofObject o = .ok record

variable {render : Renderer} {spec : ManifestSpec} {owner : Option OwnerReference}

/-- An apply does nothing to a record that cannot be read. -/
theorem Readable.before {a : Except Error ApplyReport} (h : Readable ns name m')
    (hrun : (apply render ns name spec owner).Runs m es a m') : Readable ns name m := by
  intro o ho
  rcases runs_apply_cases hrun with ⟨rfl, -⟩ | ⟨bytes, rendered, -, -, hproceeds⟩
  · exact h o ((object?_of_lastLeft? hrun rfl).trans ho)
  cases hproceeds with
  | first _ _ hnone _ =>
    rw [ho] at hnone
    cases hnone
  | current ho' hread _ _ _ _ =>
    obtain rfl := Option.some.inj (ho.symm.trans ho')
    exact ⟨_, hread⟩
  | again _ _ ho' hread _ _ =>
    obtain rfl := Option.some.inj (ho.symm.trans ho')
    exact ⟨_, hread⟩

/-- A first apply accounts for the documents that it writes. -/
theorem runs_first_accounted {a : Except Error ApplyReport}
    (hdocs : ∀ p ∈ rendered, p.object.key = .ok p.key ∧ p.tracked.Placed ∧ p.key.slot ≠ own ns name)
    (horderly : Orderly ns name done m₀)
    (h : (applyFirst ns name spec owner fingerprint rendered).Runs m es a m') :
    Idle es ∨ ∃ r', Stored ns name m' r' ∧ Accounted rendered r' es (∃ e, a = .error e) := by
  have hin : InHand ns name (newRecord ns name spec fingerprint owner) (.fresh fingerprint) :=
    ⟨rfl, rfl, RecordSpec.ledger_ofSpec spec fingerprint⟩
  rcases Session.runs_bind.1 h with ⟨created, m₁, es₁, es₂, h₁, rfl, h₂⟩ | ⟨e, h₁, rfl⟩
  · obtain ⟨k, hk, ho, rfl, hm⟩ := Session.runs_createNew_ok h₁
    obtain rfl := Except.ok.inj ((key_record hin).symm.trans hk)
    have hfind := Memory.object?_of_insert hm
    have htells := tells_of_unstamped hin ho.unstamped
    have hown : ∀ p ∈ rendered, Event.lastLeft? [some ⟨own ns name, some created⟩] p.key.slot = none :=
      fun p hp => lastLeft?_single_ne (hdocs p hp).2.2
    rcases Session.runs_lift_bind.1 h₂ with ⟨record, hread, h₃⟩ | ⟨e, -, rfl, rfl, rfl⟩
    · have hin' := htells record hread
      obtain ⟨r', hstored, hacc⟩ := runs_converge_accounted hdocs horderly no_stale_fresh
        ⟨created, record, hfind, hread, hin'⟩ hin' h₃
      exact .inr ⟨r', hstored, hacc.prepend fun p hp hdeed => absurd (hown p hp) hdeed⟩
    · rw [List.append_nil]
      exact .inr ⟨_, ⟨created, hfind, htells⟩, fun p hp hdeed => absurd (hown p hp) hdeed⟩
  · rcases Session.runs_createNew h₁ with ⟨rfl, -, -⟩ | ⟨k, o, hk, -, ho, rfl, hm, -⟩
    · exact .inl fun _ => rfl
    · obtain rfl := Except.ok.inj ((key_record hin).symm.trans hk)
      refine .inr ⟨_, ⟨o, Memory.object?_of_insert hm, tells_of_unstamped hin ho.unstamped⟩, ?_⟩
      exact fun p hp hdeed => absurd (lastLeft?_single_ne (hdocs p hp).2.2) hdeed

/-- A later apply accounts for the documents that it writes. -/
theorem runs_again_accounted {a : Except Error ApplyReport}
    (hdocs : ∀ p ∈ rendered, p.object.key = .ok p.key ∧ p.tracked.Placed ∧ p.key.slot ≠ own ns name)
    (horderly : Orderly ns name done m₀) (hr : r.objects = trackedIn ns name m₀) (hh : Holds ns name m r)
    (hin : InHand ns name record r) (h : (applyAgain record spec fingerprint rendered).Runs m es a m') :
    Idle es ∨ ∃ r', Stored ns name m' r' ∧ Accounted rendered r' es (∃ e, a = .error e) := by
  have hbegun : (r.begun fingerprint).objects = trackedIn ns name m₀ := hr
  rcases Session.runs_bind.1 h with ⟨record', m₁, es₁, es₂, h₁, rfl, h₂⟩ | ⟨e, h₁, rfl⟩
  · rcases runs_begin hh hin h₁ with ⟨-, e, he⟩ | ⟨hes, ⟨-, e, he⟩ | ⟨hh', _, ⟨rfl⟩, hin'⟩⟩
    · cases he
    · cases he
    · obtain ⟨r', hstored, hacc⟩ :=
        runs_converge_accounted hdocs horderly (outdated_of_stale hbegun) hh' hin' h₂
      exact .inr ⟨r', hstored, hacc.prepend fun p hp hdeed => absurd (hes _ (hdocs p hp).2.2) hdeed⟩
  · rcases runs_begin hh hin h₁ with ⟨hes, -⟩ | ⟨hes, ⟨hstored, -⟩ | ⟨-, _, he, -⟩⟩
    · exact .inl hes
    · exact .inr ⟨_, hstored, fun p hp hdeed => absurd (hes _ (hdocs p hp).2.2) hdeed⟩
    · cases he

/-- Whatever comes of an apply, its record knows the documents that it wrote, but for one whose write was its
last deed. -/
theorem runs_apply_accounted {a : Except Error ApplyReport} (horderly : Orderly ns name done m)
    (hleaves : LeavesRecord render ns name spec) (h : (apply render ns name spec owner).Runs m es a m') :
    Idle es ∨ ∃ r', Stored ns name m' r'
      ∧ Accounted (renderedOf render ns name spec) r' es (∃ e, a = .error e) := by
  rcases runs_apply_cases h with ⟨rfl, -⟩ | ⟨bytes, rendered, hbytes, hrendered, hproceeds⟩
  · exact .inl fun _ => rfl
  rw [renderedOf_eq hbytes hrendered]
  have hdocs : ∀ p ∈ rendered, p.object.key = .ok p.key ∧ p.tracked.Placed ∧ p.key.slot ≠ own ns name :=
    fun p hp => ⟨(of_prepare hrendered p hp).1, (of_prepare hrendered p hp).2,
      hleaves bytes rendered hbytes hrendered p hp⟩
  cases hproceeds with
  | first _ _ _ h => exact runs_first_accounted hdocs horderly h
  | current _ _ _ hes _ _ =>
    rw [hes]
    exact .inl fun _ => rfl
  | again hm _ ho hread _ h =>
    obtain ⟨hholds, hin⟩ := horderly.holds_of_read ho hread
    exact runs_again_accounted hdocs horderly (trackedIn_of_holds hholds).symm
      (hholds.congr (Memory.object?_congr hm _)) hin h

/-- An apply that writes a document and does not track it fails with that as its last deed. -/
theorem cut_of_untracked {a : Except Error ApplyReport} (horderly : Orderly ns name done m)
    (hleaves : LeavesRecord render ns name spec) (h : (apply render ns name spec owner).Runs m es a m')
    (hread : Readable ns name m') (hp : p ∈ renderedOf render ns name spec)
    (hdeed : Event.lastLeft? es p.key.slot ≠ none) (hun : ∀ t ∈ trackedIn ns name m', t.slot ≠ p.key.slot) :
    (∃ e, a = .error e) ∧ ∃ live, Event.last? es = some ⟨p.key.slot, some live⟩ := by
  rcases runs_apply_accounted horderly hleaves h with hidle | ⟨r', ⟨o, ho, htells⟩, hacc⟩
  · exact absurd (hidle _) hdeed
  refine (hacc p hp hdeed).resolve_left fun htracked => ?_
  obtain ⟨record, hrecord⟩ := hread o ho
  have hholds : Holds ns name m' r' := ⟨o, record, ho, hrecord, htells record hrecord⟩
  obtain ⟨t, ht, hsame⟩ := List.any_eq_true.1 htracked
  have htidy := ((orderly_apply horderly hleaves h).of_holds hholds).1
  rw [trackedIn_of_holds hholds] at hun
  refine hun t ht ?_
  exact (Tracked.slot_eq_iff (htidy.placed t ht) (mem_renderedOf hleaves hp).1).2 hsame

/-- What was tracked and is still there is tracked. -/
theorem Sound.isTracked {shelf : Slot → Option Object} {σ : Pass} {t : Tracked}
    (h : Sound shelf rendered r σ) (hd : r.Distinct) (ht : t ∈ r.objects)
    (hthere : after shelf σ.log t.slot ≠ none) : σ.record.isTracked t := by
  have hheld : r.held? t = some t := RecordSpec.held?_eq_some hd ht
  have hamong : ∀ {ts : List Tracked}, t ∈ ts → entryAmong r ts t = some t := by
    intro ts hts
    have hany : (ts.any fun u => u.sameIdentity t) = true :=
      List.any_eq_true.2 ⟨t, hts, Tracked.sameIdentity_refl t⟩
    unfold entryAmong
    rw [if_pos hany, hheld]
  rw [RecordSpec.isTracked_eq, h.entries t]
  by_cases hrendered : ∃ p ∈ rendered, p.tracked.sameIdentity t
  · obtain ⟨p, hp, hsame⟩ := hrendered
    obtain ⟨q, hq⟩ := exists_lastOf hp
    rw [lastOf_congr hsame] at hq
    cases σ.phase <;> simp [Phase.entries, hheld, hq]
  · have hstale : t ∈ r.stale (rendered.map Prepared.tracked) := by
      refine RecordSpec.mem_stale.2 ⟨ht, ?_⟩
      rw [List.forall_mem_map]
      exact fun p hp hsame => hrendered ⟨p, hp, hsame⟩
    have hleft : t ∈ σ.phase.stale rendered r := by
      by_contra hnot
      exact hthere (h.absent t hstale hnot)
    cases hph : σ.phase with
    | write before after => simp [Phase.entries, hheld]
    | track before p after => simp [Phase.entries, hheld]
    | prune ts =>
      rw [hph] at hleft
      have hts : t ∈ ts := hleft
      simp [Phase.entries, hamong hts]
    | forget u ts =>
      rw [hph] at hleft
      have hts : t ∈ u :: ts := List.mem_cons_of_mem u hleft
      simp [Phase.entries, hamong hts]
    | done =>
      rw [hph] at hleft
      exact absurd hleft List.not_mem_nil

/-- An apply that has no deed in the place of an object that is there tracks it as before. -/
theorem untracked_iff {a : Except Error ApplyReport} {s : Slot} (horderly : Orderly ns name done m)
    (hleaves : LeavesRecord render ns name spec) (h : (apply render ns name spec owner).Runs m es a m')
    (hread : Readable ns name m') (hdeed : Event.lastLeft? es s = none) (hthere : m.objects.find? s ≠ none) :
    (∀ t ∈ trackedIn ns name m', t.slot ≠ s) ↔ ∀ t ∈ trackedIn ns name m, t.slot ≠ s := by
  rcases runs_apply horderly hleaves h with
    ⟨hidle, -⟩ | ⟨bytes, rendered, hbytes, hrendered, ⟨r, -, -, hm⟩ | ⟨r, σ, hwent⟩⟩
  · rw [trackedIn_eq_of_object? (object?_of_lastLeft? h (hidle _))]
  · rw [trackedIn_eq_of_object? (Memory.object?_congr hm _)]
  have hdocs := fun p hp =>
    And.intro (of_prepare hrendered p hp).2 (hleaves bytes rendered hbytes hrendered p hp)
  have htidy := hwent.start.tidy horderly
  have hsound := hwent.sound horderly fun p hp => (hdocs p hp).1
  have htidy' : σ.record.Tidy (own ns name) := hsound.tidy hdocs htidy
  obtain ⟨o, ho, htells⟩ := hwent.shown.record
  obtain ⟨record, hrecord⟩ := hread o ho
  have hholds : Holds ns name m' σ.record := ⟨o, record, ho, hrecord, htells record hrecord⟩
  rw [trackedIn_of_holds hholds, ← hwent.start.objects]
  constructor
  · intro hun t ht hslot
    have hne : s ≠ own ns name := hslot ▸ htidy.apart t ht
    have hstill : after m.objects.find? σ.log t.slot ≠ none := by
      rw [hslot, ← hwent.shown.find? hne, h.find?, hdeed]
      exact hthere
    obtain ⟨u, hu, hsame⟩ := List.any_eq_true.1 (hsound.isTracked htidy.distinct ht hstill)
    refine hun u hu (Eq.trans ?_ hslot)
    exact Tracked.slot_eq_of_sameIdentity (htidy'.placed u hu) (htidy.placed t ht) hsame
  · intro hun t ht hslot
    have hnew : t ∉ r.objects := fun hold => hun t hold hslot
    have hlog := hsound.lastLeft?_ne_none (fun p hp => (hdocs p hp).1) ht hnew
    rw [hslot, ← hwent.shown.log s (hslot ▸ htidy'.apart t ht)] at hlog
    exact hlog hdeed

/-! ## Removing -/

theorem trackedIn_of_read {o : Object} (ho : m.object? (recordKey ns name) = some o)
    (hread : manifestRecords.ofObject o = .ok record) : trackedIn ns name m = record.spec.objects := by
  unfold trackedIn
  rw [ho]
  dsimp only
  rw [hread]

theorem trackedIn_of_none (h : m.object? (recordKey ns name) = none) : trackedIn ns name m = [] := by
  unfold trackedIn
  rw [h]

/-- What a removal does, as it is noted: it deletes the record of the component and what that tracks. -/
inductive Removes (ns name : String) (m : Memory) : Deed → Change → Prop
  | record : Removes ns name m ⟨own ns name, none⟩ (.delete (recordKey ns name))
  | tracked {t : Tracked} : t ∈ trackedIn ns name m →
      Removes ns name m ⟨t.slot, none⟩ (.delete (Key.ofTracked t))

theorem does_removeTracked {m₀ : Memory} {ts : List Tracked} (hts : ∀ t ∈ ts, t ∈ trackedIn ns name m₀) :
    (removeTracked ts).Does (Removes ns name m₀) m := by
  induction ts generalizing m with
  | nil => exact Session.does_done _
  | cons t ts ih =>
    have hrest := fun u hu => hts u (List.mem_cons_of_mem t hu)
    refine Session.Does.bind (Session.does_removeIfExists ?_) fun _ _ _ _ => ?_
    · exact .tracked (hts t List.mem_cons_self)
    · exact Session.Does.bind (ih hrest) fun _ _ _ _ => Session.does_done _

theorem does_remove : (remove ns name).Does (Removes ns name m) m := by
  refine Session.Does.bind does_record? fun _ found m₁ h₁ => ?_
  obtain ⟨-, -, -, hsome⟩ := runs_record? h₁
  cases found with
  | none => exact Session.does_done _
  | some record =>
    obtain ⟨o, ho, hread⟩ := hsome record rfl
    have htracked : ∀ t ∈ record.spec.objects, t ∈ trackedIn ns name m := by
      rw [trackedIn_of_read ho hread]
      exact fun _ ht => ht
    refine Session.Does.bind (does_removeTracked htracked) fun _ _ _ _ => ?_
    exact Session.Does.bind (Session.does_removeIfExists .record) fun _ _ _ _ => Session.does_done _

/-- A removal takes away the record and what that tracks, all of it or some, and nothing else. -/
theorem runs_remove_spares {r : Except Error Nat} (h : (remove ns name).Runs m es r m') (s : Slot) :
    m'.objects.find? s = m.objects.find? s
      ∨ m'.objects.find? s = none ∧ (s = own ns name ∨ ∃ t ∈ trackedIn ns name m, t.slot = s) := by
  rw [h.find?]
  cases hlast : Event.lastLeft? es s with
  | none => exact .inl rfl
  | some left =>
    obtain ⟨c, hc⟩ := (does_remove es r m' h).all _ (Event.mem_of_lastLeft? hlast)
    cases hc with
    | record => exact .inr ⟨rfl, .inl rfl⟩
    | tracked ht => exact .inr ⟨rfl, .inr ⟨_, ht, rfl⟩⟩

/-- A removal that gets through its objects leaves none of them. -/
theorem runs_removeTracked_ok {ts : List Tracked} {n : Nat} (h : (removeTracked ts).Runs m es (.ok n) m') :
    ∀ t ∈ ts, m'.objects.find? t.slot = none := by
  induction ts generalizing n m m' es with
  | nil => exact fun t ht => absurd ht List.not_mem_nil
  | cons t ts ih =>
    obtain ⟨existed, m₁, es₁, es₂, h₁, h₂⟩ := Session.runs_bind_ok h
    obtain ⟨more, m₂, es₃, es₄, h₃, -, -, rfl⟩ := Session.runs_bind_ok h₂
    intro u hu
    rcases List.mem_cons.1 hu with rfl | hu
    · have hgone : m₁.objects.find? u.slot = none := by
        rcases Session.runs_removeIfExists h₁ with ⟨-, hm, ⟨-, hnone⟩ | ⟨e, he⟩⟩ | ⟨-, hm, -⟩
        · rw [hm]
          exact hnone
        · cases he
        · exact Memory.object?_of_erase (k := Key.ofTracked u) hm
      rw [h₃.find?]
      rcases runs_removeTracked h₃ u.slot with hnone | ⟨hnone, -⟩
      · rw [hnone]
        exact hgone
      · rw [hnone]
        rfl
    · exact ih h₃ u hu

/-- A removal that succeeds deletes the record and all that it tracks, and nothing else. -/
theorem runs_remove_ok {n : Nat} (h : (remove ns name).Runs m es (.ok n) m') :
    Readable ns name m ∧ ∀ s, m'.objects.find? s ≠ none
      ↔ m.objects.find? s ≠ none ∧ s ≠ own ns name ∧ ∀ t ∈ trackedIn ns name m, t.slot ≠ s := by
  have hspares := runs_remove_spares h
  obtain ⟨found, m₁, es₁, es₂, h₁, h₂⟩ := Session.runs_bind_ok h
  obtain ⟨-, hm, hnone, hsome⟩ := runs_record? h₁
  cases found with
  | none =>
    obtain ⟨-, -, rfl⟩ := h₂
    have hmissing := hnone rfl
    refine ⟨fun o ho => absurd (hmissing.symm.trans ho) (Option.some_ne_none o).symm, fun s => ?_⟩
    rw [hm, trackedIn_of_none hmissing]
    refine ⟨fun hs => ⟨hs, ?_, by simp⟩, fun hs => hs.1⟩
    rintro rfl
    exact hs hmissing
  | some record =>
    obtain ⟨o, ho, hread⟩ := hsome record rfl
    have hreadable : Readable ns name m := by
      intro o' ho'
      obtain rfl := Option.some.inj (ho.symm.trans ho')
      exact ⟨record, hread⟩
    obtain ⟨deleted, m₂, es₃, es₄, h₃, h₄⟩ := Session.runs_bind_ok h₂
    obtain ⟨_, m₃, es₅, es₆, h₅, -, -, rfl⟩ := Session.runs_bind_ok h₄
    obtain ⟨hothers, hrecord⟩ := runs_removeRecord h₅
    have hown : m'.objects.find? (own ns name) = none := by
      rcases hrecord with hgone | ⟨-, e, he⟩
      · exact hgone
      · cases he
    have htracked : ∀ t ∈ trackedIn ns name m, m'.objects.find? t.slot = none := by
      intro t ht
      rw [trackedIn_of_read ho hread] at ht
      by_cases hs : t.slot = own ns name
      · rw [hs]
        exact hown
      · rw [h₅.find?, hothers t.slot hs]
        exact runs_removeTracked_ok h₃ t ht
    refine ⟨hreadable, fun s => ⟨fun hthere => ⟨?_, ?_, ?_⟩, fun ⟨hthere, hs, hun⟩ => ?_⟩⟩
    · rcases hspares s with hsame | ⟨hgone, -⟩
      · rwa [← hsame]
      · exact absurd hgone hthere
    · rintro rfl
      exact hthere hown
    · rintro t ht rfl
      exact hthere (htracked t ht)
    · rcases hspares s with hsame | ⟨-, hown | ⟨t, ht, hslot⟩⟩
      · rwa [hsame]
      · exact absurd hown hs
      · exact absurd hslot (hun t ht)

/-! ## Runs of applies -/

/-- The applies of a component one after the other from a store on, each with whatever came of it, and all that
they did. -/
inductive Applies (ns name : String) (m₀ : Memory) : List Event → Memory → Prop
  | start : Applies ns name m₀ [] m₀
  | apply {es fs : List Event} {m m' : Memory} {render : Renderer} {spec : ManifestSpec}
      {owner : Option OwnerReference} {a : Except Error ApplyReport} : Applies ns name m₀ es m →
      LeavesRecord render ns name spec → (apply render ns name spec owner).Runs m fs a m' →
      Applies ns name m₀ (es ++ fs) m'

/-- An apply that failed when it had written a document and its record did not know it yet. -/
structure CutShort (ns name : String) (m : Memory) (es : List Event) (m' : Memory) (s : Slot) : Prop where
  failed : ∃ render spec owner e, LeavesRecord render ns name spec
    ∧ (apply render ns name spec owner).Runs m es (.error e) m'
    ∧ ∃ p ∈ renderedOf render ns name spec, p.key.slot = s
  last : ∃ live, Event.last? es = some ⟨s, some live⟩
  untracked : ∀ t ∈ trackedIn ns name m', t.slot ≠ s

theorem Applies.kept (h : Applies ns name m₀ es m) (hkept : Kept ns name m₀) : Kept ns name m := by
  induction h with
  | start => exact hkept
  | apply _ hleaves hrun ih => exact .call ih (.apply hleaves hrun)

theorem Applies.find? (h : Applies ns name m₀ es m) (s : Slot) :
    m.objects.find? s = after m₀.objects.find? es s := by
  induction h with
  | start => rfl
  | apply _ _ hrun ih =>
    unfold after at ih ⊢
    rw [hrun.find?, ih, Event.lastLeft?_append, Option.getD_or]

/-- What was not tracked stays so, as long as no apply has a deed in its place. -/
theorem Applies.untracked_iff {s : Slot} (h : Applies ns name m₀ es m) (hkept : Kept ns name m₀)
    (hread : Readable ns name m) (hdeed : Event.lastLeft? es s = none) (hthere : m₀.objects.find? s ≠ none) :
    (∀ t ∈ trackedIn ns name m, t.slot ≠ s) ↔ ∀ t ∈ trackedIn ns name m₀, t.slot ≠ s := by
  induction h with
  | start => exact Iff.rfl
  | @apply es fs m m' _ _ _ _ happlies hleaves hrun ih =>
    rw [Event.lastLeft?_append, Option.or_eq_none_iff] at hdeed
    obtain ⟨hfs, hes⟩ := hdeed
    have hstill : m.objects.find? s ≠ none := by
      rw [happlies.find?, after, hes]
      exact hthere
    rw [Bundle.untracked_iff (happlies.kept hkept).orderly hleaves hrun hread hfs hstill]
    exact ih (hread.before hrun) hes

/-- What was written and is there without being tracked was written by an apply that was cut short, after which
nothing was done about it. -/
theorem Applies.exists_cutShort {s : Slot} (h : Applies ns name m₀ es m) (hkept : Kept ns name m₀)
    (hread : Readable ns name m) (hs : s ≠ own ns name) (hdeed : Event.lastLeft? es s ≠ none)
    (hthere : m.objects.find? s ≠ none) (hun : ∀ t ∈ trackedIn ns name m, t.slot ≠ s) :
    ∃ es₁ m₁ fs m₂ es₂, Applies ns name m₀ es₁ m₁ ∧ CutShort ns name m₁ fs m₂ s
      ∧ Applies ns name m₂ es₂ m ∧ es = es₁ ++ (fs ++ es₂) ∧ Event.lastLeft? es₂ s = none := by
  induction h with
  | start => exact absurd rfl hdeed
  | @apply es fs m m' render spec owner a happlies hleaves hrun ih =>
    have horderly := (happlies.kept hkept).orderly
    cases hfs : Event.lastLeft? fs s with
    | none =>
      have hes : Event.lastLeft? es s ≠ none := by
        rwa [Event.lastLeft?_append, hfs, Option.none_or] at hdeed
      have hsame : m'.objects.find? s = m.objects.find? s := by
        rw [hrun.find?, hfs]
        rfl
      rw [hsame] at hthere
      rw [Bundle.untracked_iff horderly hleaves hrun hread hfs hthere] at hun
      obtain ⟨es₁, m₁, gs, m₂, es₂, h₁, hcut, h₂, rfl, hnone⟩ := ih (hread.before hrun) hes hthere hun
      refine ⟨es₁, m₁, gs, m₂, es₂ ++ fs, h₁, hcut, h₂.apply hleaves hrun, by simp, ?_⟩
      rw [Event.lastLeft?_append, hfs, hnone]
      rfl
    | some left =>
      have hleft : m'.objects.find? s = left := by
        rw [hrun.find?, hfs]
        rfl
      -- the deed left an object outside of the record, so that it wrote a document
      obtain ⟨c, sum, hright⟩ := (does_apply horderly fs a m' hrun).all _ (Event.mem_of_lastLeft? hfs)
      have hdoc : ∃ p ∈ renderedOf render ns name spec, p.key.slot = s := by
        generalize hd : (⟨s, left⟩ : Deed) = d at hright
        cases hright with
        | record _ _ _ => exact absurd (Deed.mk.inj hd).1 hs
        | document hp _ _ => exact ⟨_, hp, (Deed.mk.inj hd).1.symm⟩
        | delete _ => exact absurd (hleft.trans (Deed.mk.inj hd).2) hthere
      obtain ⟨p, hp, rfl⟩ := hdoc
      have hne : Event.lastLeft? fs p.key.slot ≠ none := by
        rw [hfs]
        exact Option.some_ne_none left
      obtain ⟨⟨e, rfl⟩, hlast⟩ := cut_of_untracked horderly hleaves hrun hread hp hne hun
      exact ⟨es, m, fs, m', [], happlies, ⟨⟨_, _, _, e, hleaves, hrun, p, hp, rfl⟩, hlast, hun⟩, .start,
        by simp, rfl⟩

/-- Of what the applies of a component have done, a removal that succeeds leaves exactly the objects that an
apply wrote last before it was cut short, and that nothing was done about since. -/
theorem left_behind_iff_cut_short {gs : List Event} {n : Nat} {s : Slot} (hkept : Kept ns name m₀)
    (happlies : Applies ns name m₀ es m) (hremove : (remove ns name).Runs m gs (.ok n) m')
    (hdeed : Event.lastLeft? es s ≠ none) :
    m'.objects.find? s ≠ none
      ↔ ∃ es₁ m₁ fs m₂ es₂, Applies ns name m₀ es₁ m₁ ∧ CutShort ns name m₁ fs m₂ s
        ∧ Applies ns name m₂ es₂ m ∧ es = es₁ ++ (fs ++ es₂) ∧ Event.lastLeft? es₂ s = none := by
  obtain ⟨hread, hleft⟩ := runs_remove_ok hremove
  rw [hleft s]
  constructor
  · rintro ⟨hthere, hs, hun⟩
    exact happlies.exists_cutShort hkept hread hs hdeed hthere hun
  · rintro ⟨es₁, m₁, fs, m₂, es₂, h₁, hcut, h₂, rfl, hnone⟩
    obtain ⟨⟨render, spec, owner, e, hleaves, hrun, p, hp, rfl⟩, ⟨live, hlast⟩, hun⟩ := hcut
    have hkept₂ : Kept ns name m₂ := .call (h₁.kept hkept) (.apply hleaves hrun)
    have hwrote : m₂.objects.find? p.key.slot = some live := by
      rw [hrun.find?, Event.lastLeft?_of_last? hlast]
      rfl
    have hthere : m₂.objects.find? p.key.slot ≠ none := by
      rw [hwrote]
      exact Option.some_ne_none live
    refine ⟨?_, (mem_renderedOf hleaves hp).2, (h₂.untracked_iff hkept₂ hread hnone hthere).2 hun⟩
    rw [h₂.find?, after, hnone]
    exact hthere

end Accounting

section Jammed

attribute [local irreducible] apply

/-- An empty store; the first update of a record will fail. -/
def jammed : Host := { memory := { failures := [(.update, "ManifestRecord")], now := default } }

/-- Where the config map of the levels is kept. -/
def levelSlot : Slot := { group := "", kind := "ConfigMap", ns := "default", name := "a" }

/-- The first level is applied and cut short, and the component is removed. -/
def jammedRemoval : Except Error Nat × Host :=
  (remove "default" "metrics").run (applied levelOne jammed).2

theorem jammedRemoval_checked :
    ((jammedRemoval.1.toOption.any fun n => n = 0) = true)
      ∧ ((applied levelOne jammed).2.memory.objects.find? levelSlot).isSome = true
      ∧ (jammedRemoval.2.memory.objects.find? levelSlot).isSome = true := by
  decide +kernel

theorem jammed_runs :
    ∃ es gs n, (apply echo "default" "metrics" levelOne none).Runs jammed.memory es (applied levelOne jammed).1
        (applied levelOne jammed).2.memory
      ∧ (remove "default" "metrics").Runs (applied levelOne jammed).2.memory gs (.ok n)
        jammedRemoval.2.memory := by
  obtain ⟨n, hn, -⟩ := ok_of_any jammedRemoval_checked.1
  obtain ⟨es, h⟩ := runs_applied levelOne jammed
  obtain ⟨gs, hremove⟩ := Session.runs_run (remove "default" "metrics") (applied levelOne jammed).2
  rw [show ((remove "default" "metrics").run (applied levelOne jammed).2).1 = _ from hn] at hremove
  exact ⟨es, gs, n, h, hremove⟩

theorem jammed_object_of_cut_short :
    ∃ es₁ m₁ fs m₂, Applies "default" "metrics" jammed.memory es₁ m₁
      ∧ CutShort "default" "metrics" m₁ fs m₂ levelSlot := by
  obtain ⟨-, hthere, hleft⟩ := jammedRemoval_checked
  obtain ⟨es, gs, n, h, hremove⟩ := jammed_runs
  have happlies : Applies "default" "metrics" jammed.memory ([] ++ es) (applied levelOne jammed).2.memory :=
    .apply .start levelOne_leavesRecord h
  have hdeed : Event.lastLeft? ([] ++ es) levelSlot ≠ none := by
    intro hnone
    have hfind := h.find? levelSlot
    rw [show Event.lastLeft? es levelSlot = none from hnone] at hfind
    rw [hfind] at hthere
    cases hthere
  obtain ⟨es₁, m₁, fs, m₂, -, h₁, hcut, -⟩ :=
    (left_behind_iff_cut_short (.absent rfl) happlies hremove hdeed).1 (Option.isSome_iff_ne_none.1 hleft)
  exact ⟨es₁, m₁, fs, m₂, h₁, hcut⟩

/-- A removal that succeeds leaves an object that an apply created. -/
theorem created_object_left_behind :
    ∃ es m gs n m', Applies "default" "metrics" jammed.memory es m
      ∧ (remove "default" "metrics").Runs m gs (.ok n) m' ∧ jammed.memory.objects.find? levelSlot = none
      ∧ m.objects.find? levelSlot ≠ none ∧ m'.objects.find? levelSlot ≠ none := by
  obtain ⟨-, hthere, hleft⟩ := jammedRemoval_checked
  obtain ⟨es, gs, n, h, hremove⟩ := jammed_runs
  exact ⟨_, _, gs, n, _, .apply .start levelOne_leavesRecord h, hremove, rfl,
    Option.isSome_iff_ne_none.1 hthere, Option.isSome_iff_ne_none.1 hleft⟩

end Jammed

end Addons.Bundle
