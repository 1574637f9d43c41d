import Addons.Proofs.Bundle.Convergence

/-!
# What an apply may touch

Whatever comes of an apply, it writes its record and rendered documents only, it deletes only what its record
tracks and the render does not produce, and all else is left as it was (`Rightful`,
`apply_touches_its_own`). The writes of a record keep its checksum, but for the last thing that an apply
does, when all documents are written and all that is outdated is gone (`Paced`).
-/

namespace Addons.Bundle

/-- What a component renders to. -/
def documents (render : Renderer) (ns name : String) (spec : ManifestSpec) :
    Except Error (List Prepared) := do
  prepare (← render spec.url spec.patches spec.images) ns name

/-- A component tracks an object and its render does not produce it. -/
def Outdated (ns name : String) (m : Memory) (rendered : List Prepared) (t : Tracked) : Prop :=
  t ∈ trackedIn ns name m ∧ ∀ p ∈ rendered, ¬p.tracked.sameIdentity t

/-- What an apply that finds a store `m` has a right to do, as it is noted: to write the record with a
checksum, to write a rendered document, and to delete what is outdated. -/
inductive Rightful (ns name : String) (m : Memory) (rendered : List Prepared) (sum : String) :
    Deed → Change → Prop
  | record {record : ManifestRecord} {stored : Object} {c : Change} :
      stored.unstamped = (manifestRecords.toObject record).unstamped → record.spec.checksum = sum →
      c.Writes (recordKey ns name) → Rightful ns name m rendered sum ⟨own ns name, some stored⟩ c
  | document {p : Prepared} {live : Object} {c : Change} : p ∈ rendered → live.Carries p → c.Writes p.key →
      Rightful ns name m rendered sum ⟨p.key.slot, some live⟩ c
  | delete {t : Tracked} : Outdated ns name m rendered t →
      Rightful ns name m rendered sum ⟨t.slot, none⟩ (.delete (Key.ofTracked t))

/-- What an apply may do, whatever the checksum of its record. -/
def Allowed (ns name : String) (m : Memory) (rendered : List Prepared) (d : Deed) (c : Change) : Prop :=
  ∃ sum, Rightful ns name m rendered sum d c

/-- A document was written. -/
def WroteIn (es : List Event) (p : Prepared) : Prop :=
  ∃ live : Object, live.Carries p ∧ some ⟨p.key.slot, some live⟩ ∈ es

/-- All that an apply does keeps a checksum, but for the last that comes of it, when every document was
written. -/
def Paced (ns name : String) (m : Memory) (rendered : List Prepared) (sum : String) (es : List Event) : Prop :=
  Event.All (fun d => ∃ c, Rightful ns name m rendered sum d c) es
    ∨ ∃ fs e, es = fs ++ [e] ∧ Event.All (fun d => ∃ c, Rightful ns name m rendered sum d c) fs
      ∧ ∀ p ∈ rendered, WroteIn fs p

section Frame

variable {ns name : String} {m₀ m m' : Memory} {es fs : List Event} {r : RecordSpec} {record : ManifestRecord}
variable {rendered : List Prepared} {sum fingerprint : String} {P : Deed → Change → Prop}

theorem WroteIn.mono {p : Prepared} (h : WroteIn es p) (hsub : es ⊆ fs) : WroteIn fs p := by
  obtain ⟨live, hlive, hmem⟩ := h
  exact ⟨live, hlive, hsub hmem⟩

theorem Paced.prepend (hp : Paced ns name m₀ rendered sum fs)
    (h : Event.All (fun d => ∃ c, Rightful ns name m₀ rendered sum d c) es) :
    Paced ns name m₀ rendered sum (es ++ fs) := by
  rcases hp with hall | ⟨gs, e, rfl, hall, hwrote⟩
  · exact .inl (Event.all_append.2 ⟨h, hall⟩)
  · refine .inr ⟨es ++ gs, e, by rw [List.append_assoc], Event.all_append.2 ⟨h, hall⟩, fun p hp => ?_⟩
    exact (hwrote p hp).mono (List.subset_append_right es gs)

theorem Paced.concat (hall : Event.All (fun d => ∃ c, Rightful ns name m₀ rendered sum d c) es)
    (hwrote : ∀ p ∈ rendered, WroteIn es p) (hfs : fs = [] ∨ ∃ e, fs = [e]) :
    Paced ns name m₀ rendered sum (es ++ fs) := by
  rcases hfs with rfl | ⟨e, rfl⟩
  · rw [List.append_nil]
    exact .inl hall
  · exact .inr ⟨es, e, rfl, hall, hwrote⟩

/-! ## Single writes -/

theorem does_save (hin : InHand ns name record r)
    (h : ∀ stored : Object, stored.unstamped = (manifestRecords.toObject record).unstamped →
      P ⟨own ns name, some stored⟩ (.update (recordKey ns name))) : (save record).Does P m := by
  refine Session.Does.bind (Session.does_replace fun k stored hk hs => ?_) fun es stored m₁ _ => ?_
  · obtain rfl := Except.ok.inj ((key_record hin).symm.trans hk)
    exact h stored hs
  · exact Session.does_done _

/-- The answer to a write of the record is the record in hand. -/
theorem InHand.saved {record' : ManifestRecord} (hin : InHand ns name record r)
    (h : (save record).Runs m es (.ok record') m') : InHand ns name record' r := by
  rcases runs_save hin h with ⟨-, e, he⟩ | ⟨-, ⟨-, e, he⟩ | ⟨-, _, ha, hin'⟩⟩
  · cases he
  · cases he
  · obtain rfl := Except.ok.inj ha
    exact hin'

theorem does_createOrAdopt {p : Prepared} (hkey : p.object.key = .ok p.key)
    (h : ∀ (live : Object) (c : Change), live.Carries p → c.Writes p.key → P ⟨p.key.slot, some live⟩ c) :
    (createOrAdopt p).Does P m := by
  refine Session.Does.bind (Session.Does.attempt (Session.does_createNew fun k live hk hs => ?_))
    fun es answer m₁ _ => ?_
  · obtain rfl := Except.ok.inj (hkey.symm.trans hk)
    exact h live _ (carries_create hs) (.inl rfl)
  · cases answer with
    | ok _ => exact Session.does_done _
    | error e =>
      dsimp only
      by_cases he : e.isAlreadyExists
      · rw [if_pos he]
        refine Session.Does.bind (Session.does_require _) fun _ existing _ _ => ?_
        refine Session.Does.bind (Session.does_replace fun k live hk hs => ?_) fun _ _ _ _ => ?_
        · obtain rfl := Except.ok.inj (hkey.symm.trans hk)
          exact h live _ (carries_adopt hs) (.inr rfl)
        · exact Session.does_done _
      · rw [if_neg he]
        exact Session.does_done _

/-! ## Loops -/

theorem does_applyAll {ps : List Prepared} (hkeys : ∀ p ∈ rendered, p.object.key = .ok p.key)
    (hps : ps ⊆ rendered) (hin : InHand ns name record r) (hsum : r.checksum = sum) :
    (applyAll record ps).Does (Rightful ns name m₀ rendered sum) m := by
  induction ps generalizing record r m with
  | nil => exact Session.does_done _
  | cons p ps ih =>
    have hp : p ∈ rendered := hps List.mem_cons_self
    have hrest : ps ⊆ rendered := List.subset_of_cons_subset hps
    refine Session.Does.bind (does_createOrAdopt (hkeys p hp) fun _ _ => .document hp) fun _ _ m₁ _ => ?_
    by_cases hexact : record.spec.tracksExactly p.tracked
    · rw [if_pos hexact]
      exact ih hrest hin hsum
    · rw [if_neg hexact]
      have htrack := hin.track p.tracked
      refine Session.Does.bind (does_save htrack fun _ hs => ?_) fun _ record' _ h₂ => ?_
      · exact .record hs ((congrArg RecordSpec.checksum htrack.ledger).trans hsum) (.inr rfl)
      · exact ih hrest (htrack.saved h₂) hsum

/-- When all documents are written, the record in hand has the checksum and the stale entries that it had. -/
theorem InHand.applyAll {ps : List Prepared} {record' : ManifestRecord}
    (hkeys : ∀ p ∈ rendered, p.object.key = .ok p.key) (hps : ps ⊆ rendered)
    (hin : InHand ns name record r) (h : (Bundle.applyAll record ps).Runs m es (.ok record') m') :
    ∃ r', InHand ns name record' r' ∧ r'.checksum = r.checksum
      ∧ r'.stale (rendered.map Prepared.tracked) = r.stale (rendered.map Prepared.tracked)
      ∧ ∀ p ∈ ps, WroteIn es p := by
  induction ps generalizing record r m es with
  | nil =>
    obtain ⟨rfl, ⟨rfl⟩, rfl⟩ := h
    exact ⟨r, hin, rfl, rfl, by simp⟩
  | cons p ps ih =>
    have hp : p ∈ rendered := hps List.mem_cons_self
    have hrest : ps ⊆ rendered := List.subset_of_cons_subset hps
    rcases Session.runs_bind.1 h with ⟨⟨⟩, m₁, es₁, es₂, h₁, rfl, h₂⟩ | ⟨e, -, he⟩
    swap
    · cases he
    have hwrote : WroteIn es₁ p := by
      rcases runs_createOrAdopt (hkeys p hp) h₁ with ⟨-, e, he⟩ | ⟨live, hlanded⟩
      · cases he
      · refine ⟨live, hlanded.carries, Event.mem_of_lastLeft? ?_⟩
        rw [hlanded.left]
        exact Event.lastLeft?_concat_self [] ⟨p.key.slot, some live⟩
    -- the rest writes the other documents, from wherever it goes on
    have hall : ∀ {gs : List Event}, (∀ q ∈ ps, WroteIn gs q) → gs ⊆ es₂ →
        ∀ q ∈ p :: ps, WroteIn (es₁ ++ es₂) q := by
      intro gs hgs hsub q hq
      rcases List.mem_cons.1 hq with rfl | hq
      · exact hwrote.mono (List.subset_append_left es₁ es₂)
      · exact ((hgs q hq).mono hsub).mono (List.subset_append_right es₁ es₂)
    by_cases hexact : record.spec.tracksExactly p.tracked
    · rw [if_pos hexact] at h₂
      obtain ⟨r', hin', hc, hstale, hgs⟩ := ih hrest hin h₂
      exact ⟨r', hin', hc, hstale, hall hgs (List.Subset.refl es₂)⟩
    · rw [if_neg hexact] at h₂
      rcases Session.runs_bind.1 h₂ with ⟨record₂, m₂, es₃, es₄, h₃, rfl, h₄⟩ | ⟨e, -, he⟩
      swap
      · cases he
      obtain ⟨r', hin', hc, hstale, hgs⟩ := ih hrest ((hin.track p.tracked).saved h₃) h₄
      refine ⟨r', hin', hc, ?_, hall hgs (List.subset_append_right es₃ es₄)⟩
      rw [hstale]
      exact RecordSpec.stale_track (List.mem_map_of_mem hp)

theorem does_prune {ts : List Tracked} (hts : ∀ t ∈ ts, Outdated ns name m₀ rendered t)
    (hin : InHand ns name record r) (hsum : r.checksum = sum) :
    (prune record ts).Does (Rightful ns name m₀ rendered sum) m := by
  induction ts generalizing record r m with
  | nil => exact Session.does_done _
  | cons t ts ih =>
    have hrest := fun u hu => hts u (List.mem_cons_of_mem t hu)
    have huntrack := hin.untrack t
    refine Session.Does.bind (Session.does_removeIfExists ?_) fun _ _ _ _ => ?_
    · exact .delete (hts t List.mem_cons_self)
    refine Session.Does.bind (does_save huntrack fun _ hs => ?_) fun _ record' _ h₂ => ?_
    · exact .record hs ((congrArg RecordSpec.checksum huntrack.ledger).trans hsum) (.inr rfl)
    · exact ih hrest (huntrack.saved h₂) hsum

theorem InHand.prune {ts : List Tracked} {record' : ManifestRecord} (hin : InHand ns name record r)
    (h : (Bundle.prune record ts).Runs m es (.ok record') m') :
    ∃ r', InHand ns name record' r' ∧ r'.checksum = r.checksum := by
  induction ts generalizing record r m es with
  | nil =>
    obtain ⟨-, ⟨rfl⟩, -⟩ := h
    exact ⟨r, hin, rfl⟩
  | cons t ts ih =>
    obtain ⟨_, m₁, es₁, es₂, -, h₂⟩ := Session.runs_bind_ok h
    obtain ⟨record₂, m₂, es₃, es₄, h₃, h₄⟩ := Session.runs_bind_ok h₂
    obtain ⟨r', hin', hc⟩ := ih ((hin.untrack t).saved h₃) h₄
    exact ⟨r', hin', hc⟩

/-- Settling a record is one write of it at most. -/
theorem runs_settle_single {a : Except Error ManifestRecord} (h : (settle record).Runs m es a m') :
    es = [] ∨ ∃ e, es = [e] := by
  unfold settle at h
  by_cases hp : record.spec.isPending
  · rw [if_pos hp] at h
    have hreplace : ∀ {o : Object} {gs : List Event} {b : Except Error Object} {m₁ : Memory},
        (Session.replace o).Runs m gs b m₁ → ∃ e, gs = [e] := by
      intro o gs b m₁ h
      rcases Session.runs_replace h with ⟨hgs, -⟩ | ⟨k, live, stored, -, -, -, -, hgs, -⟩
      · exact ⟨_, hgs⟩
      · exact ⟨_, hgs⟩
    rcases Session.runs_bind.1 h with ⟨_, m₁, es₁, es₂, h₁, rfl, rfl, -, -⟩ | ⟨e, h₁, -⟩
    · rw [List.append_nil]
      exact .inr (hreplace h₁)
    · exact .inr (hreplace h₁)
  · rw [if_neg hp] at h
    exact .inl h.1

theorem does_settle (hin : InHand ns name record r) :
    (settle record).Does (Allowed ns name m₀ rendered) m := by
  unfold settle
  by_cases hp : record.spec.isPending
  · rw [if_pos hp]
    exact does_save hin.promote fun _ hs => ⟨_, .record hs rfl (.inr rfl)⟩
  · rw [if_neg hp]
    exact Session.does_done _

section Converge

variable (hkeys : ∀ p ∈ rendered, p.object.key = .ok p.key)
variable (hstale : ∀ t ∈ r.stale (rendered.map Prepared.tracked), Outdated ns name m₀ rendered t)
variable (hin : InHand ns name record r)

include hkeys hstale hin

/-- Once all documents are written, what is stale is what was outdated. -/
theorem InHand.outdated {record' : ManifestRecord}
    (h : (Bundle.applyAll record rendered).Runs m es (.ok record') m') :
    (∃ r', InHand ns name record' r' ∧ r'.checksum = r.checksum)
      ∧ (∀ t ∈ record'.spec.stale (rendered.map Prepared.tracked), Outdated ns name m₀ rendered t)
      ∧ ∀ p ∈ rendered, WroteIn es p := by
  obtain ⟨r', hin', hc, hsame, hwrote⟩ := hin.applyAll hkeys (List.Subset.refl rendered) h
  refine ⟨⟨r', hin', hc⟩, fun t ht => hstale t ?_, hwrote⟩
  rw [← hsame, ← hin'.ledger]
  exact ht

theorem does_converge : (converge record fingerprint rendered).Does (Allowed ns name m₀ rendered) m := by
  refine Session.Does.bind ((does_applyAll hkeys (List.Subset.refl rendered) hin rfl).imp fun _ _ hd => ⟨_, hd⟩)
    fun _ record₁ _ h₁ => ?_
  obtain ⟨⟨r₁, hin₁, hc₁⟩, hts, -⟩ := hin.outdated hkeys hstale h₁
  refine Session.Does.bind ((does_prune hts hin₁ hc₁).imp fun _ _ hd => ⟨_, hd⟩) fun _ record₂ _ h₂ => ?_
  obtain ⟨r₂, hin₂, -⟩ := hin₁.prune h₂
  exact Session.Does.bind (does_settle hin₂) fun _ _ _ _ => Session.does_done _

/-- A pass keeps the checksum until the last that comes of it. -/
theorem runs_converge_paced {a : Except Error ApplyReport}
    (h : (converge record fingerprint rendered).Runs m es a m') :
    Paced ns name m₀ rendered r.checksum es := by
  rcases Session.runs_bind.1 h with ⟨record₁, m₁, es₁, es₂, h₁, rfl, h₂⟩ | ⟨e, h₁, -⟩
  swap
  · exact .inl (does_applyAll hkeys (List.Subset.refl rendered) hin rfl es _ m' h₁).all
  have hall₁ : Event.All (fun d => ∃ c, Rightful ns name m₀ rendered r.checksum d c) es₁ :=
    (does_applyAll hkeys (List.Subset.refl rendered) hin rfl es₁ _ m₁ h₁).all
  obtain ⟨⟨r₁, hin₁, hc₁⟩, hts, hwrote⟩ := hin.outdated hkeys hstale h₁
  rcases Session.runs_bind.1 h₂ with ⟨record₂, m₂, es₃, es₄, h₃, rfl, h₄⟩ | ⟨e, h₃, -⟩
  swap
  · exact .inl (Event.all_append.2 ⟨hall₁, (does_prune hts hin₁ hc₁ es₂ _ m' h₃).all⟩)
  have hall₂ := Event.all_append.2 ⟨hall₁, (does_prune hts hin₁ hc₁ es₃ _ m₂ h₃).all⟩
  have hwrote₂ := fun p hp => (hwrote p hp).mono (List.subset_append_left es₁ es₃)
  rw [← List.append_assoc]
  rcases Session.runs_bind.1 h₄ with ⟨record₃, m₃, es₅, es₆, h₅, rfl, rfl, -, rfl⟩ | ⟨e, h₅, -⟩
  · rw [List.append_nil]
    exact .concat hall₂ hwrote₂ (runs_settle_single h₅)
  · exact .concat hall₂ hwrote₂ (runs_settle_single h₅)

end Converge

/-! ## Applying -/

theorem InHand.begun (hin : InHand ns name record r) (spec : ManifestSpec) (fingerprint : String) :
    InHand ns name { record with spec := record.spec.beginChange fingerprint spec } (r.begun fingerprint) :=
  ⟨hin.name, hin.ns, by rw [← hin.ledger]; exact RecordSpec.ledger_beginChange _ _ _⟩

theorem does_begin (hin : InHand ns name record r) (spec : ManifestSpec) (fingerprint : String) :
    (begin record spec fingerprint).Does (Rightful ns name m₀ rendered r.checksum) m := by
  have hbegun := hin.begun spec fingerprint
  unfold begin
  by_cases hsame : (record.spec.beginChange fingerprint spec).same record.spec
  · rw [if_pos hsame]
    exact Session.does_done _
  · rw [if_neg hsame]
    have hsum : record.spec.checksum = r.checksum := by
      rw [← hin.ledger]
      rfl
    exact does_save hbegun fun stored hs => .record hs hsum (.inr rfl)

/-- The answer to noting a render is the record with the render noted. -/
theorem InHand.began {spec : ManifestSpec} {record' : ManifestRecord} (hin : InHand ns name record r)
    (h : (begin record spec fingerprint).Runs m es (.ok record') m') :
    InHand ns name record' (r.begun fingerprint) := by
  have hbegun := hin.begun spec fingerprint
  unfold begin at h
  by_cases hsame : (record.spec.beginChange fingerprint spec).same record.spec
  · rw [if_pos hsame] at h
    obtain ⟨-, ⟨rfl⟩, -⟩ := h
    exact hbegun
  · rw [if_neg hsame] at h
    exact hbegun.saved h

theorem does_record? : (record? ns name).Does P m := by
  refine Session.Does.bind (Session.does_find? _) fun _ found _ _ => ?_
  cases found with
  | none => exact Session.does_done _
  | some o => exact Session.does_lift_bind fun _ _ => Session.does_done _

theorem outdated_of_stale (h : r.objects = trackedIn ns name m) :
    ∀ t ∈ r.stale (rendered.map Prepared.tracked), Outdated ns name m rendered t := by
  intro t ht
  obtain ⟨hmem, hnot⟩ := RecordSpec.mem_stale.1 ht
  rw [List.forall_mem_map] at hnot
  exact ⟨h ▸ hmem, hnot⟩

theorem inHand_of_read_new {spec : ManifestSpec} {owner : Option OwnerReference} {created : Object}
    (hs : created.unstamped = (manifestRecords.toObject (newRecord ns name spec fingerprint owner)).unstamped)
    (hread : manifestRecords.ofObject created = .ok record) : InHand ns name record (.fresh fingerprint) :=
  tells_of_unstamped ⟨rfl, rfl, RecordSpec.ledger_ofSpec spec fingerprint⟩ hs record hread

theorem no_stale_fresh : ∀ t ∈ (RecordSpec.fresh fingerprint).stale (rendered.map Prepared.tracked),
    Outdated ns name m rendered t := fun _ ht => absurd ht List.not_mem_nil

variable {render : Renderer} {spec : ManifestSpec} {owner : Option OwnerReference} {done : Slot → Prop}

theorem documents_eq_ok : documents render ns name spec = .ok rendered ↔
    ∃ bytes, render spec.url spec.patches spec.images = .ok bytes ∧ prepare bytes ns name = .ok rendered := by
  constructor
  · exact of_bind_eq_ok
  · rintro ⟨bytes, hbytes, hrendered⟩
    unfold documents
    rw [hbytes]
    exact hrendered

/-- What a component renders to; nothing where that fails. -/
def renderedOf (render : Renderer) (ns name : String) (spec : ManifestSpec) : List Prepared :=
  (documents render ns name spec).toOption.getD []

theorem renderedOf_eq {bytes : ByteArray} (hbytes : render spec.url spec.patches spec.images = .ok bytes)
    (hrendered : prepare bytes ns name = .ok rendered) : renderedOf render ns name spec = rendered := by
  unfold renderedOf
  rw [documents_eq_ok.2 ⟨bytes, hbytes, hrendered⟩]
  rfl

theorem does_apply (horderly : Orderly ns name done m) :
    (apply render ns name spec owner).Does (Allowed ns name m (renderedOf render ns name spec)) m := by
  refine Session.does_lift_bind fun bytes hbytes => Session.does_lift_bind fun rendered hrendered => ?_
  rw [renderedOf_eq hbytes hrendered]
  have hkeys := fun p hp => (of_prepare hrendered p hp).1
  refine Session.Does.bind does_record? fun _ found m₁ h₁ => ?_
  obtain ⟨-, -, -, hsome⟩ := runs_record? h₁
  cases found with
  | none =>
    have hin : InHand ns name (newRecord ns name spec (Manifest.fingerprint bytes) owner) _ :=
      ⟨rfl, rfl, RecordSpec.ledger_ofSpec spec (Manifest.fingerprint bytes)⟩
    refine Session.Does.bind (Session.does_createNew fun k stored hk hs => ?_) fun _ created _ h₂ => ?_
    · obtain rfl := Except.ok.inj ((key_record hin).symm.trans hk)
      exact ⟨_, .record hs rfl (.inl rfl)⟩
    · refine Session.does_lift_bind fun record hread => ?_
      obtain ⟨k, -, hs, -⟩ := Session.runs_createNew_ok h₂
      exact does_converge hkeys no_stale_fresh (inHand_of_read_new hs.unstamped hread)
  | some record =>
    obtain ⟨o, ho, hread⟩ := hsome record rfl
    obtain ⟨hholds, hin⟩ := horderly.holds_of_read ho hread
    dsimp only
    by_cases hcurrent : record.spec.isCurrent (Manifest.fingerprint bytes) (rendered.map Prepared.tracked)
    · rw [if_pos hcurrent]
      exact Session.does_done _
    · rw [if_neg hcurrent]
      refine Session.Does.bind ((does_begin hin _ _).imp fun _ _ hd => ⟨_, hd⟩) fun _ record' _ h₂ => ?_
      have htracked : (record.spec.ledger.begun (Manifest.fingerprint bytes)).objects = trackedIn ns name m :=
        (trackedIn_of_holds hholds).symm
      exact does_converge hkeys (outdated_of_stale htracked) (hin.began h₂)

/-- An apply that finds a record keeps its checksum until the last that comes of it. -/
theorem runs_apply_paced {a : Except Error ApplyReport} {o : Object} (horderly : Orderly ns name done m)
    (ho : m.object? (recordKey ns name) = some o) (hread : manifestRecords.ofObject o = .ok record)
    (h : (apply render ns name spec owner).Runs m es a m') :
    Paced ns name m (renderedOf render ns name spec) record.spec.checksum es := by
  rcases runs_apply_cases h with ⟨rfl, -⟩ | ⟨bytes, rendered, hbytes, hrendered, hproceeds⟩
  · exact .inl Event.all_nil
  rw [renderedOf_eq hbytes hrendered]
  have hkeys := fun p hp => (of_prepare hrendered p hp).1
  cases hproceeds with
  | first _ _ hnone _ =>
    rw [ho] at hnone
    cases hnone
  | current _ _ _ hes _ _ =>
    rw [hes]
    exact .inl Event.all_nil
  | again _ _ ho' hread' _ h =>
    obtain rfl := Option.some.inj (ho.symm.trans ho')
    obtain rfl := Except.ok.inj (hread.symm.trans hread')
    obtain ⟨hholds, hin⟩ := horderly.holds_of_read ho hread
    have htracked : (record.spec.ledger.begun (Manifest.fingerprint bytes)).objects = trackedIn ns name m :=
      (trackedIn_of_holds hholds).symm
    rcases Session.runs_bind.1 h with ⟨record', m₁, es₁, es₂, h₁, rfl, h₂⟩ | ⟨e, h₁, -⟩
    · have hpaced := runs_converge_paced hkeys (outdated_of_stale htracked) (hin.began h₁) h₂
      exact hpaced.prepend (does_begin hin _ _ es₁ _ m₁ h₁).all
    · exact .inl (does_begin hin _ _ es _ m' h₁).all

/-! ## What follows -/

theorem mem_renderedOf {p : Prepared} (hleaves : LeavesRecord render ns name spec)
    (hp : p ∈ renderedOf render ns name spec) : p.tracked.Placed ∧ p.key.slot ≠ own ns name := by
  unfold renderedOf at hp
  cases hd : documents render ns name spec with
  | error e =>
    rw [hd] at hp
    exact absurd hp List.not_mem_nil
  | ok rendered =>
    rw [hd] at hp
    have hmem : p ∈ rendered := hp
    obtain ⟨bytes, hbytes, hrendered⟩ := documents_eq_ok.1 hd
    exact ⟨(of_prepare hrendered p hmem).2, hleaves bytes rendered hbytes hrendered p hmem⟩

theorem Orderly.of_mem_trackedIn {t : Tracked} (h : Orderly ns name done m) (ht : t ∈ trackedIn ns name m) :
    ∃ r, Holds ns name m r ∧ r.Tidy (own ns name) ∧ t ∈ r.objects := by
  unfold trackedIn at ht
  split at ht
  · rename_i o ho
    split at ht
    · rename_i record hread
      obtain ⟨hholds, -⟩ := h.holds_of_read ho hread
      exact ⟨_, hholds, (h.of_holds hholds).1, ht⟩
    · exact absurd ht List.not_mem_nil
  · exact absurd ht List.not_mem_nil

/-- What is outdated is neither the record nor in the place of a document. -/
theorem Outdated.apart {t : Tracked} (horderly : Orderly ns name done m)
    (hplaced : ∀ p ∈ rendered, p.tracked.Placed) (h : Outdated ns name m rendered t) :
    t.slot ≠ own ns name ∧ ∀ p ∈ rendered, t.slot ≠ p.key.slot := by
  obtain ⟨r, -, htidy, ht⟩ := horderly.of_mem_trackedIn h.1
  refine ⟨htidy.apart t ht, fun p hp hslot => h.2 p hp ?_⟩
  exact (Tracked.slot_eq_iff (hplaced p hp) (htidy.placed t ht)).1 hslot.symm

/-- What is tracked after an apply was tracked before, or it is rendered and the apply had a deed there. -/
theorem mem_trackedIn_of_apply {a : Except Error ApplyReport} {t : Tracked} (horderly : Orderly ns name done m)
    (hleaves : LeavesRecord render ns name spec) (h : (apply render ns name spec owner).Runs m es a m')
    (ht : t ∈ trackedIn ns name m') :
    t ∈ trackedIn ns name m
      ∨ ∃ p ∈ renderedOf render ns name spec, p.tracked = t ∧ Event.lastLeft? es t.slot ≠ none := by
  have hsame : m'.object? (recordKey ns name) = m.object? (recordKey ns name) → t ∈ trackedIn ns name m := by
    intro hm
    rwa [trackedIn_eq_of_object? hm] at ht
  rcases runs_apply horderly hleaves h with
    ⟨hidle, -⟩ | ⟨bytes, rendered, hbytes, hrendered, ⟨r, -, -, hm⟩ | ⟨r, σ, hwent⟩⟩
  · exact .inl (hsame (object?_of_lastLeft? h (hidle _)))
  · exact .inl (hsame (Memory.object?_congr hm _))
  rw [renderedOf_eq hbytes hrendered]
  have hdocs := fun p hp =>
    And.intro (of_prepare hrendered p hp).2 (hleaves bytes rendered hbytes hrendered p hp)
  have hsound := hwent.sound horderly fun p hp => (hdocs p hp).1
  obtain ⟨r', hholds, -, hmem⟩ := (orderly_apply horderly hleaves h).of_mem_trackedIn ht
  obtain ⟨o, ho, htells⟩ := hwent.shown.record
  have hr' : r' = σ.record := by
    obtain ⟨o', record, ho', hread, hin⟩ := hholds
    obtain rfl := Option.some.inj (ho.symm.trans ho')
    exact hin.ledger.symm.trans (htells record hread).ledger
  rw [hr'] at hmem
  by_cases hold : t ∈ r.objects
  · exact .inl (hwent.start.objects ▸ hold)
  · rcases hsound.mem_objects hmem with ⟨p, hp, rfl⟩ | hold'
    · refine .inr ⟨p, hsound.written_subset p hp, rfl, ?_⟩
      have hne : p.tracked.slot ≠ own ns name := (hdocs p (hsound.written_subset p hp)).2
      rw [hwent.shown.log _ hne]
      exact hsound.lastLeft?_ne_none (fun p hp => (hdocs p hp).1) hmem hold
    · exact absurd hold' hold

/-- A record that is left with another checksum than it had is that of a pass that came to its end: what was
outdated is gone. -/
theorem absent_of_checksum_ne {a : Except Error ApplyReport} {o live : Object} {record' : ManifestRecord}
    {t : Tracked} (horderly : Orderly ns name done m) (hleaves : LeavesRecord render ns name spec)
    (h : (apply render ns name spec owner).Runs m es a m') (ho : m.object? (recordKey ns name) = some o)
    (hread : manifestRecords.ofObject o = .ok record) (hlive : m'.object? (recordKey ns name) = some live)
    (hread' : manifestRecords.ofObject live = .ok record') (hne : record'.spec.checksum ≠ record.spec.checksum)
    (ht : Outdated ns name m (renderedOf render ns name spec) t) : m'.object? (Key.ofTracked t) = none := by
  have hsame : m'.object? (recordKey ns name) = m.object? (recordKey ns name) → False := by
    intro hm
    rw [hlive, ho] at hm
    obtain rfl := Option.some.inj hm
    obtain rfl := Except.ok.inj (hread.symm.trans hread')
    exact hne rfl
  rcases runs_apply horderly hleaves h with
    ⟨hidle, -⟩ | ⟨bytes, rendered, hbytes, hrendered, ⟨r, -, -, hm⟩ | ⟨r, σ, hwent⟩⟩
  · exact absurd (object?_of_lastLeft? h (hidle _)) hsame
  · exact absurd (Memory.object?_congr hm _) hsame
  rw [renderedOf_eq hbytes hrendered] at ht
  have hsound := hwent.sound horderly fun p hp => (of_prepare hrendered p hp).2
  have hr : r.checksum = record.spec.checksum := by
    cases hwent.start with
    | first hnone =>
      rw [ho] at hnone
      cases hnone
    | again hholds _ =>
      obtain ⟨hholds', -⟩ := horderly.holds_of_read ho hread
      rw [hholds.unique hholds']
      rfl
  have hσ : σ.record.checksum = record'.spec.checksum := by
    obtain ⟨o', ho', htells⟩ := hwent.shown.record
    obtain rfl := Option.some.inj (ho'.symm.trans hlive)
    exact (congrArg RecordSpec.checksum (htells record' hread').ledger).symm
  have hdone : σ.phase = .done := by
    have hsum := hsound.checksum
    rw [hσ] at hsum
    cases hph : σ.phase with
    | done => rfl
    | _ =>
      rw [hph] at hsum
      exact absurd (hsum.trans hr) hne
  exact hwent.absent hsound (hwent.start.tidy horderly) hdone ht.1 ht.2

/-- A deed on the record that keeps its checksum leaves a record with that checksum. -/
theorem Rightful.checksum {live : Object} {record' : ManifestRecord} {c : Change}
    (hapart : ∀ p ∈ rendered, p.key.slot ≠ own ns name)
    (h : Rightful ns name m rendered sum ⟨own ns name, some live⟩ c)
    (hread : manifestRecords.ofObject live = .ok record') : record'.spec.checksum = sum := by
  generalize hd : (⟨own ns name, some live⟩ : Deed) = d at h
  cases h with
  | @record written stored _ hs hsum _ =>
    obtain ⟨-, hleft⟩ := Deed.mk.inj hd
    obtain rfl := Option.some.inj hleft
    obtain ⟨-, -, -, hledger⟩ := read_of_unstamped hs hread
    exact (congrArg RecordSpec.checksum hledger).trans hsum
  | document hp _ _ => exact absurd (Deed.mk.inj hd).1.symm (hapart _ hp)
  | delete _ => cases (Deed.mk.inj hd).2

theorem Rightful.key_slot {d : Deed} {c : Change} (h : Rightful ns name m rendered sum d c) :
    c.key.slot = d.slot := by
  cases h with
  | record _ _ hc => rw [hc.key_eq]
  | document _ _ hc => rw [hc.key_eq]
  | delete _ => rfl

/-- A deed that leaves the record with another checksum than it had is the last of its apply, when every
document is written and all that was outdated is gone. -/
theorem checksum_last_of_apply {a : Except Error ApplyReport} {o live : Object} {record' : ManifestRecord}
    {gs : List Event} (horderly : Orderly ns name done m) (hleaves : LeavesRecord render ns name spec)
    (h : (apply render ns name spec owner).Runs m es a m') (ho : m.object? (recordKey ns name) = some o)
    (hread : manifestRecords.ofObject o = .ok record) (hes : es = fs ++ some ⟨own ns name, some live⟩ :: gs)
    (hread' : manifestRecords.ofObject live = .ok record')
    (hne : record'.spec.checksum ≠ record.spec.checksum) :
    gs = [] ∧ (∀ p ∈ renderedOf render ns name spec, WroteIn fs p)
      ∧ ∀ t, Outdated ns name m (renderedOf render ns name spec) t →
        after m.objects.find? fs t.slot = none := by
  have hplaced := fun p hp => (mem_renderedOf (p := p) hleaves hp).1
  have hapart := fun p hp => (mem_renderedOf (p := p) hleaves hp).2
  have hkeeps : ∀ d c, Rightful ns name m (renderedOf render ns name spec) record.spec.checksum d c →
      d ≠ ⟨own ns name, some live⟩ := by
    rintro _ c hright rfl
    exact hne (hright.checksum hapart hread')
  rcases runs_apply_paced horderly ho hread h with hall | ⟨fs', e, hes', hall, hwrote⟩
  · obtain ⟨c, hc⟩ := hall ⟨own ns name, some live⟩ (by simp [hes])
    exact absurd rfl (hkeeps _ c hc)
  rw [hes] at hes'
  rcases List.eq_nil_or_concat gs with rfl | ⟨gs', x, rfl⟩
  · obtain ⟨rfl, -⟩ := List.append_inj' hes' rfl
    refine ⟨rfl, hwrote, fun t ht => ?_⟩
    have hlive : m'.object? (recordKey ns name) = some live := by
      show m'.objects.find? _ = _
      rw [h.find?, hes, Event.lastLeft?_concat_self fs ⟨own ns name, some live⟩]
      rfl
    have hgone := absent_of_checksum_ne horderly hleaves h ho hread hlive hread' hne ht
    have hslot : own ns name ≠ t.slot := (ht.apart horderly hplaced).1.symm
    rw [← after_concat_ne (d := ⟨own ns name, some live⟩) hslot, ← hes]
    exact (h.find? t.slot).symm.trans hgone
  · rw [List.concat_eq_append, ← List.cons_append, ← List.append_assoc] at hes'
    obtain ⟨rfl, -⟩ := List.append_inj' hes' rfl
    obtain ⟨c, hc⟩ := hall ⟨own ns name, some live⟩ (by simp)
    exact absurd rfl (hkeeps _ c hc)

/-- The apply of a bundle touches nothing but its own. -/
theorem apply_touches_its_own {a : Except Error ApplyReport} (hkept : Kept ns name m)
    (hleaves : LeavesRecord render ns name spec) (h : (apply render ns name spec owner).Runs m es a m') :
    ∃ cs, m'.journal = m.journal ++ cs
      -- the changes are the deeds, one by one
      ∧ List.Forall₂ (fun d c => c.key.slot = d.slot) es.reduceOption cs
      -- each writes the record or a document, or deletes what is outdated
      ∧ (∀ c ∈ cs, c.Writes (recordKey ns name) ∨ (∃ p ∈ renderedOf render ns name spec, c.Writes p.key)
        ∨ ∃ t, Outdated ns name m (renderedOf render ns name spec) t ∧ c = .delete (Key.ofTracked t))
      ∧ (∀ t, Outdated ns name m (renderedOf render ns name spec) t →
        t.slot ≠ own ns name ∧ ∀ p ∈ renderedOf render ns name spec, t.slot ≠ p.key.slot)
      -- what no change is about is as it was
      ∧ (∀ s, (∀ c ∈ cs, c.key.slot ≠ s) → m'.objects.find? s = m.objects.find? s)
      -- what is tracked was tracked, or was written now
      ∧ (∀ t ∈ trackedIn ns name m', t ∈ trackedIn ns name m
        ∨ (∃ p ∈ renderedOf render ns name spec, p.tracked = t)
          ∧ ∃ c ∈ cs, ∃ q ∈ renderedOf render ns name spec, c.Writes q.key ∧ q.tracked.sameIdentity t)
      -- a record that was there gets another checksum last, when all is written and pruned
      ∧ ∀ o record fs live gs record', m.object? (recordKey ns name) = some o →
        manifestRecords.ofObject o = .ok record → es = fs ++ some ⟨own ns name, some live⟩ :: gs →
        manifestRecords.ofObject live = .ok record' → record'.spec.checksum ≠ record.spec.checksum →
        gs = [] ∧ (∀ p ∈ renderedOf render ns name spec, WroteIn fs p)
          ∧ ∀ t, Outdated ns name m (renderedOf render ns name spec) t →
            after m.objects.find? fs t.slot = none := by
  have horderly := hkept.orderly
  have hdocs := fun p hp => mem_renderedOf (p := p) hleaves hp
  have hplaced := fun p hp => (hdocs p hp).1
  have hapart := fun p hp => (hdocs p hp).2
  obtain ⟨cs, hjournal, hnoted⟩ := does_apply horderly es a m' h
  have hpairs : List.Forall₂ (fun d c => c.key.slot = d.slot) es.reduceOption cs :=
    hnoted.imp fun d c ⟨_, hd⟩ => hd.key_slot
  have hchanges : ∀ c ∈ cs, ∃ d ∈ es.reduceOption,
      Allowed ns name m (renderedOf render ns name spec) d c := (mem_of_forall₂ hnoted).2
  have hdeeds : ∀ d ∈ es.reduceOption, ∃ c ∈ cs,
      Allowed ns name m (renderedOf render ns name spec) d c := (mem_of_forall₂ hnoted).1
  refine ⟨cs, hjournal, hpairs, ?_, fun t ht => ht.apart horderly hplaced, ?_, ?_, ?_⟩
  · intro c hc
    obtain ⟨d, -, sum, hd⟩ := hchanges c hc
    cases hd with
    | record _ _ hwrites => exact .inl hwrites
    | document hp _ hwrites => exact .inr (.inl ⟨_, hp, hwrites⟩)
    | delete ht => exact .inr (.inr ⟨_, ht, rfl⟩)
  · intro s hs
    have hnone : Event.lastLeft? es s = none := by
      rw [Event.lastLeft?_eq_none_iff]
      intro d hd hslot
      obtain ⟨c, hc, sum, hright⟩ := hdeeds d (List.reduceOption_mem_iff.2 hd)
      exact hs c hc (hright.key_slot.trans hslot)
    rw [h.find?, hnone]
    rfl
  · intro t ht
    refine (mem_trackedIn_of_apply horderly hleaves h ht).imp_right ?_
    rintro ⟨p, hp, rfl, hne⟩
    refine ⟨⟨p, hp, rfl⟩, ?_⟩
    obtain ⟨left, hleft⟩ := Option.ne_none_iff_exists'.1 hne
    obtain ⟨c, hc, sum, hright⟩ := hdeeds _ (List.reduceOption_mem_iff.2 (Event.mem_of_lastLeft? hleft))
    refine ⟨c, hc, ?_⟩
    -- the deed is in the place of the document, so that it wrote one with its identity
    generalize hd : (⟨p.tracked.slot, left⟩ : Deed) = d at hright
    cases hright with
    | record _ _ _ => exact absurd (Deed.mk.inj hd).1 (hapart p hp)
    | @document q _ _ hq _ hwrites =>
      refine ⟨q, hq, hwrites, (Tracked.slot_eq_iff (hplaced q hq) (hplaced p hp)).1 ?_⟩
      exact (Deed.mk.inj hd).1.symm
    | delete houtdated => exact absurd (Deed.mk.inj hd).1.symm ((houtdated.apart horderly hplaced).2 p hp)
  · intro o record fs live gs record' ho hread hes hread' hne
    exact checksum_last_of_apply horderly hleaves h ho hread hes hread' hne

end Frame

section Levels

attribute [local irreducible] apply

theorem second_apply_touches_its_own :
    ∃ cs, (applied levelTwo (applied levelOne bare).2).2.memory.journal
        = (applied levelOne bare).2.memory.journal ++ cs
      ∧ ∀ c ∈ cs, c.Writes (recordKey "default" "metrics")
        ∨ (∃ p ∈ renderedOf echo "default" "metrics" levelTwo, c.Writes p.key)
        ∨ ∃ t, Outdated "default" "metrics" (applied levelOne bare).2.memory
            (renderedOf echo "default" "metrics" levelTwo) t ∧ c = .delete (Key.ofTracked t) := by
  obtain ⟨es₁, h₁⟩ := runs_applied levelOne bare
  obtain ⟨es₂, h₂⟩ := runs_applied levelTwo (applied levelOne bare).2
  have hkept : Kept "default" "metrics" (applied levelOne bare).2.memory :=
    .call (.absent rfl) (.apply levelOne_leavesRecord h₁)
  obtain ⟨cs, hjournal, -, hchanges, -⟩ := apply_touches_its_own hkept levelTwo_leavesRecord h₂
  exact ⟨cs, hjournal, hchanges⟩

end Levels

end Addons.Bundle
