import Addons.Proofs.Bundle.Convergence

/-!
# What an apply that changes nothing finds

An apply whose fingerprint the record has as applied, and whose objects are tracked, writes nothing. Whether
the store is in line with the render then (`InLine`) depends on the calls before it. `noop_inLine_iff` says on
what: exactly on what the last deed of all calls in the place of each rendered identity was. Where the last
calls to do anything were an apply that succeeded, its render has to end in the same documents; where they were
a removal that was cut short, the store is never in line.
-/

namespace Addons

/-- The type, the fields and the labels of a document. -/
def Prepared.content (p : Prepared) : Option TypeRef × Json.Fields × Option (Table String String) :=
  (p.object.type, p.object.data, p.object.metadata.labels)

theorem Object.Carries.content_eq {live : Object} {p q : Prepared} (hp : live.Carries p)
    (hq : live.Carries q) : p.content = q.content := by
  unfold Prepared.content
  rw [← hp.type, ← hp.data, ← hp.labels, hq.type, hq.data, hq.labels]

theorem Object.Carries.congr {live : Object} {p q : Prepared} (hp : live.Carries p)
    (h : p.content = q.content) : live.Carries q := by
  obtain ⟨htype, h⟩ := Prod.mk.inj h
  obtain ⟨hdata, hlabels⟩ := Prod.mk.inj h
  exact ⟨hp.type.trans htype, hp.data.trans hdata, hp.labels.trans hlabels⟩

namespace Bundle

/-- The calls of a component one after the other from a store on, and all that came of what they asked for. -/
inductive History (ns name : String) (m₀ : Memory) : List Event → Memory → Prop
  | start : History ns name m₀ [] m₀
  | call {es fs : List Event} {m m' : Memory} : History ns name m₀ es m → Call ns name m fs m' →
      History ns name m₀ (es ++ fs) m'

/-- Every rendered identity is in the store with the content of its last document, and nothing is tracked but
what is rendered. -/
structure InLine (ns name : String) (m : Memory) (rendered : List Prepared) : Prop where
  present : ∀ p ∈ rendered, ∃ q live, lastOf rendered p.tracked = some q ∧ m.object? p.key = some live
    ∧ live.Carries q
  tracked : ∀ t ∈ trackedIn ns name m, ∃ p ∈ rendered, p.tracked.sameIdentity t

/-- Of each rendered identity, the last thing done in its place was to write its last document. -/
def LastWritten (es : List Event) (rendered : List Prepared) : Prop :=
  ∀ p ∈ rendered, ∃ q live, lastOf rendered p.tracked = some q
    ∧ Event.lastLeft? es p.key.slot = some (some live) ∧ live.Carries q

/-- Two renders end in the same documents. -/
def SameEnd (rendered rendered' : List Prepared) : Prop :=
  ∀ t, (lastOf rendered t).map Prepared.content = (lastOf rendered' t).map Prepared.content

section Histories

variable {ns name : String} {m₀ m m' : Memory} {es fs : List Event}

theorem Call.find? (h : Call ns name m es m') (s : Slot) :
    m'.objects.find? s = after m.objects.find? es s := by
  cases h with
  | apply _ hrun => exact hrun.find? s
  | remove hrun => exact hrun.find? s
  | retry _ _ hrun => exact hrun.find? s

theorem History.find? (h : History ns name m₀ es m) (s : Slot) :
    m.objects.find? s = after m₀.objects.find? es s := by
  induction h with
  | start => rfl
  | call _ hcall ih =>
    rw [hcall.find? s]
    unfold after
    rw [ih, Event.lastLeft?_append, Option.getD_or]
    rfl

/-- What is tracked is where something was done since. -/
theorem History.orderly (h : History ns name m₀ es m) {done : Slot → Prop}
    (h₀ : Orderly ns name done m₀) : Orderly ns name (DoneBy done es) m := by
  induction h with
  | start => exact h₀.imp rfl fun _ => .inl
  | call _ hcall ih => exact (hcall.orderly ih).imp rfl fun _ => DoneBy.append

/-- Calls from which nothing comes leave every place as it is. -/
theorem History.idle (h : History ns name m₀ es m) (hes : Idle es) (k : Key) :
    m.object? k = m₀.object? k := by
  unfold Memory.object?
  rw [h.find?, after, hes]
  rfl

end Histories

/-! ## Renders that a store is in line with -/

section Lines

variable {ns name : String} {m m' : Memory} {rendered rendered₀ : List Prepared}

theorem trackedIn_congr (hm : ∀ k, m'.object? k = m.object? k) :
    trackedIn ns name m' = trackedIn ns name m := trackedIn_eq_of_object? (hm _)

theorem InLine.congr (hm : ∀ k, m'.object? k = m.object? k) :
    InLine ns name m' rendered ↔ InLine ns name m rendered := by
  have htracked : trackedIn ns name m' = trackedIn ns name m := trackedIn_congr hm
  refine ⟨fun h => ⟨?_, htracked ▸ h.tracked⟩, fun h => ⟨?_, htracked ▸ h.tracked⟩⟩
  · intro p hp
    rw [← hm]
    exact h.present p hp
  · intro p hp
    rw [hm]
    exact h.present p hp

/-- All that is rendered is tracked. -/
def Covered (ns name : String) (m : Memory) (rendered : List Prepared) : Prop :=
  ∀ p ∈ rendered, ∃ t ∈ trackedIn ns name m, t.sameIdentity p.tracked

/-- The last document of an identity is in its place. -/
theorem InLine.of_lastOf (h : InLine ns name m rendered) {t : Tracked} {q : Prepared}
    (hq : lastOf rendered t = some q) : ∃ live, m.object? q.key = some live ∧ live.Carries q := by
  obtain ⟨q', live, hq', hlive, hcarries⟩ := h.present q (mem_of_lastOf hq)
  rw [lastOf_congr (sameIdentity_of_lastOf hq), hq] at hq'
  obtain rfl := Option.some.inj hq'
  exact ⟨live, hlive, hcarries⟩

theorem slot_eq_of_lastOf (hplaced : ∀ p ∈ rendered, p.tracked.Placed)
    (hplaced₀ : ∀ p ∈ rendered₀, p.tracked.Placed) {t : Tracked} {q q₀ : Prepared}
    (hq : lastOf rendered t = some q) (hq₀ : lastOf rendered₀ t = some q₀) : q.key.slot = q₀.key.slot := by
  refine Tracked.slot_eq_of_sameIdentity (hplaced q (mem_of_lastOf hq)) (hplaced₀ q₀ (mem_of_lastOf hq₀)) ?_
  exact Tracked.sameIdentity_trans (sameIdentity_of_lastOf hq)
    (Tracked.sameIdentity_symm (sameIdentity_of_lastOf hq₀))

/-- Where a store is in line with two renders, the one has all documents of the other. -/
theorem InLine.exists_content (hplaced : ∀ p ∈ rendered, p.tracked.Placed)
    (hplaced₀ : ∀ p ∈ rendered₀, p.tracked.Placed) (h₀ : InLine ns name m rendered₀)
    (hcovered₀ : Covered ns name m rendered₀) (h : InLine ns name m rendered) {t : Tracked}
    {q₀ : Prepared} (hq₀ : lastOf rendered₀ t = some q₀) :
    ∃ q, lastOf rendered t = some q ∧ q.content = q₀.content := by
  obtain ⟨u, hu, husame⟩ := hcovered₀ q₀ (mem_of_lastOf hq₀)
  obtain ⟨p, hp, hpu⟩ := h.tracked u hu
  have hpt := Tracked.sameIdentity_trans (Tracked.sameIdentity_trans hpu husame) (sameIdentity_of_lastOf hq₀)
  obtain ⟨q, hq⟩ := exists_lastOf hp
  rw [lastOf_congr hpt] at hq
  -- both are in the same place
  obtain ⟨live, hlive, hcarries⟩ := h.of_lastOf hq
  obtain ⟨live₀, hlive₀, hcarries₀⟩ := h₀.of_lastOf hq₀
  have hplace : m.object? q.key = m.object? q₀.key :=
    congrArg m.objects.find? (slot_eq_of_lastOf hplaced hplaced₀ hq hq₀)
  rw [hplace, hlive₀] at hlive
  obtain rfl := Option.some.inj hlive
  exact ⟨q, hq, hcarries.content_eq hcarries₀⟩

theorem InLine.sameEnd (hplaced : ∀ p ∈ rendered, p.tracked.Placed)
    (hplaced₀ : ∀ p ∈ rendered₀, p.tracked.Placed) (hcovered : Covered ns name m rendered)
    (hcovered₀ : Covered ns name m rendered₀) (h₀ : InLine ns name m rendered₀)
    (h : InLine ns name m rendered) : SameEnd rendered₀ rendered := by
  intro t
  cases hq₀ : lastOf rendered₀ t with
  | some q₀ =>
    obtain ⟨q, hq, hcontent⟩ := h₀.exists_content hplaced hplaced₀ hcovered₀ h hq₀
    rw [hq]
    exact congrArg some hcontent.symm
  | none =>
    cases hq : lastOf rendered t with
    | none => rfl
    | some q =>
      obtain ⟨q₀, hsome, -⟩ := h.exists_content hplaced₀ hplaced hcovered h₀ hq
      rw [hq₀] at hsome
      cases hsome

theorem InLine.of_sameEnd (hplaced : ∀ p ∈ rendered, p.tracked.Placed)
    (hplaced₀ : ∀ p ∈ rendered₀, p.tracked.Placed) (h₀ : InLine ns name m rendered₀)
    (hend : SameEnd rendered₀ rendered) : InLine ns name m rendered := by
  constructor
  · intro p hp
    obtain ⟨q, hq⟩ := exists_lastOf hp
    have ht := hend p.tracked
    rw [hq] at ht
    obtain ⟨q₀, hq₀, hcontent⟩ := Option.map_eq_some_iff.1 ht
    obtain ⟨live, hlive, hcarries⟩ := h₀.of_lastOf hq₀
    refine ⟨q, live, hq, ?_, hcarries.congr hcontent⟩
    rw [← hlive]
    refine congrArg m.objects.find? ?_
    rw [← slot_eq_of_lastOf hplaced hplaced₀ hq hq₀]
    exact Tracked.slot_eq_of_sameIdentity (hplaced p hp) (hplaced q (mem_of_lastOf hq))
      (Tracked.sameIdentity_symm (sameIdentity_of_lastOf hq))
  · intro t ht
    obtain ⟨p₀, hp₀, hp₀t⟩ := h₀.tracked t ht
    obtain ⟨q₀, hq₀⟩ := exists_lastOf hp₀
    have hmap := hend t
    rw [← lastOf_congr hp₀t, hq₀] at hmap
    obtain ⟨q, hq, -⟩ := Option.map_eq_some_iff.1 hmap.symm
    exact ⟨q, mem_of_lastOf hq, sameIdentity_of_lastOf hq⟩

end Lines

/-! ## The record finds its render applied -/

section Noop

variable {ns name : String} {m₀ m m' : Memory} {es fs : List Event} {r : RecordSpec} {fingerprint : String}
variable {rendered : List Prepared} {a : Except Error ApplyReport}

/-- What is rendered is tracked, in the place where it is kept. -/
theorem Current.exists_tracked (h : Current ns name m fingerprint rendered a r) {p : Prepared}
    (hp : p ∈ rendered) : ∃ t ∈ r.objects, t.sameIdentity p.tracked := by
  have ht := (RecordSpec.isCurrent_iff.1 h.current).2 p hp
  rw [RecordSpec.isTracked_eq] at ht
  obtain ⟨t, ht⟩ := Option.isSome_iff_exists.1 ht
  exact ⟨t, RecordSpec.mem_of_held? ht, RecordSpec.sameIdentity_of_held? ht⟩

/-- The store is in line exactly if the last deeds were to write the last documents, and nothing else is
tracked. -/
theorem Current.inLine_iff (hhistory : History ns name m₀ es m)
    (horderly : Orderly ns name (DoneBy (fun _ => False) es) m)
    (hplaced : ∀ p ∈ rendered, p.tracked.Placed) (h : Current ns name m fingerprint rendered a r) :
    InLine ns name m rendered ↔ LastWritten es rendered
      ∧ ∀ t ∈ trackedIn ns name m, ∃ p ∈ rendered, p.tracked.sameIdentity t := by
  obtain ⟨htidy, hdone⟩ := horderly.of_holds h.holds
  constructor
  · intro hline
    refine ⟨fun p hp => ?_, hline.tracked⟩
    obtain ⟨q, live, hq, hlive, hcarries⟩ := hline.present p hp
    obtain ⟨t, ht, hsame⟩ := h.exists_tracked hp
    have hslot : t.slot = p.key.slot := Tracked.slot_eq_of_sameIdentity (htidy.placed t ht) (hplaced p hp) hsame
    refine ⟨q, live, hq, ?_, hcarries⟩
    -- something was done there, and what is there is what it left
    have hfind : m.objects.find? p.key.slot = some live := hlive
    rw [hhistory.find?, after] at hfind
    obtain hfalse | hne := hdone t ht
    · exact hfalse.elim
    · rw [hslot] at hne
      obtain ⟨left, hleft⟩ := Option.ne_none_iff_exists'.1 hne
      rw [hleft] at hfind ⊢
      exact congrArg some hfind
  · rintro ⟨hlast, htracked⟩
    refine ⟨fun p hp => ?_, htracked⟩
    obtain ⟨q, live, hq, hleft, hcarries⟩ := hlast p hp
    refine ⟨q, live, hq, ?_, hcarries⟩
    show m.objects.find? p.key.slot = some live
    rw [hhistory.find?, after, hleft]
    rfl

theorem Current.covered (h : Current ns name m fingerprint rendered a r) : Covered ns name m rendered := by
  intro p hp
  rw [trackedIn_of_holds h.holds]
  exact h.exists_tracked hp

/-- An apply that succeeded leaves a store in line with its render, and all of it tracked. -/
theorem Went.inLine {r₁ : RecordSpec} {σ : Pass} {report : ApplyReport} {done : Slot → Prop}
    (horderly : Orderly ns name done m)
    (hdocs : ∀ p ∈ rendered, p.tracked.Placed ∧ p.key.slot ≠ own ns name)
    (h : Went ns name m fs m' fingerprint rendered (.ok report) r₁ σ) :
    InLine ns name m' rendered ∧ Covered ns name m' rendered := by
  have hsound := h.sound horderly fun p hp => (hdocs p hp).1
  obtain ⟨hdone, hholds, -⟩ := h.finished report rfl
  have htracked := trackedIn_of_holds hholds
  have hiff := hsound.isTracked_iff hdone
  refine ⟨⟨fun p hp => h.landed hsound hdocs hdone hp, fun t ht => ?_⟩, fun p hp => ?_⟩
  · refine (hiff t).1 ?_
    rw [RecordSpec.isTracked, List.any_eq_true]
    exact ⟨t, htracked ▸ ht, Tracked.sameIdentity_refl t⟩
  · have hp := (hiff p.tracked).2 ⟨p, hp, Tracked.sameIdentity_refl _⟩
    rw [RecordSpec.isTracked, List.any_eq_true] at hp
    obtain ⟨t, ht, hsame⟩ := hp
    exact ⟨t, htracked ▸ ht, hsame⟩

/-- After an apply that succeeded, and calls from which nothing came, the store is in line exactly with the
renders that end in the same documents. -/
theorem Current.inLine_iff_sameEnd {rendered₀ : List Prepared} {fingerprint₀ : String} {m₁ m₂ : Memory}
    {r₁ : RecordSpec} {σ : Pass} {report : ApplyReport} {done : Slot → Prop}
    (horderly : Orderly ns name done m₁)
    (hdocs₀ : ∀ p ∈ rendered₀, p.tracked.Placed ∧ p.key.slot ≠ own ns name)
    (hwent : Went ns name m₁ fs m₂ fingerprint₀ rendered₀ (.ok report) r₁ σ)
    (hidle : ∀ k, m.object? k = m₂.object? k) (hplaced : ∀ p ∈ rendered, p.tracked.Placed)
    (h : Current ns name m fingerprint rendered a r) :
    InLine ns name m rendered ↔ SameEnd rendered₀ rendered := by
  obtain ⟨hline₀, hcovered₀⟩ := hwent.inLine horderly hdocs₀
  have hplaced₀ := fun p hp => (hdocs₀ p hp).1
  have htracked : trackedIn ns name m = trackedIn ns name m₂ := trackedIn_congr hidle
  have hcovered : Covered ns name m₂ rendered := by
    unfold Covered
    rw [← htracked]
    exact h.covered
  rw [InLine.congr hidle]
  exact ⟨fun hline => hline₀.sameEnd hplaced hplaced₀ hcovered hcovered₀ hline,
    fun hend => hline₀.of_sameEnd hplaced hplaced₀ hend⟩

/-- After a removal that was cut short when something was gone, and calls from which nothing came, the store is
not in line with any render. -/
theorem Current.not_inLine {m₁ m₂ : Memory} {e : Error} {done : Slot → Prop}
    (horderly : Orderly ns name done m₁) (hremove : (remove ns name).Runs m₁ fs (.error e) m₂)
    (hdeleted : ¬Idle fs) (hidle : ∀ k, m.object? k = m₂.object? k)
    (hplaced : ∀ p ∈ rendered, p.tracked.Placed) (h : Current ns name m fingerprint rendered a r) :
    ¬InLine ns name m rendered := by
  intro hline
  obtain ⟨hfs, -⟩ | ⟨s, hremoval, hgone | ⟨hnone, -⟩⟩ := runs_remove horderly hremove
  · exact hdeleted hfs
  · obtain ⟨o, -, ho, -⟩ := h.holds
    rw [hidle, hgone] at ho
    cases ho
  · have hsame : m.object? (recordKey ns name) = m₁.object? (recordKey ns name) :=
      (hidle _).trans (object?_of_lastLeft? hremove hnone)
    have hrs : r = s := h.holds.unique (hremoval.holds.congr hsame)
    -- something that is tracked is gone, and it would have to be rendered
    obtain ⟨slot, hslot⟩ := not_forall.1 hdeleted
    have hne : slot ≠ own ns name := fun h => hslot (h ▸ hnone)
    obtain hnone' | ⟨hleft, t, ht, rfl⟩ := hremoval.deleted slot hne
    · exact hslot hnone'
    obtain ⟨p, hp, hpt⟩ := hline.tracked t (by rw [trackedIn_of_holds h.holds, hrs]; exact ht)
    obtain ⟨q, live, -, hlive, -⟩ := hline.present p hp
    have hplace : p.key.slot = t.slot := Tracked.slot_eq_of_sameIdentity (hplaced p hp)
      ((horderly.of_holds hremoval.holds).1.placed t ht) hpt
    rw [hidle] at hlive
    have hempty : m₂.objects.find? p.key.slot = none := by
      rw [hremove.find?, hplace, hleft]
      rfl
    exact absurd (hempty.symm.trans hlive) (fun h => nomatch h)

variable {render : Renderer} {spec : ManifestSpec} {owner : Option OwnerReference} {report : ApplyReport}

/-- An apply that reports no change found its render applied. -/
theorem current_of_noop {done : Slot → Prop} (horderly : Orderly ns name done m)
    (hleaves : LeavesRecord render ns name spec)
    (h : (apply render ns name spec owner).Runs m fs (.ok report) m') (hnoop : report.changed = false) :
    ∃ bytes rendered r, render spec.url spec.patches spec.images = .ok bytes
      ∧ prepare bytes ns name = .ok rendered
      ∧ Current ns name m (Manifest.fingerprint bytes) rendered (.ok report) r ∧ m'.objects = m.objects := by
  obtain ⟨-, e, he⟩ | ⟨bytes, rendered, hbytes, hrendered, ⟨r, hcurrent, -, hm⟩ | ⟨r, σ, hwent⟩⟩ :=
    runs_apply horderly hleaves h
  · cases he
  · exact ⟨bytes, rendered, r, hbytes, hrendered, hcurrent, hm⟩
  · rw [(hwent.finished report rfl).report] at hnoop
    cases hnoop

/-- After any calls of a component from a store without its record on, an apply that reports no change finds
the store in line with its render exactly if the last deeds were to write its last documents and nothing else is
tracked. If the last calls to do anything were an apply that succeeded, that is if its render ends in the same
documents; if they were a removal that was cut short, it is not so. -/
theorem noop_inLine_iff (habsent : m₀.object? (recordKey ns name) = none)
    (hhistory : History ns name m₀ es m) (hleaves : LeavesRecord render ns name spec)
    (h : (apply render ns name spec owner).Runs m fs (.ok report) m') (hnoop : report.changed = false) :
    ∃ bytes rendered, render spec.url spec.patches spec.images = .ok bytes
      ∧ prepare bytes ns name = .ok rendered
      ∧ (InLine ns name m' rendered ↔ LastWritten es rendered
        ∧ ∀ t ∈ trackedIn ns name m', ∃ p ∈ rendered, p.tracked.sameIdentity t)
      ∧ (∀ es₁ m₁ render₀ spec₀ owner₀ bytes₀ rendered₀ es₂ report₀ m₂ es₃,
        History ns name m₀ es₁ m₁ → LeavesRecord render₀ ns name spec₀ →
        render₀ spec₀.url spec₀.patches spec₀.images = .ok bytes₀ → prepare bytes₀ ns name = .ok rendered₀ →
        (apply render₀ ns name spec₀ owner₀).Runs m₁ es₂ (.ok report₀) m₂ → report₀.changed = true →
        History ns name m₂ es₃ m → Idle es₃ → (InLine ns name m' rendered ↔ SameEnd rendered₀ rendered))
      ∧ ∀ es₁ m₁ es₂ e m₂ es₃, History ns name m₀ es₁ m₁ → (remove ns name).Runs m₁ es₂ (.error e) m₂ →
        ¬Idle es₂ → History ns name m₂ es₃ m → Idle es₃ → ¬InLine ns name m' rendered := by
  have orderly : ∀ {es₁ m₁}, History ns name m₀ es₁ m₁ →
      Orderly ns name (DoneBy (fun _ => False) es₁) m₁ := fun h => h.orderly (.inl habsent)
  obtain ⟨bytes, rendered, r, hbytes, hrendered, hcurrent, hm⟩ :=
    current_of_noop (orderly hhistory) hleaves h hnoop
  have hplaced := fun p hp => (of_prepare hrendered p hp).2
  have hobjects := Memory.object?_congr hm
  have htracked : trackedIn ns name m' = trackedIn ns name m := trackedIn_congr hobjects
  refine ⟨bytes, rendered, hbytes, hrendered, ?_, ?_, ?_⟩
  · rw [InLine.congr hobjects, htracked]
    exact hcurrent.inLine_iff hhistory (orderly hhistory) hplaced
  · intro es₁ m₁ render₀ spec₀ owner₀ bytes₀ rendered₀ es₂ report₀ m₂ es₃ h₁ hleaves₀ hbytes₀ hrendered₀ h₂
      hchanged h₃ hidle
    rw [InLine.congr hobjects]
    obtain ⟨-, e, he⟩ | ⟨_, _, hb, hr, ⟨_, hcurrent₀, -⟩ | ⟨r₁, σ, hwent⟩⟩ := runs_apply (orderly h₁) hleaves₀ h₂
    · cases he
    · obtain rfl := Except.ok.inj hcurrent₀.report
      cases hchanged
    · obtain rfl := Except.ok.inj (hbytes₀.symm.trans hb)
      obtain rfl := Except.ok.inj (hrendered₀.symm.trans hr)
      have hdocs₀ := fun p hp =>
        And.intro (of_prepare hrendered₀ p hp).2 (hleaves₀ bytes₀ rendered₀ hbytes₀ hrendered₀ p hp)
      exact hcurrent.inLine_iff_sameEnd (orderly h₁) hdocs₀ hwent (h₃.idle hidle) hplaced
  · intro es₁ m₁ es₂ e m₂ es₃ h₁ hremove hdeleted h₃ hidle
    rw [InLine.congr hobjects]
    exact hcurrent.not_inLine (orderly h₁) hremove hdeleted (h₃.idle hidle) hplaced

end Noop

section Levels

attribute [local irreducible] apply

theorem second_apply_inLine :
    ∃ rendered, prepare levelOne.url.toUTF8 "default" "metrics" = .ok rendered
      ∧ InLine "default" "metrics" (applied levelOne (applied levelOne bare).2).2.memory rendered := by
  have hchecked : ((applied levelOne bare).1.toOption.any fun report => report.changed) = true
      ∧ ((applied levelOne (applied levelOne bare).2).1.toOption.any fun report => !report.changed) = true := by
    decide +kernel
  obtain ⟨report₀, hreport₀, hchanged⟩ := ok_of_any hchecked.1
  obtain ⟨report, hreport, hnoop⟩ := ok_of_any hchecked.2
  obtain ⟨es, h₁⟩ := runs_applied levelOne bare
  obtain ⟨fs, h₂⟩ := runs_applied levelOne (applied levelOne bare).2
  rw [hreport₀] at h₁
  rw [hreport] at h₂
  obtain ⟨bytes, rendered, hbytes, hrendered, -, hiff, -⟩ :=
    noop_inLine_iff rfl (.call .start (.apply levelOne_leavesRecord h₁)) levelOne_leavesRecord h₂
      (Bool.not_eq_true' _ ▸ hnoop)
  obtain rfl := Except.ok.inj hbytes
  refine ⟨rendered, hrendered, (hiff [] _ _ _ _ _ _ _ _ _ [] .start levelOne_leavesRecord rfl hrendered h₁
    hchanged .start fun _ => rfl).2 fun _ => rfl⟩

/-- The value of an object's field `x`. -/
def level (o : Object) : Option Int := (Table.find? o.data "x").bind Json.int?

/-- A level that was pending when the other was applied again is taken for applied, with the other in the
store. -/
theorem reverted_noop_not_inLine :
    ∃ m₀ es m fs report m' rendered, m₀.object? (recordKey "default" "metrics") = none
      ∧ History "default" "metrics" m₀ es m ∧ LeavesRecord echo "default" "metrics" levelTwo
      ∧ prepare levelTwo.url.toUTF8 "default" "metrics" = .ok rendered
      ∧ (apply echo "default" "metrics" levelTwo none).Runs m fs (.ok report) m' ∧ report.changed = false
      ∧ ¬InLine "default" "metrics" m' rendered := by
  have hchecked : ((applied levelTwo revertedApply.2).1.toOption.any fun report => !report.changed) = true
      ∧ ((prepare levelTwo.url.toUTF8 "default" "metrics").toOption.any fun rendered =>
        !rendered.isEmpty && rendered.all fun p => rendered.all fun q =>
          ((applied levelTwo revertedApply.2).2.memory.object? p.key).all fun live =>
            level live != level q.object) = true := by
    decide +kernel
  obtain ⟨report, hreport, hnoop⟩ := ok_of_any hchecked.1
  obtain ⟨rendered, hrendered, hlevels⟩ := ok_of_any hchecked.2
  rw [Bool.and_eq_true] at hlevels
  obtain ⟨es₁, h₁⟩ := runs_applied levelOne bare
  obtain ⟨es₂, h₂⟩ := runs_applied levelTwo (applied levelOne bare).2
  obtain ⟨es₃, h₃⟩ := runs_applied levelOne (applied levelTwo (applied levelOne bare).2).2
  obtain ⟨fs, h⟩ := runs_applied levelTwo revertedApply.2
  rw [hreport] at h
  refine ⟨bare.memory, _, _, fs, report, _, rendered, rfl,
    .call (.call (.call .start (.apply levelOne_leavesRecord h₁)) (.apply levelTwo_leavesRecord h₂))
      (.apply levelOne_leavesRecord h₃), levelTwo_leavesRecord, hrendered, h,
    (Bool.not_eq_true' _).mp hnoop, fun hline => ?_⟩
  obtain ⟨hsome, hall⟩ := hlevels
  cases rendered with
  | nil => cases hsome
  | cons p ps =>
    obtain ⟨q, live, hq, hlive, hcarries⟩ := hline.present p List.mem_cons_self
    have hlevel := List.all_eq_true.1 (List.all_eq_true.1 hall p List.mem_cons_self) q (mem_of_lastOf hq)
    have hne := (Option.all_eq_true ..).mp hlevel live hlive
    refine bne_iff_ne.1 hne ?_
    unfold level
    rw [hcarries.data]

end Levels

end Bundle

end Addons
