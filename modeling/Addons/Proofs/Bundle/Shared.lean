import Addons.Proofs.Bundle.Progress

/-!
# Components that share objects

Records are kept for each component, but objects are found by their identity: what two components list, each of
them deletes on its own account. Where calls are run to their end one after another, no document is a record and
no request fails, this is the only way in which an object that a record lists can be missing
(`listed_missing_iff`).
-/

namespace Addons.Bundle

open Relation (ReflTransGen)

variable {ns name ns' name' : String} {m m₀ m' : Memory} {s : Slot} {t : Tracked}

/-! ## Calls in turn -/

theorem own_inj (h : own ns name = own ns' name') : ns = ns' ∧ name = name' :=
  ⟨congrArg Slot.ns h, congrArg Slot.name h⟩

/-- No rendered document is in the place of a record. -/
def NoRecords (render : Renderer) (ns name : String) (spec : ManifestSpec) : Prop :=
  ∀ p ∈ renderedOf render ns name spec, ∀ ns' name', p.key.slot ≠ own ns' name'

/-- A call for a component, run to its end. -/
inductive Turn (ns name : String) : Memory → Memory → Prop
  | apply {render : Renderer} {spec : ManifestSpec} {owner : Option OwnerReference} (h : Host) :
      NoRecords render ns name spec →
      Turn ns name h.memory ((apply render ns name spec owner).run h).2.memory
  | remove (h : Host) : Turn ns name h.memory ((remove ns name).run h).2.memory

/-- Calls for any components, in any order. -/
def Turns : Memory → Memory → Prop := ReflTransGen fun m m' => ∃ ns name, Turn ns name m m'

theorem NoRecords.leavesRecord {render : Renderer} {spec : ManifestSpec} (h : NoRecords render ns name spec) :
    LeavesRecord render ns name spec := by
  intro bytes rendered hbytes hrendered p hp
  rw [← renderedOf_eq hbytes hrendered] at hp
  exact h p hp ns name

/-- What a store has where calls take turns. -/
structure InOrder (m : Memory) : Prop where
  filed : m.Filed
  healthy : m.Healthy
  kept : ∀ ns name, Kept ns name m
  /-- No record lists a record. -/
  apart : ∀ ns name, ∀ t ∈ trackedIn ns name m, ∀ ns' name', t.slot ≠ own ns' name'

theorem trackedIn_of_unreadable (h : ¬Readable ns name m) : trackedIn ns name m = [] := by
  unfold trackedIn
  cases ho : m.object? (recordKey ns name) with
  | none => rfl
  | some o =>
    cases hread : manifestRecords.ofObject o with
    | error e => simp only [hread]
    | ok record =>
      refine absurd (fun o' ho' => ?_) h
      obtain rfl := Option.some.inj (ho.symm.trans ho')
      exact ⟨record, hread⟩

/-! ## What a turn leaves of the store -/

/-- What a turn touches is its record, or no record at all; and it deletes only what its record lists. -/
theorem Turn.touches (h : Turn ns name m m') (hm : InOrder m) (s : Slot) :
    m'.objects.find? s = m.objects.find? s ∨ s = own ns name
      ∨ (∀ ns' name', s ≠ own ns' name')
        ∧ (m'.objects.find? s ≠ none ∨ ∃ t ∈ trackedIn ns name m, t.slot = s) := by
  cases h with
  | @apply render spec owner h hdocs =>
    obtain ⟨es, hrun⟩ := Session.runs_run (Bundle.apply render ns name spec owner) h
    have hfind := hrun.find? s
    cases hleft : Event.lastLeft? es s with
    | none =>
      rw [hleft] at hfind
      exact .inl hfind
    | some left =>
      rw [hleft] at hfind
      have hall := (does_apply (hm.kept ns name).orderly es _ _ hrun).all
      obtain ⟨c, sum, hright⟩ := hall _ (Event.mem_of_lastLeft? hleft)
      generalize hd : (⟨s, left⟩ : Deed) = d at hright
      cases hright with
      | record _ _ _ => exact .inr (.inl (Deed.mk.inj hd).1)
      | document hp _ _ =>
        obtain ⟨rfl, rfl⟩ := Deed.mk.inj hd
        refine .inr (.inr ⟨hdocs _ hp, .inl ?_⟩)
        rw [hfind]
        exact Option.some_ne_none _
      | delete ht =>
        obtain ⟨rfl, rfl⟩ := Deed.mk.inj hd
        exact .inr (.inr ⟨hm.apart ns name _ ht.1, .inr ⟨_, ht.1, rfl⟩⟩)
  | remove h =>
    obtain ⟨es, hrun⟩ := Session.runs_run (Bundle.remove ns name) h
    rcases runs_remove_spares hrun s with hsame | ⟨-, rfl | ⟨t, ht, rfl⟩⟩
    · exact .inl hsame
    · exact .inr (.inl rfl)
    · exact .inr (.inr ⟨hm.apart ns name t ht, .inr ⟨t, ht, rfl⟩⟩)

/-- A turn leaves the records of other components alone. -/
theorem Turn.record_eq (h : Turn ns' name' m m') (hm : InOrder m) (hne : (ns', name') ≠ (ns, name)) :
    m'.object? (recordKey ns name) = m.object? (recordKey ns name) := by
  rcases h.touches hm (own ns name) with hsame | hown | ⟨hrecord, -⟩
  · exact hsame
  · obtain ⟨rfl, rfl⟩ := own_inj hown
    exact absurd rfl hne
  · exact absurd rfl (hrecord ns name)

theorem Turn.call (h : Turn ns name m m') : ∃ es, Call ns name m es m' := by
  cases h with
  | @apply render spec owner h hdocs =>
    obtain ⟨es, hrun⟩ := Session.runs_run (Bundle.apply render ns name spec owner) h
    exact ⟨es, .apply hdocs.leavesRecord hrun⟩
  | remove h =>
    obtain ⟨es, hrun⟩ := Session.runs_run (Bundle.remove ns name) h
    exact ⟨es, .remove hrun⟩

/-- What is listed after a turn was listed before, or is no record. -/
theorem Turn.apart (h : Turn ns name m m') (hm : InOrder m) (ht : t ∈ trackedIn ns name m')
    (ns' name' : String) : t.slot ≠ own ns' name' := by
  have hbefore : t ∈ trackedIn ns name m → t.slot ≠ own ns' name' :=
    fun ht => hm.apart ns name t ht ns' name'
  cases h with
  | @apply render spec owner h hdocs =>
    obtain ⟨es, hrun⟩ := Session.runs_run (Bundle.apply render ns name spec owner) h
    rcases mem_trackedIn_of_apply (hm.kept ns name).orderly hdocs.leavesRecord hrun ht with
      hold | ⟨p, hp, rfl, -⟩
    · exact hbefore hold
    · exact hdocs p hp ns' name'
  | remove h =>
    obtain ⟨es, hrun⟩ := Session.runs_run (Bundle.remove ns name) h
    rcases runs_remove_spares hrun (own ns name) with hsame | ⟨hgone, -⟩
    · rw [trackedIn_eq_of_object? hsame] at ht
      exact hbefore ht
    · rw [trackedIn_of_none hgone] at ht
      exact absurd ht List.not_mem_nil

theorem Turn.inOrder (h : Turn ns' name' m m') (hm : InOrder m) : InOrder m' := by
  obtain ⟨es, hcall⟩ := h.call
  have hruns : m'.Filed ∧ m'.Healthy := by
    cases h with
    | @apply render spec owner h hdocs =>
      obtain ⟨es, hrun⟩ := Session.runs_run (Bundle.apply render ns' name' spec owner) h
      exact ⟨hrun.filed hm.filed, hrun.healthy hm.healthy⟩
    | remove h =>
      obtain ⟨es, hrun⟩ := Session.runs_run (Bundle.remove ns' name') h
      exact ⟨hrun.filed hm.filed, hrun.healthy hm.healthy⟩
  refine ⟨hruns.1, hruns.2, fun ns name => ?_, fun ns name t ht => ?_⟩
  · by_cases hsame : (ns', name') = (ns, name)
    · obtain ⟨rfl, rfl⟩ := Prod.mk.inj hsame
      exact (hm.kept ns' name').call hcall
    · exact (hm.kept ns name).others (h.record_eq hm hsame)
  · by_cases hsame : (ns', name') = (ns, name)
    · obtain ⟨rfl, rfl⟩ := Prod.mk.inj hsame
      exact h.apart hm ht
    · rw [trackedIn_eq_of_object? (h.record_eq hm hsame)] at ht
      exact hm.apart ns name t ht

/-! ## What a component finds of its own -/

/-- A pass that has come to its end has put all that its record lists into the store. -/
theorem Went.listed {es : List Event} {fingerprint : String} {rendered : List Prepared} {report : ApplyReport}
    {r : RecordSpec} {σ : Pass} (horderly : Orderly ns name (fun _ => True) m)
    (hdocs : ∀ p ∈ rendered, p.tracked.Placed ∧ p.key.slot ≠ own ns name)
    (h : Went ns name m es m' fingerprint rendered (.ok report) r σ) (ht : t ∈ trackedIn ns name m') :
    m'.objects.find? t.slot ≠ none := by
  have hsound := h.sound horderly fun p hp => (hdocs p hp).1
  obtain ⟨hdone, hholds, -⟩ := h.finished report rfl
  rw [trackedIn_of_holds hholds] at ht
  have htidy : σ.record.Tidy (own ns name) := hsound.tidy hdocs (h.start.tidy horderly)
  have htracked : σ.record.isTracked t := List.any_eq_true.2 ⟨t, ht, Tracked.sameIdentity_refl t⟩
  obtain ⟨p, hp, hsame⟩ := (hsound.isTracked_iff hdone t).1 htracked
  obtain ⟨q, live, -, hlive, -⟩ := h.landed hsound hdocs hdone hp
  rw [← Tracked.slot_eq_of_sameIdentity (hdocs p hp).1 (htidy.placed t ht) hsame]
  have hfind : m'.objects.find? p.tracked.slot = some live := hlive
  rw [hfind]
  exact Option.some_ne_none live

theorem runs_remove_unreadable {es : List Event} {a : Except Error Nat} (hread : ¬Readable ns name m)
    (h : (remove ns name).Runs m es a m') : m'.objects = m.objects := by
  rcases Session.runs_bind.1 h with ⟨found, m₁, es₁, es₂, h₁, -, -⟩ | ⟨e, h₁, -⟩
  · obtain ⟨-, -, hnone, hsome⟩ := runs_record? h₁
    refine absurd (fun o ho => ?_) hread
    cases found with
    | none =>
      rw [hnone rfl] at ho
      cases ho
    | some record =>
      obtain ⟨o', ho', hok⟩ := hsome record rfl
      obtain rfl := Option.some.inj (ho.symm.trans ho')
      exact ⟨record, hok⟩
  · exact (runs_record? h₁).2.1

/-- After a turn of its own a component has all that it lists, or nothing has changed. -/
theorem Turn.listed (h : Turn ns name m m') (hm : InOrder m) :
    (∀ t ∈ trackedIn ns name m', m'.objects.find? t.slot ≠ none) ∨ m'.objects = m.objects := by
  have horderly := (hm.kept ns name).orderly
  cases h with
  | @apply render spec owner h hdocs =>
    have hleaves := hdocs.leavesRecord
    have hends : (Bundle.apply render ns name spec owner).Ends h.memory _ :=
      ends_apply hm.healthy hm.filed horderly hleaves
    rcases hends.runs h with
      ⟨⟨report, hreport⟩ | hunreadable | hsame, es, hrun⟩
    · rw [hreport] at hrun
      rcases runs_apply horderly hleaves hrun with
        ⟨-, e, he⟩ | ⟨bytes, rendered, hbytes, hrendered, ⟨r, -, -, hsame⟩ | ⟨r, σ, hwent⟩⟩
      · cases he
      · exact .inr hsame
      · refine .inl fun t ht => hwent.listed horderly (fun p hp => ?_) ht
        exact ⟨(of_prepare hrendered p hp).2, hleaves bytes rendered hbytes hrendered p hp⟩
    · refine .inl fun t ht => ?_
      rw [trackedIn_of_unreadable hunreadable] at ht
      exact absurd ht List.not_mem_nil
    · exact .inr hsame
  | remove h =>
    obtain ⟨⟨hreadable, -⟩, es, hrun⟩ := (ends_remove hm.healthy).runs h
    by_cases hread : Readable ns name h.memory
    · obtain ⟨n, hn⟩ := hreadable hread
      rw [hn] at hrun
      refine .inl fun t ht => ?_
      have hgone : ((Bundle.remove ns name).run h).2.memory.object? (recordKey ns name) = none := by
        by_contra hthere
        exact (((runs_remove_ok hrun).2 (own ns name)).1 hthere).2.1 rfl
      rw [trackedIn_of_none hgone] at ht
      exact absurd ht List.not_mem_nil
    · exact .inr (runs_remove_unreadable hread hrun)

/-! ## Many turns -/

/-- An object is missing after each of some turns. -/
def Without (s : Slot) : Memory → Memory → Prop :=
  ReflTransGen fun m m' => (∃ ns name, Turn ns name m m') ∧ m'.objects.find? s = none

/-- An object that a component lists was deleted in a turn of another component that listed it too, and no turn
since then has put it back. -/
inductive Bereft (ns name : String) (t : Tracked) (m₀ m : Memory) : Prop
  | mk {ns' name' : String} {m₁ m₂ : Memory} {u : Tracked} : Turns m₀ m₁ → t ∈ trackedIn ns name m₁ →
      m₁.object? (Key.ofTracked t) ≠ none → (ns', name') ≠ (ns, name) → u ∈ trackedIn ns' name' m₁ →
      u.slot = t.slot → Turn ns' name' m₁ m₂ → m₂.object? (Key.ofTracked t) = none → Without t.slot m₂ m →
      Bereft ns name t m₀ m

theorem Without.missing (h : Without s m m') (hm : m.objects.find? s = none) : m'.objects.find? s = none := by
  cases h with
  | refl => exact hm
  | tail _ hstep => exact hstep.2

theorem Bereft.turn (h : Bereft ns name t m₀ m) (hturn : Turn ns' name' m m')
    (hnone : m'.objects.find? t.slot = none) : Bereft ns name t m₀ m' := by
  obtain ⟨hbefore, hlisted, hthere, hne, hu, hslot, hdeletes, hgone, hwithout⟩ := h
  exact ⟨hbefore, hlisted, hthere, hne, hu, hslot, hdeletes, hgone, hwithout.tail ⟨⟨_, _, hturn⟩, hnone⟩⟩

theorem Turns.inOrder (hm₀ : InOrder m₀) (h : Turns m₀ m) : InOrder m := by
  induction h with
  | refl => exact hm₀
  | tail _ hturn ih =>
    obtain ⟨ns, name, hturn⟩ := hturn
    exact hturn.inOrder ih

/-- Whatever a component lists is there, or another component that listed it too has deleted it. -/
theorem Turns.there_or_bereft (hm₀ : InOrder m₀)
    (hall : ∀ ns name, ∀ t ∈ trackedIn ns name m₀, m₀.objects.find? t.slot ≠ none) (h : Turns m₀ m)
    (ht : t ∈ trackedIn ns name m) : m.objects.find? t.slot ≠ none ∨ Bereft ns name t m₀ m := by
  induction h with
  | refl => exact .inl (hall ns name t ht)
  | @tail m m' hturns hturn ih =>
    obtain ⟨ns', name', hturn⟩ := hturn
    have hm : InOrder m := Turns.inOrder hm₀ hturns
    by_cases hthere : m'.objects.find? t.slot ≠ none
    · exact .inl hthere
    rw [not_not] at hthere
    -- it is missing now: it was before, or this turn has deleted it
    by_cases hsame : (ns', name') = (ns, name)
    · obtain ⟨rfl, rfl⟩ := Prod.mk.inj hsame
      rcases hturn.listed hm with hlisted | hobjects
      · exact absurd hthere (hlisted t ht)
      · rw [trackedIn_eq_of_object? (Memory.object?_congr hobjects _)] at ht
        rw [hobjects] at hthere
        refine .inr (((ih ht).resolve_left (not_not.2 hthere)).turn hturn ?_)
        rw [hobjects, hthere]
    · rw [trackedIn_eq_of_object? (hturn.record_eq hm hsame)] at ht
      rcases ih ht with hbefore | hbereft
      · rcases hturn.touches hm t.slot with hkept | hown | ⟨-, hwritten | ⟨u, hu, hslot⟩⟩
        · rw [hkept] at hthere
          exact absurd hthere hbefore
        · exact absurd hown (hm.apart ns name t ht ns' name')
        · exact absurd hthere hwritten
        · exact .inr ⟨hturns, ht, hbefore, hsame, hu, hslot, hturn, hthere, .refl⟩
      · exact .inr (hbereft.turn hturn hthere)

/-- Of what any record lists, exactly that is missing which another component, that listed it too, has deleted
and nobody has put back. -/
theorem listed_missing_iff (hfiled : m₀.Filed) (hhealthy : m₀.Healthy)
    (hnone : ∀ ns name, m₀.object? (recordKey ns name) = none) (hturns : Turns m₀ m)
    (ht : t ∈ trackedIn ns name m) :
    m.object? (Key.ofTracked t) = none ↔ Bereft ns name t m₀ m := by
  have hnil : ∀ ns name, trackedIn ns name m₀ = [] := fun ns name => trackedIn_of_none (hnone ns name)
  have hm₀ : InOrder m₀ := by
    refine ⟨hfiled, hhealthy, fun ns name => .absent (hnone ns name), fun ns name t ht => ?_⟩
    rw [hnil] at ht
    exact absurd ht List.not_mem_nil
  constructor
  · intro hmissing
    refine (hturns.there_or_bereft hm₀ (fun ns name t ht => ?_) ht).resolve_left (not_not.2 hmissing)
    rw [hnil] at ht
    exact absurd ht List.not_mem_nil
  · rintro ⟨-, -, -, -, -, -, -, hgone, hwithout⟩
    exact hwithout.missing hgone

section Levels

attribute [local irreducible] apply remove

/-- A store without any objects. -/
def cleared : Host := { memory := { now := default } }

/-- Two components of one source, the first of which is removed. -/
def firstApplied : Host := ((apply echo "default" "first" levelOne none).run cleared).2

def bothApplied : Host := ((apply echo "default" "second" levelOne none).run firstApplied).2

def firstRemoved : Host := ((remove "default" "first").run bothApplied).2

/-- A document that is a record and lists what nobody has made. -/
def forged : ManifestSpec :=
  { url := "apiVersion: stowage.io/v1alpha1\nkind: ManifestRecord\n"
      ++ "metadata: \x7bname: ghost, namespace: default\x7d\n"
      ++ "spec: \x7burl: u, objects: [\x7bapiVersion: v1, kind: A, name: a\x7d]\x7d" }

/-- A component lists something that is missing. -/
def misses (ns name : String) (m : Memory) : Bool :=
  (trackedIn ns name m).any fun t => (m.object? (Key.ofTracked t)).isNone

theorem exists_of_misses (h : misses ns name m = true) :
    ∃ t ∈ trackedIn ns name m, m.object? (Key.ofTracked t) = none := by
  obtain ⟨t, ht, hmissing⟩ := List.any_eq_true.1 h
  exact ⟨t, ht, Option.isNone_iff_eq_none.1 hmissing⟩

theorem noRecords_echo {spec : ManifestSpec}
    (h : ((renderedOf echo ns name spec).all fun p => p.key.slot.kind != "ManifestRecord") = true) :
    NoRecords echo ns name spec := by
  intro p hp ns' name' hslot
  have hkind : p.key.slot.kind = "ManifestRecord" := congrArg Slot.kind hslot
  exact bne_iff_ne.1 (List.all_eq_true.1 h p hp) hkind

theorem shared_checked :
    ((renderedOf echo "default" "first" levelOne).all fun p => p.key.slot.kind != "ManifestRecord") = true
      ∧ ((renderedOf echo "default" "second" levelOne).all fun p => p.key.slot.kind != "ManifestRecord") = true
      ∧ misses "default" "second" firstRemoved.memory = true
      ∧ misses "default" "ghost" ((apply echo "default" "forger" forged none).run cleared).2.memory = true := by
  decide +kernel

theorem turns_firstRemoved : Turns cleared.memory firstRemoved.memory := by
  obtain ⟨hfirst, hsecond, -, -⟩ := shared_checked
  have h₁ : Turn "default" "first" cleared.memory firstApplied.memory := .apply cleared (noRecords_echo hfirst)
  have h₂ : Turn "default" "second" firstApplied.memory bothApplied.memory :=
    .apply firstApplied (noRecords_echo hsecond)
  have h₃ : Turn "default" "first" bothApplied.memory firstRemoved.memory := .remove bothApplied
  exact ((Relation.ReflTransGen.single ⟨_, _, h₁⟩).tail ⟨_, _, h₂⟩).tail ⟨_, _, h₃⟩

theorem second_bereft :
    ∃ t ∈ trackedIn "default" "second" firstRemoved.memory,
      Bereft "default" "second" t cleared.memory firstRemoved.memory := by
  obtain ⟨t, ht, hmissing⟩ := exists_of_misses shared_checked.2.2.1
  have hfiled : cleared.memory.Filed := .of_nil rfl
  have hhealthy : cleared.memory.Healthy := rfl
  have hnone : ∀ ns name, cleared.memory.object? (recordKey ns name) = none := fun _ _ => rfl
  exact ⟨t, ht, (listed_missing_iff hfiled hhealthy hnone turns_firstRemoved ht).1 hmissing⟩

/-- The removal of a component deletes an object that another one lists; and a record that is itself a document
may list anything. -/
theorem listed_objects_missing :
    (Turns cleared.memory firstRemoved.memory ∧ ∃ t ∈ trackedIn "default" "second" firstRemoved.memory,
      firstRemoved.memory.object? (Key.ofTracked t) = none)
      ∧ ∃ t ∈ trackedIn "default" "ghost" ((apply echo "default" "forger" forged none).run cleared).2.memory,
        ((apply echo "default" "forger" forged none).run cleared).2.memory.object? (Key.ofTracked t) = none := by
  obtain ⟨-, -, hsecond, hghost⟩ := shared_checked
  exact ⟨⟨turns_firstRemoved, exists_of_misses hsecond⟩, exists_of_misses hghost⟩

end Levels

end Addons.Bundle
