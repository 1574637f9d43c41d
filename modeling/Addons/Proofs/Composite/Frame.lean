import Addons.Proofs.Composite.Convergence
import Addons.Proofs.Store.Points
import Mathlib.Data.List.Induction

/-!
# What a pass may touch

Whatever comes of a pass, and wherever it is cut short: it creates namespaces that are missing, it writes
components at the places of its entries, and it deletes components of its owner that are at no such place.
One whose name no entry has goes only when every entry has its component (`Permitted`,
`every_deed_permitted`).
-/

namespace Addons.Reconcile

variable {π σ : Type} {k : ComponentKind π σ} {owner : Owner} {propagation : Propagation} {m m' : Memory}
  {es : List Event} {entries done todo : List (Entry π)} {e : Entry π} {left left' : List Object}
  {outcome : EntryOutcome} {P : (Slot → Option Object) → Deed → Prop}

/-! ## The deeds of one entry -/

theorem heeds_ensureNamespace {name : String}
    (h : ∀ stored, m.object? (Session.namespaceKey name) = none →
      stored.unstamped = (Session.namespaceObject name).unstamped →
      P m.objects.find? ⟨(Session.namespaceKey name).slot, some stored⟩) :
    (Session.ensureNamespace name).Heeds P m := by
  unfold Session.ensureNamespace
  refine (Session.heeds_find? _).bind fun _ o? m₁ hfind => ?_
  obtain ⟨-, hm₁, -⟩ := Session.runs_find? hfind
  cases o? with
  | some o => exact Session.heeds_done _
  | none =>
    refine (Session.heeds_createNew fun key stored hkey hnone hs => ?_).attempt.bind fun _ r _ _ => ?_
    · obtain rfl := Except.ok.inj ((Session.key_namespaceObject name).symm.trans hkey)
      rw [Memory.object?_congr hm₁] at hnone
      rw [hm₁]
      exact h stored hnone hs
    · cases r with
      | ok _ => exact Session.heeds_done _
      | error e =>
        dsimp only
        split <;> exact Session.heeds_done _

/-- An entry is written at its place, and what stands for it elsewhere is deleted. -/
theorem heeds_applyTo {existing : Option Object}
    (hplace : ∀ look stored, StandsFor k owner e stored → P look ⟨place k owner e, some stored⟩)
    (hmove : ∀ o key, existing = some o → o.metadata.ns ≠ some (owner.targetNs e) → o.key = .ok key →
      P m.objects.find? ⟨key.slot, none⟩) :
    (applyTo propagation (materialize k owner e) (owner.targetNs e) existing).Heeds P m := by
  have hcreate : ∀ {m : Memory}, (Session.createNew (materialize k owner e)).Heeds P m := by
    refine Session.heeds_createNew fun key stored hkey _ hs => ?_
    obtain rfl := Except.ok.inj ((key_materialize e).symm.trans hkey)
    exact hplace _ stored (standsFor_of_written hs (.inl rfl))
  cases existing with
  | none => exact hcreate.bind fun _ _ _ _ => Session.heeds_done _
  | some o =>
    unfold applyTo
    dsimp only
    by_cases hns : o.metadata.ns = some (owner.targetNs e)
    · rw [if_pos hns]
      by_cases hcurrent : isCurrent (materialize k owner e) o
      · rw [if_pos hcurrent]
        exact Session.heeds_done _
      · rw [if_neg hcurrent]
        refine (Session.heeds_replace fun key stored hkey hs => ?_).bind fun _ _ _ _ => Session.heeds_done _
        obtain rfl := Except.ok.inj ((key_materialize e).symm.trans hkey)
        exact hplace _ stored (standsFor_of_written hs (.inr ⟨o, rfl⟩))
    · rw [if_neg hns]
      refine Session.heeds_lift_bind fun key hkey => ?_
      refine (Session.heeds_removeIfExists (hmove o key rfl hns hkey)).bind fun _ _ _ _ => ?_
      exact hcreate.bind fun _ _ _ _ => Session.heeds_done _

/-- What is done for an entry: its namespace is created where it is missing, its component is written, and a
candidate of its name is deleted that is in another namespace. Only without a namespace to be in can the place
of an entry hold an object that seems to be elsewhere. -/
theorem heeds_applyEntry (hm : m.Filed)
    (hhome : ∀ stored, m.objects.find? (homeOf owner e) = none →
      stored.unstamped = (Session.namespaceObject (owner.targetNs e)).unstamped →
      P m.objects.find? ⟨homeOf owner e, some stored⟩)
    (hplace : ∀ look stored, StandsFor k owner e stored → P look ⟨place k owner e, some stored⟩)
    (hmove : ∀ m₁ : Memory, (∀ s ≠ homeOf owner e, m₁.objects.find? s = m.objects.find? s) →
      ∀ o ∈ left, ∀ key, o.key = .ok key → o.anyName = e.name → o.metadata.ns ≠ some (owner.targetNs e) →
        P m₁.objects.find? ⟨key.slot, none⟩)
    (hclear : owner.targetNs e = "" → ∀ look, P look ⟨place k owner e, none⟩) :
    (applyEntry k owner propagation left e).Heeds P m := by
  rw [applyEntry_eq]
  refine (heeds_ensureNamespace hhome).bind fun _ _ m₁ hns => ?_
  have hsame : ∀ s ≠ homeOf owner e, m₁.objects.find? s = m.objects.find? s :=
    fun s hs => Session.runs_ensureNamespace hns hs
  have hm₁ := hns.filed hm
  refine Session.Heeds.bind ?_ fun _ existing m₂ hstanding => ?_
  · cases (takeMatch e.name (owner.targetNs e) left).1 with
    | some o => exact Session.heeds_done _
    | none => exact Session.heeds_find? _
  obtain ⟨hm₂, hexisting⟩ := runs_standing hstanding
  refine (heeds_applyTo hplace fun o key ho hother hkey => ?_).bind fun _ _ _ _ => Session.heeds_done _
  rw [hm₂]
  rw [ho] at hexisting
  obtain ⟨htake, -⟩ | ⟨o', rest, htake, hperm, hname, -⟩ := takeMatch_cases e.name (owner.targetNs e) left
  · -- an object at the place that names another namespace names none, and neither does the place
    rw [htake, Option.none_or] at hexisting
    obtain ⟨key', hkey', hslot⟩ := hm₁.key_of_find? hexisting.symm
    obtain rfl := Except.ok.inj (hkey.symm.trans hkey')
    rw [hslot]
    refine hclear ?_ _
    have hslotns : key.ns.getD "" = owner.targetNs e := (Slot.mk.inj hslot).2.2.1
    rw [(Object.of_key_eq_ok hkey).2.2] at hother
    cases hkeyns : key.ns with
    | none =>
      rw [hkeyns] at hslotns
      exact hslotns.symm
    | some ns =>
      rw [hkeyns] at hslotns hother
      exact absurd (congrArg some hslotns) hother
  · rw [htake, Option.some_or] at hexisting
    obtain rfl := Option.some.inj hexisting
    exact hmove m₁ hsame o (hperm.mem_iff.2 List.mem_cons_self) key hkey hname hother

/-! ## The deeds of a pass -/

section Permitted

variable (k owner entries)

/-- A slot holds a component of the owner, and is the place of no entry. -/
structure Discardable (look : Slot → Option Object) (s : Slot) : Prop where
  owned : ∃ o, look s = some o ∧ Owned k owner s o
  away : ∀ e ∈ entries, place k owner e ≠ s

/-- What a pass may do, in view of what the store holds. -/
inductive Permitted (look : Slot → Option Object) : Deed → Prop
  /-- A namespace is created that an entry asks for and that is missing. -/
  | home {e : Entry π} {stored : Object} : e ∈ entries → look (homeOf owner e) = none →
      stored.unstamped = (Session.namespaceObject (owner.targetNs e)).unstamped →
      Permitted look ⟨homeOf owner e, some stored⟩
  /-- A component is written at the place of its entry. -/
  | write {e : Entry π} {stored : Object} : e ∈ entries → StandsFor k owner e stored →
      Permitted look ⟨place k owner e, some stored⟩
  /-- A component is deleted that has the name of an entry. -/
  | move {e : Entry π} {s : Slot} : Discardable k owner entries look s → e ∈ entries → s.name = e.name →
      Permitted look ⟨s, none⟩
  /-- A component is deleted when every entry has its own. -/
  | sweep {s : Slot} : Discardable k owner entries look s →
      (∀ e ∈ entries, ∃ o, look (place k owner e) = some o ∧ StandsFor k owner e o) →
      Permitted look ⟨s, none⟩

end Permitted

theorem heeds_applyEntries (ho : owner.Plain) (hm : m.Filed) (hnames : (entries.map Entry.name).Nodup)
    (ht : Threaded k owner done left m) (hsplit : entries = done ++ todo) :
    (applyEntries k owner propagation left todo).Heeds (Permitted k owner entries) m := by
  induction todo generalizing done left m with
  | nil => exact Session.heeds_done _
  | cons e todo ih =>
    have he : e ∈ entries := by simp [hsplit]
    refine Session.Heeds.bind ?_ fun _ r m₁ hentry => ?_
    · refine heeds_applyEntry hm (fun _ => .home he) (fun _ _ => .write he) ?_ fun hns _ =>
        absurd hns (Owner.targetNs_ne ho e)
      intro m₁ hsame o hmem key hkey hname hns
      obtain ⟨s, hf, howned, -⟩ := ht.live o hmem
      obtain ⟨key', hkey', rfl⟩ := hm.key_of_find? hf
      obtain rfl := Except.ok.inj (hkey.symm.trans hkey')
      have hslotname : key.slot.name = e.name := (Object.anyName_of_key hkey).symm.trans hname
      refine .move ⟨⟨o, ?_, howned⟩, fun e' he' hplace => ?_⟩ he hslotname
      · rw [hsame _ (ne_namespace howned.1), hf]
      · -- the place of this name is that of the entry, where the object would be in its namespace
        obtain rfl : e' = e := List.inj_on_of_nodup_map hnames he' he (by rw [← hslotname, ← hplace]; rfl)
        rw [← hplace] at hf
        exact hns (ns_of_place ho hm hf).1
    · obtain ⟨outcome, left₁⟩ := r
      have hentered := runs_applyEntry_ok ho hm ht hentry
      have hnew : ∀ e' ∈ done, place k owner e' ≠ place k owner e := by
        have hplaces : (entries.map (place k owner)).Nodup := nodup_places hnames
        intro e' he' hplace
        rw [hsplit, List.map_append, List.nodup_append] at hplaces
        exact hplaces.2.2 _ (List.mem_map_of_mem he') _ (List.mem_map_of_mem List.mem_cons_self) hplace
      refine (ih (hentry.filed hm) (hentered.threaded ht hnew) ?_).bind fun _ _ _ _ => Session.heeds_done _
      rw [hsplit, List.append_assoc]
      rfl

theorem heeds_sweep (hm : m.Filed) (ht : Threaded k owner entries left m) :
    (sweep propagation left).Heeds (Permitted k owner entries) m := by
  induction left generalizing m with
  | nil => exact Session.heeds_done _
  | cons o left ih =>
    obtain ⟨s, hf, howned, haway⟩ := ht.live o List.mem_cons_self
    obtain ⟨key, hkey, rfl⟩ := hm.key_of_find? hf
    refine Session.heeds_lift_bind fun key' hkey' => ?_
    obtain rfl := Except.ok.inj (hkey.symm.trans hkey')
    refine (Session.heeds_removeIfExists (.sweep ⟨⟨o, hf, howned⟩, haway⟩ ht.stands)).bind
      fun _ existed m₁ hremove => ?_
    have hm₁ := Session.runs_removeIfExists_ok hf hremove
    have ht₁ := ht.drop hm hf (by rw [hm₁]; exact Table.find?_erase_self _ _) fun s hs => by
      rw [hm₁, Table.find?_erase_ne hs]
    exact (ih (hremove.filed hm) ht₁).bind fun _ _ _ _ => Session.heeds_done _

theorem heeds_pass (ho : owner.Plain) (hnames : (entries.map Entry.name).Nodup) (hm : m.Filed) :
    (pass k owner entries propagation).Heeds (Permitted k owner entries) m := by
  unfold pass
  refine (Session.heeds_listAll _ _ _).bind fun _ installed m₁ hlist => ?_
  obtain ⟨-, hm₁, hinstalled⟩ := Session.runs_listAll hlist
  obtain rfl := hinstalled _ rfl
  have hfiled := hlist.filed hm
  have ht : Threaded k owner [] (components k owner m) m₁ :=
    (Threaded.start ho.legible hm).congr fun s _ _ => by rw [hm₁]
  refine (heeds_applyEntries ho hfiled hnames ht rfl).bind fun _ r m₂ happly => ?_
  obtain ⟨applied, left⟩ := r
  obtain ⟨ht₂, -⟩ := runs_applyEntries ho hfiled ht (nodup_places hnames) happly
  exact (heeds_sweep (happly.filed hfiled) ht₂).bind fun _ _ _ _ => Session.heeds_done _

/-! ## What is left alone -/

variable (k owner m entries) in
/-- What a pass has nothing to do with: it is at the place of no entry, it is no component of the owner, and
no namespace that an entry is missing. -/
structure Bystander (s : Slot) : Prop where
  away : ∀ e ∈ entries, place k owner e ≠ s
  foreign : ∀ o, m.objects.find? s = some o → ¬Owned k owner s o
  unasked : m.objects.find? s = none → ∀ e ∈ entries, homeOf owner e ≠ s

theorem Bystander.not_discarded {look : Slot → Option Object} {s : Slot} (hb : Bystander k owner m entries s)
    (hlook : look s = m.objects.find? s) : ¬Discardable k owner entries look s := by
  intro hd
  obtain ⟨o, hf, howned⟩ := hd.owned
  exact hb.foreign o (hlook.symm.trans hf) howned

/-- Nothing that is permitted is done to a bystander while it is as it was. -/
theorem Bystander.spared {look : Slot → Option Object} {s : Slot} {d : Deed}
    (hb : Bystander k owner m entries s) (hlook : look s = m.objects.find? s)
    (hd : Permitted k owner entries look d) : d.slot ≠ s := by
  rintro rfl
  cases hd with
  | home he hnone _ => exact hb.unasked (hlook.symm.trans hnone) _ he rfl
  | write he _ => exact hb.away _ he rfl
  | move hdiscard _ _ => exact hb.not_discarded hlook hdiscard
  | sweep hdiscard _ => exact hb.not_discarded hlook hdiscard

/-- A bystander stays as it was, from one deed to the next. -/
theorem Bystander.after {s : Slot} (hb : Bystander k owner m entries s)
    (h : ∀ before d rest, es = before ++ some d :: rest → Permitted k owner entries (m.after before) d) :
    m.after es s = m.objects.find? s := by
  induction es using List.reverseRecOn with
  | nil => rfl
  | append_singleton es e ih =>
    have hsame := ih fun before d rest hes => h before d (rest ++ [e]) (by simp [hes])
    cases e with
    | none => rw [Memory.after_concat_none, hsame]
    | some d => rw [Memory.after_concat_ne (hb.spared hsame (h es d [] rfl)), hsame]

/-- A pass keeps to what it may do, at every point and whatever comes of it. -/
theorem every_deed_permitted {a : Except Error Summary} (ho : owner.Plain)
    (hnames : (entries.map Entry.name).Nodup) (hm : m.Filed)
    (h : (pass k owner entries propagation).Runs m es a m') :
    (∀ before d rest, es = before ++ some d :: rest → Permitted k owner entries (m.after before) d)
      ∧ (∀ before rest, es = before ++ rest → ∀ s, Bystander k owner m entries s →
        m.after before s = m.objects.find? s)
      -- what the store holds after all of its deeds is what the pass leaves
      ∧ m.after es = m'.objects.find? := by
  have hdeeds := heeds_pass ho hnames hm es a m' h
  refine ⟨hdeeds, fun before rest hes s hb => hb.after fun fs d gs hfs => ?_, h.after⟩
  exact hdeeds fs d (gs ++ rest) (by rw [hes, hfs, List.append_assoc]; rfl)

section Site

attribute [local irreducible] pass

def charted (owner : Owner) (spec : SetSpec) (h : Host) : Except Error Summary × Host :=
  (pass .helm owner spec.helm .background).run h

theorem charted_filed (owner : Owner) (spec : SetSpec) : (charted owner spec vacant).2.memory.Filed := by
  obtain ⟨_, h⟩ := Session.runs_run (pass .helm owner spec.helm .background) vacant
  exact h.filed (.of_nil rfl)

/-- One component moves, and another one is deleted. -/
theorem second_pass_permitted :
    site.Plain ∧ (siteAfter.helm.map Entry.name).Nodup ∧ (charted site siteBefore vacant).2.memory.Filed
      ∧ (∃ summary, (charted site siteAfter (charted site siteBefore vacant).2).1 = .ok summary
        ∧ summary.moved.length = 1 ∧ summary.deleted.length = 1)
      ∧ ∃ es, (pass .helm site siteAfter.helm .background).Runs (charted site siteBefore vacant).2.memory es
          (charted site siteAfter (charted site siteBefore vacant).2).1
          (charted site siteAfter (charted site siteBefore vacant).2).2.memory
        ∧ ∀ before d rest, es = before ++ some d :: rest →
          Permitted .helm site siteAfter.helm ((charted site siteBefore vacant).2.memory.after before) d := by
  have hchecked : ((charted site siteAfter (charted site siteBefore vacant).2).1.toOption.any fun summary =>
      decide (summary.moved.length = 1 ∧ summary.deleted.length = 1)) = true := by
    decide +kernel
  obtain ⟨summary, hok, hcounts⟩ := ok_of_any hchecked
  obtain ⟨es, hafter⟩ :=
    Session.runs_run (pass .helm site siteAfter.helm .background) (charted site siteBefore vacant).2
  have hfiled := charted_filed site siteBefore
  have hnames : (siteAfter.helm.map Entry.name).Nodup := by decide
  exact ⟨site_plain, hnames, hfiled, ⟨summary, hok, of_decide_eq_true hcounts⟩, es, hafter,
    (every_deed_permitted site_plain hnames hfiled hafter).1⟩

end Site

end Addons.Reconcile
