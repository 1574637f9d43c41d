import Addons.Proofs.Component.Redeclared
import Mathlib.Data.List.Induction

/-!
# A release and its source

The release of a chart component names its repository as the source of the chart. A deployment writes the
repository first and a removal deletes it last, and each goes on only after the request before has
succeeded. So at no point of any calls for the component, wherever they are cut short, is the release there
without the repository (`Release.release_never_alone`).
-/

namespace Addons.Release

open Session (runs_lift_bind runs_bind_ok heeds_lift_bind heeds_createOrUpdate heeds_removeIfExists heeds_done)

variable {addon : HelmAddon} {target name : String} {ns : Option String} {m m₁ m' : Memory} {es : List Event}
  {view : Slot → Option Object}

/-- Where one of the objects of a component is kept. -/
def place (t : TypeRef) (ns : Option String) (name : String) : Slot := (Key.mk t ns name).slot

/-- The release is not there without the repository. -/
def Sourced (ns : Option String) (name : String) (view : Slot → Option Object) : Prop :=
  view (place type ns name) ≠ none → view (place repositoryType ns name) ≠ none

/-- The release is put where the repository is, and the repository is not deleted where the release is. -/
structure Orderly (ns : Option String) (name : String) (view : Slot → Option Object) (d : Deed) : Prop where
  written : d.slot = place type ns name → d.left ≠ none → view (place repositoryType ns name) ≠ none
  deleted : d.slot = place repositoryType ns name → d.left = none → view (place type ns name) = none

/-- What an orderly deed keeps. -/
theorem Orderly.sourced {d : Deed} (h : Orderly ns name (m.after es) d) (hs : Sourced ns name (m.after es)) :
    Sourced ns name (m.after (es ++ [some d])) := by
  have hne : place repositoryType ns name ≠ place type ns name := slot_ne ns name name
  have hself : m.after (es ++ [some d]) d.slot = d.left := by
    unfold Memory.after
    rw [Event.lastLeft?_concat_self]
    rfl
  intro hrelease
  by_cases hrel : d.slot = place type ns name
  · rw [← hrel, hself] at hrelease
    rw [Memory.after_concat_ne (hrel ▸ hne.symm)]
    exact h.written hrel hrelease
  · rw [Memory.after_concat_ne hrel] at hrelease
    by_cases hrepo : d.slot = place repositoryType ns name
    · rw [← hrepo, hself]
      exact fun hgone => hrelease (h.deleted hrepo hgone)
    · rw [Memory.after_concat_ne hrepo]
      exact hs hrelease

/-- What holds at first holds at every point of events of which each is orderly. -/
theorem sourced_of_orderly (hs : Sourced ns name m.objects.find?)
    (h : ∀ before d rest, es = before ++ some d :: rest → Orderly ns name (m.after before) d)
    {before : List Event} (hbefore : before <+: es) : Sourced ns name (m.after before) := by
  induction before using List.reverseRecOn with
  | nil => exact hs
  | append_singleton before e ih =>
    obtain ⟨rest, rfl⟩ := hbefore
    rw [List.append_assoc] at h ih
    have hs := ih (List.prefix_append before _)
    cases e with
    | none =>
      rw [Memory.after_concat_none]
      exact hs
    | some d => exact (h before d rest rfl).sourced hs

/-! ## One call -/

/-- A deployment writes the release after the repository. -/
theorem heeds_apply (hns : addon.metadata.ns = ns) (hname : addon.name = name) :
    (apply addon target).Heeds (Orderly ns name) m := by
  subst hns hname
  refine heeds_lift_bind fun repo hrepo => heeds_lift_bind fun rel hrel => ?_
  obtain ⟨_, _, _, hns, -, rfl⟩ := produce_eq_ok hrepo
  obtain ⟨_, _, _, hns', -, rfl⟩ := produce_eq_ok hrel
  obtain rfl := Option.some.inj (hns.symm.trans hns')
  rw [hns]
  have hne := slot_ne (addon.metadata.ns) addon.name addon.name
  rw [hns] at hne
  refine (heeds_createOrUpdate Object.key_produced fun stored => ?_).bind fun _ _ m₁ hrun => ?_
  · exact ⟨fun hslot => absurd hslot hne, fun _ hleft => nomatch hleft⟩
  · refine (heeds_createOrUpdate Object.key_produced fun stored => ?_).bind fun _ _ _ _ => heeds_done _
    obtain ⟨repo, hstored, -⟩ := (Session.runs_createOrUpdate_ok Object.key_produced hrun).stored
    refine ⟨fun _ _ => ?_, fun _ hleft => nomatch hleft⟩
    exact Option.ne_none_iff_exists'.2 ⟨repo, hstored⟩

/-- A removal deletes the repository after the release. -/
theorem heeds_remove (hns : addon.metadata.ns = ns) (hname : addon.name = name) :
    (remove addon).Heeds (Orderly ns name) m := by
  subst hns hname
  refine heeds_lift_bind fun kl hkl => heeds_lift_bind fun kr hkr => ?_
  cases hns : addon.metadata.ns with
  | none =>
    unfold key identity at hkl
    rw [hns] at hkl
    cases hkl
  | some ns =>
    obtain rfl := Except.ok.inj ((key_eq_ok hns type).symm.trans hkl)
    obtain rfl := Except.ok.inj ((key_eq_ok hns repositoryType).symm.trans hkr)
    have hne := slot_ne (some ns) addon.name addon.name
    refine (heeds_removeIfExists ?_).bind fun _ _ m₁ hrun => ?_
    · exact ⟨fun _ hleft => absurd rfl hleft, fun hslot => absurd hslot hne.symm⟩
    · refine (heeds_removeIfExists ?_).bind fun _ _ _ _ => heeds_done _
      exact ⟨fun _ hleft => absurd rfl hleft, fun _ _ => (Session.runs_removeIfExists_gone hrun).1⟩

/-- A removal that succeeds leaves neither object. -/
theorem runs_remove_gone (h : (remove addon).Runs m es (.ok ()) m') (t : TypeRef)
    (ht : t ∈ [type, repositoryType]) :
    m'.objects.find? (place t addon.metadata.ns addon.name) = none := by
  obtain ⟨kl, hkl, h⟩ | ⟨e, -, -, he, -⟩ := runs_lift_bind.1 h
  swap
  · cases he
  obtain ⟨kr, hkr, h⟩ | ⟨e, -, -, he, -⟩ := runs_lift_bind.1 h
  swap
  · cases he
  obtain ⟨_, m₁, _, _, hrelease, h⟩ := runs_bind_ok h
  obtain ⟨_, _, _, _, hrepository, -, -, rfl⟩ := runs_bind_ok h
  cases hns : addon.metadata.ns with
  | none =>
    unfold key identity at hkl
    rw [hns] at hkl
    cases hkl
  | some ns =>
    obtain rfl := Except.ok.inj ((key_eq_ok hns type).symm.trans hkl)
    obtain rfl := Except.ok.inj ((key_eq_ok hns repositoryType).symm.trans hkr)
    obtain ⟨hgone, hothers⟩ := Session.runs_removeIfExists_gone hrepository
    simp only [List.mem_cons, List.not_mem_nil, or_false] at ht
    rcases ht with rfl | rfl
    · exact (hothers _ (slot_ne _ _ _).symm).trans (Session.runs_removeIfExists_gone hrelease).1
    · exact hgone

/-! ## Any calls -/

/-- A call for a component, under any specification and whatever comes of it. -/
inductive Call (ns : Option String) (name : String) (m : Memory) (es : List Event) (m' : Memory) : Prop
  | apply {addon : HelmAddon} {target : String} {a : Except Error Unit} : addon.metadata.ns = ns →
      addon.name = name → (apply addon target).Runs m es a m' → Call ns name m es m'
  | remove {addon : HelmAddon} {a : Except Error Unit} : addon.metadata.ns = ns → addon.name = name →
      (remove addon).Runs m es a m' → Call ns name m es m'

/-- Calls for a component one after another, with no other writer in between. -/
inductive Calls (ns : Option String) (name : String) : Memory → List Event → Memory → Prop
  | nil (m : Memory) : Calls ns name m [] m
  | cons {m m₁ m' : Memory} {es fs : List Event} :
      Call ns name m es m₁ → Calls ns name m₁ fs m' → Calls ns name m (es ++ fs) m'

theorem Call.after (h : Call ns name m es m') : m.after es = m'.objects.find? := by
  cases h with
  | apply _ _ h | remove _ _ h => exact h.after

theorem Call.sourced (h : Call ns name m es m') (hs : Sourced ns name m.objects.find?) {before : List Event}
    (hbefore : before <+: es) : Sourced ns name (m.after before) := by
  refine sourced_of_orderly hs ?_ hbefore
  cases h with
  | apply hns hname h => exact heeds_apply hns hname _ _ _ h
  | remove hns hname h => exact heeds_remove hns hname _ _ _ h

theorem Calls.sourced (h : Calls ns name m es m') (hs : Sourced ns name m.objects.find?) {before : List Event}
    (hbefore : before <+: es) : Sourced ns name (m.after before) := by
  induction h generalizing before with
  | nil m =>
    obtain rfl := List.prefix_nil.1 hbefore
    exact hs
  | @cons m m₁ m' es fs hcall _ ih =>
    obtain ⟨rest, hsplit⟩ := hbefore
    rcases List.append_eq_append_iff.1 hsplit with ⟨rest', rfl, -⟩ | ⟨before', rfl, hfs⟩
    · exact hcall.sourced hs (List.prefix_append before rest')
    · rw [Memory.after_append hcall.after]
      refine ih ?_ ⟨rest, hfs.symm⟩
      rw [← hcall.after]
      exact hcall.sourced hs (List.prefix_refl es)

/-- Whatever calls are made for a component, under any specifications and cut short anywhere, its release is
at no point there without its repository; and after a removal that succeeds neither is there. -/
theorem release_never_alone (hnone : m.objects.find? (place type ns name) = none) (h : Calls ns name m es m') :
    (∀ before, before <+: es → Sourced ns name (m.after before))
      ∧ ∀ addon fs m'', addon.metadata.ns = ns → addon.name = name → (remove addon).Runs m' fs (.ok ()) m'' →
        ∀ t ∈ [type, repositoryType], m''.objects.find? (place t ns name) = none := by
  refine ⟨fun before hbefore => h.sourced (fun hsome => absurd hnone hsome) hbefore, ?_⟩
  rintro addon fs m'' rfl rfl hremove t ht
  exact runs_remove_gone hremove t ht

namespace Sourced

open Redeclared (debugged quiet deployed)

def withdrawn (addon : HelmAddon) (h : Host) : Except Error Unit × Host := (remove addon).run h

/-- A store that fails to create a release once, and to delete a repository once. -/
def unsteady : Host :=
  { memory := { now := default, failures := [(.create, type.kind), (.delete, repositoryType.kind)] } }

/-- The store when the first deployment was cut short, and the second was not. -/
def deployedTwice : Host := (deployed quiet (deployed debugged unsteady).2).2

/-- The store when the removal was cut short too. -/
def halfRemoved : Host := (withdrawn quiet deployedTwice).2

theorem calls_checked :
    (deployed debugged unsteady).1.isOk = false
      ∧ (deployedTwice.memory.objects.find? (place type (some "addons") "cert")).isSome = true
      ∧ (halfRemoved.memory.objects.find? (place repositoryType (some "addons") "cert")).isSome = true
      ∧ ((withdrawn quiet halfRemoved).1.toOption.any fun _ => true) = true := by
  decide +kernel

/-- The release is there after the second deployment, so is the repository, and in the end neither is. -/
theorem cut_short_calls_sourced :
    ∃ es, Calls (some "addons") "cert" unsteady.memory es halfRemoved.memory
      ∧ (∃ before, before <+: es ∧ unsteady.memory.after before (place type (some "addons") "cert") ≠ none)
      ∧ (∀ before, before <+: es → Sourced (some "addons") "cert" (unsteady.memory.after before))
      ∧ (withdrawn quiet halfRemoved).1 = .ok ()
      ∧ ∀ t ∈ [type, repositoryType],
        (withdrawn quiet halfRemoved).2.memory.objects.find? (place t (some "addons") "cert") = none := by
  obtain ⟨es₁, h₁⟩ := Session.runs_run (apply debugged "cert") unsteady
  obtain ⟨es₂, h₂⟩ := Session.runs_run (apply quiet "cert") (deployed debugged unsteady).2
  obtain ⟨es₃, h₃⟩ := Session.runs_run (remove quiet) deployedTwice
  obtain ⟨es₄, h₄⟩ := Session.runs_run (remove quiet) halfRemoved
  obtain ⟨-, hdeployed, -, hremoved⟩ := calls_checked
  obtain ⟨_, hok, -⟩ := ok_of_any hremoved
  rw [show ((remove quiet).run halfRemoved).1 = .ok () from hok] at h₄
  have hcalls :
      Calls (some "addons") "cert" unsteady.memory (es₁ ++ (es₂ ++ (es₃ ++ []))) halfRemoved.memory :=
    .cons (.apply rfl rfl h₁) (.cons (.apply rfl rfl h₂) (.cons (.remove rfl rfl h₃) (.nil _)))
  obtain ⟨hsourced, hgone⟩ := release_never_alone rfl hcalls
  refine ⟨_, hcalls, ⟨es₁ ++ es₂, ⟨es₃ ++ [], by simp⟩, ?_⟩, hsourced, hok, hgone quiet es₄ _ rfl rfl h₄⟩
  rw [Memory.after_append h₁.after]
  refine (congrFun h₂.after _).trans_ne ?_
  exact Option.isSome_iff_ne_none.1 hdeployed

end Sourced

end Addons.Release
