import Addons.Proofs.Composite.Pass
import Addons.Proofs.Store.Journal
import Mathlib.Data.List.Perm.Basic
import Mathlib.Data.Option.Basic

/-!
# Reconciling converges

After a pass over all kinds that succeeds, an owner has one component for every declared entry and no other
(`Reconcile.InLine`), whatever the store held before. Two such passes for the same entries in any order,
each on a store of its own, leave components that agree in namespace, name and specification
(`all_converges`).
-/

namespace Addons

/-- No two entries of one kind have the same name. -/
structure SetSpec.Distinct (spec : SetSpec) : Prop where
  helm : (spec.helm.map Entry.name).Nodup
  manifests : (spec.manifests.map Entry.name).Nodup
  issuers : (spec.issuers.map Entry.name).Nodup

/-- The same entries in another order. -/
structure SetSpec.Reordered (spec spec' : SetSpec) : Prop where
  helm : spec.helm.Perm spec'.helm
  manifests : spec.manifests.Perm spec'.manifests
  issuers : spec.issuers.Perm spec'.issuers

theorem SetSpec.Distinct.reordered {spec spec' : SetSpec} (hd : spec.Distinct)
    (h : spec.Reordered spec') : spec'.Distinct :=
  ⟨(h.helm.map _).nodup_iff.1 hd.helm, (h.manifests.map _).nodup_iff.1 hd.manifests,
    (h.issuers.map _).nodup_iff.1 hd.issuers⟩

namespace Reconcile

section Kind

variable {π σ : Type}

/-- The owner has one component for every entry, and no other. -/
def OneEach (k : ComponentKind π σ) (owner : Owner) (entries : List (Entry π)) (m : Memory) : Prop :=
  ∃ l, l.Perm (components k owner m) ∧ List.Forall₂ (StandsFor k owner) entries l

/-- Two components have the same namespace, name and specification. -/
structure Alike (a b : Object) : Prop where
  ns : a.metadata.ns = b.metadata.ns
  name : a.metadata.name = b.metadata.name
  spec : ∃ spec spec', Table.find? a.data "spec" = some spec ∧ Table.find? b.data "spec" = some spec'
    ∧ spec.same spec'

/-- Two lists hold the same components, in any order. -/
def SameComponents (l l' : List Object) : Prop :=
  ∃ w w', w.Perm l ∧ w'.Perm l' ∧ List.Forall₂ Alike w w'

variable {k : ComponentKind π σ} {owner : Owner} {entries entries' : List (Entry π)} {m m' : Memory}

theorem StandsFor.alike {e : Entry π} {a b : Object} (ha : StandsFor k owner e a)
    (hb : StandsFor k owner e b) : Alike a b := by
  obtain ⟨spec, hspec, hsame⟩ := ha.spec
  obtain ⟨spec', hspec', hsame'⟩ := hb.spec
  exact ⟨ha.ns.trans hb.ns.symm, ha.name.trans hb.name.symm, spec, spec', hspec, hspec',
    Json.same_of_same hsame hsame'⟩

theorem exists_forall₂ {α β : Type} {R : α → β → Prop} {l : List α} (h : ∀ a ∈ l, ∃ b, R a b) :
    ∃ l', List.Forall₂ R l l' := by
  induction l with
  | nil => exact ⟨[], .nil⟩
  | cons a l ih =>
    obtain ⟨⟨b, hb⟩, hl⟩ := List.forall_mem_cons.1 h |>.imp_right ih
    obtain ⟨l', hl'⟩ := hl
    exact ⟨b :: l', .cons hb hl'⟩

theorem names_of_forall₂ {l : List Object} (h : List.Forall₂ (StandsFor k owner) entries l) :
    l.map (fun o => o.metadata.name) = (entries.map Entry.name).map some := by
  induction h with
  | nil => rfl
  | cons hstands _ ih => rw [List.map_cons, hstands.name, ih, List.map_cons, List.map_cons]

/-- When no candidate is left, the components of the owner are those of the entries, each in its place. -/
theorem Threaded.located (ho : owner.Plain) (hm : m.Filed) (hnames : (entries.map Entry.name).Nodup)
    (h : Threaded k owner entries [] m) : ∃ l, l.Perm (components k owner m)
      ∧ List.Forall₂ (fun e o => m.objects.find? (place k owner e) = some o ∧ StandsFor k owner e o)
        entries l := by
  obtain ⟨l, hl⟩ := exists_forall₂ h.stands
  have hstands : List.Forall₂ (StandsFor k owner) entries l := hl.imp fun _ _ h => h.2
  obtain ⟨hleft, hright⟩ := mem_of_forall₂ hl
  refine ⟨l, (List.perm_ext_iff_of_nodup ?_ (hm.nodup_listing _ _ _)).2 fun o => ?_, hl⟩
  · refine List.Nodup.of_map (fun o => o.metadata.name) ?_
    rw [names_of_forall₂ hstands]
    exact hnames.map (Option.some_injective _)
  · refine Iff.trans ⟨fun hmem => ?_, ?_⟩ (mem_components ho.legible hm).symm
    · obtain ⟨e, -, hf, hstand⟩ := hright o hmem
      exact ⟨_, hf, hstand.owned⟩
    · rintro ⟨s, hf, howned⟩
      obtain ⟨e, he, rfl⟩ | hnone := h.owned s o hf howned
      · obtain ⟨o', hmem, hf', -⟩ := hleft e he
        rw [Option.some.inj (hf.symm.trans hf')]
        exact hmem
      · cases hnone

theorem Threaded.oneEach (ho : owner.Plain) (hm : m.Filed) (hnames : (entries.map Entry.name).Nodup)
    (h : Threaded k owner entries [] m) : OneEach k owner entries m := by
  obtain ⟨l, hperm, hl⟩ := h.located ho hm hnames
  exact ⟨l, hperm, hl.imp fun _ _ h => h.2⟩

/-- Without entries there are no components. -/
theorem OneEach.nil (h : OneEach k owner [] m) : components k owner m = [] := by
  obtain ⟨l, hperm, hl⟩ := h
  obtain rfl := List.forall₂_nil_left_iff.1 hl
  exact hperm.symm.eq_nil

/-- The entries decide the components, up to their order. -/
theorem OneEach.sameComponents (h : OneEach k owner entries m) (h' : OneEach k owner entries' m')
    (hperm : entries.Perm entries') : SameComponents (components k owner m) (components k owner m') := by
  obtain ⟨l, hl, hstands⟩ := h
  obtain ⟨l', hl', hstands'⟩ := h'
  obtain ⟨w, hw, hwl⟩ := List.perm_comp_forall₂ hperm hstands'
  refine ⟨l, w, hl, hwl.trans hl', ?_⟩
  clear hl hl' hwl hperm hstands'
  induction hstands generalizing w with
  | nil =>
    obtain rfl := List.forall₂_nil_left_iff.1 hw
    exact .nil
  | cons hstand _ ih =>
    obtain ⟨b, v, hb, hv, rfl⟩ := List.forall₂_cons_left_iff.1 hw
    exact .cons (hstand.alike hb) (ih v hv)

end Kind

/-- The components of an owner are those that a specification declares. -/
structure InLine (owner : Owner) (spec : SetSpec) (m : Memory) : Prop where
  helm : OneEach .helm owner spec.helm m
  manifests : OneEach .manifests owner spec.manifests m
  issuers : OneEach .issuers owner spec.issuers m

/-- An owner has the same components in two stores. -/
structure Agree (owner : Owner) (m m' : Memory) : Prop where
  helm : SameComponents (components .helm owner m) (components .helm owner m')
  manifests : SameComponents (components .manifests owner m) (components .manifests owner m')
  issuers : SameComponents (components .issuers owner m) (components .issuers owner m')

variable {owner : Owner} {spec spec' : SetSpec} {m m' : Memory} {es : List Event} {summary : Summary}

theorem InLine.agree (h : InLine owner spec m) (h' : InLine owner spec' m')
    (hperm : spec.Reordered spec') : Agree owner m m' :=
  ⟨h.helm.sameComponents h'.helm hperm.helm, h.manifests.sameComponents h'.manifests hperm.manifests,
    h.issuers.sameComponents h'.issuers hperm.issuers⟩

/-- A run over all kinds that succeeds is one over each kind. -/
theorem runs_passes (h : (all owner spec).Runs m es (.ok summary) m') : ∃ m₁ m₂,
    (∃ es s, (pass .helm owner spec.helm .background).Runs m es (.ok s) m₁)
      ∧ (∃ es s, (pass .manifests owner spec.manifests .background).Runs m₁ es (.ok s) m₂)
      ∧ ∃ es s, (pass .issuers owner spec.issuers .background).Runs m₂ es (.ok s) m' := by
  unfold all at h
  obtain ⟨_, m₁, _, _, hhelm, h⟩ := Session.runs_bind_ok h
  obtain ⟨_, m₂, _, _, hmanifests, h⟩ := Session.runs_bind_ok h
  obtain ⟨_, m₃, _, _, hissuers, -, -, rfl⟩ := Session.runs_bind_ok h
  exact ⟨m₁, m₂, ⟨_, _, hhelm⟩, ⟨_, _, hmanifests⟩, _, _, hissuers⟩

/-- The passes over the kinds do not touch one another's components. -/
theorem runs_all (ho : owner.Plain) (hd : spec.Distinct) (hm : m.Filed)
    (h : (all owner spec).Runs m es (.ok summary) m') : InLine owner spec m' := by
  obtain ⟨m₁, m₂, ⟨_, _, hhelm⟩, ⟨_, _, hmanifests⟩, _, _, hissuers⟩ := runs_passes h
  have hm₁ := hhelm.filed hm
  have hm₂ := hmanifests.filed hm₁
  have hm' := hissuers.filed hm₂
  obtain ⟨hhelm, -⟩ := runs_pass ho (nodup_places hd.helm) hm hhelm
  obtain ⟨hmanifests, hsettles⟩ := runs_pass ho (nodup_places hd.manifests) hm₁ hmanifests
  obtain ⟨hissuers, hsettles'⟩ := runs_pass ho (nodup_places hd.issuers) hm₂ hissuers
  have hhelm' : Threaded .helm owner spec.helm [] m' := hhelm.congr fun s _ hs =>
    (hsettles'.untouched s (hs ▸ by decide) (hs ▸ by decide)).trans
      (hsettles.untouched s (hs ▸ by decide) (hs ▸ by decide))
  have hmanifests' : Threaded .manifests owner spec.manifests [] m' := hmanifests.congr fun s _ hs =>
    hsettles'.untouched s (hs ▸ by decide) (hs ▸ by decide)
  exact ⟨hhelm'.oneEach ho hm' hd.helm, hmanifests'.oneEach ho hm' hd.manifests,
    hissuers.oneEach ho hm' hd.issuers⟩

/-- Bringing the components of an owner in line, when it succeeds, leaves one component for every declared
entry and no other; what it leaves depends on the entries alone, neither on their order nor on what the store
held before, and where there are none it is nothing. -/
theorem all_converges (ho : owner.Plain) (hd : spec.Distinct) (hm : m.Filed)
    (h : (all owner spec).Runs m es (.ok summary) m') :
    InLine owner spec m'
      ∧ (∀ spec' m₁ es₁ summary₁ m₁', spec.Reordered spec' → m₁.Filed →
        (all owner spec').Runs m₁ es₁ (.ok summary₁) m₁' → Agree owner m' m₁')
      ∧ (spec.helm = [] → components .helm owner m' = [])
      ∧ (spec.manifests = [] → components .manifests owner m' = [])
      ∧ (spec.issuers = [] → components .issuers owner m' = []) := by
  have hin := runs_all ho hd hm h
  refine ⟨hin, fun spec' m₁ es₁ summary₁ m₁' hperm hm₁ h' => ?_, fun hnil => ?_, fun hnil => ?_,
    fun hnil => ?_⟩
  · exact hin.agree (runs_all ho (hd.reordered hperm) hm₁ h') hperm
  · exact OneEach.nil (hnil ▸ hin.helm)
  · exact OneEach.nil (hnil ▸ hin.manifests)
  · exact OneEach.nil (hnil ▸ hin.issuers)

/-! ## A component that moves -/

def site : Owner := ⟨"site", "infra"⟩

def chart (version : String) : HelmSpec :=
  { chart := "web", repository := "stable", version, values := .null
    targetNamespace := none, interval := HelmSpec.defaultInterval }

def siteBefore : SetSpec :=
  { helm := [{ name := "web", ns := "one", spec := chart "1" }, { name := "old", spec := chart "1" }] }

def siteAfter : SetSpec :=
  { helm := [{ name := "web", ns := "two", spec := chart "2" }]
    issuers := [{ name := "ca", clusterScoped := true, spec := ⟨.obj []⟩ }] }

def vacant : Host := { memory := { now := default } }

def declared (spec : SetSpec) (h : Host) : Except Error Summary × Host := (all site spec).run h

theorem site_plain : site.Plain := ⟨⟨by decide, by decide⟩, ⟨by decide, by decide⟩, by decide⟩

section Site

-- a pass over a given store is run by the kernel only
attribute [local irreducible] all

/-- One component moves, one is deleted, and one is new. -/
theorem second_pass_inLine :
    site.Plain ∧ siteAfter.Distinct ∧ (declared siteBefore vacant).2.memory.Filed
      ∧ ∃ summary, (declared siteAfter (declared siteBefore vacant).2).1 = .ok summary
        ∧ (summary.moved.length = 1 ∧ summary.deleted.length = 1 ∧ summary.created.length = 1)
        ∧ InLine site siteAfter (declared siteAfter (declared siteBefore vacant).2).2.memory := by
  have hchecked : ((declared siteAfter (declared siteBefore vacant).2).1.toOption.any fun summary =>
      decide (summary.moved.length = 1 ∧ summary.deleted.length = 1 ∧ summary.created.length = 1)) = true := by
    decide +kernel
  obtain ⟨summary, hok, hcounts⟩ := ok_of_any hchecked
  obtain ⟨es, hbefore⟩ := Session.runs_run (all site siteBefore) vacant
  obtain ⟨es', hafter⟩ := Session.runs_run (all site siteAfter) (declared siteBefore vacant).2
  have hfiled : (declared siteBefore vacant).2.memory.Filed := hbefore.filed (.of_nil rfl)
  have hdistinct : siteAfter.Distinct := ⟨by decide, by decide, by decide⟩
  rw [show ((all site siteAfter).run _).1 = _ from hok] at hafter
  exact ⟨site_plain, hdistinct, hfiled, summary, hok, of_decide_eq_true hcounts,
    (all_converges site_plain hdistinct hfiled hafter).1⟩

end Site

end Reconcile

end Addons
