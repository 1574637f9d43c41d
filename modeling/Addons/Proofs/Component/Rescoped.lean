import Addons.Proofs.Component.Redeclared

/-!
# Issuers that change their scope

An issuer component is declared of its namespace or of the cluster, and each declaration has a place of its
own in the store. Only the last declaration is known when the component is removed, so the removal empties the
place of that one: the issuer of the other scope remains exactly if an earlier deployment put one there
(`Issuer.removal_leaves_other_scope`).
-/

namespace Addons.Issuer

open Session (runs_lift_bind runs_createOrUpdate_ok runs_removeIfExists)

variable {addon last : IssuerAddon} {addons : List IssuerAddon} {m m₁ m₂ : Memory} {es : List Event}
  {ns : Option String} {name : String}

/-- Where the issuer of a component is kept, by its scope. -/
def place (clusterScoped : Bool) (ns : Option String) (name : String) : Slot :=
  (Key.mk ⟨"cert-manager.io/v1", if clusterScoped then "ClusterIssuer" else "Issuer"⟩
    (if clusterScoped then none else ns) name).slot

def placeOf (addon : IssuerAddon) : Slot := place addon.spec.clusterScoped addon.metadata.ns addon.name

/-- The two scopes of a component have different places. -/
theorem place_inj {c c' : Bool} : place c ns name = place c' ns name ↔ c = c' := by
  constructor
  · intro h
    have hkind : (if c then "ClusterIssuer" else "Issuer") = if c' then "ClusterIssuer" else "Issuer" :=
      congrArg Slot.kind h
    revert hkind
    cases c <;> cases c' <;> decide
  · rintro rfl
    rfl

theorem slot_of_key {k : Key} (h : key addon = .ok k) : k.slot = placeOf addon := by
  unfold placeOf place
  unfold key scopeNs type at h
  cases hcluster : addon.spec.clusterScoped with
  | true =>
    rw [hcluster] at h
    cases h
    rfl
  | false =>
    rw [hcluster] at h
    cases hns : addon.metadata.ns with
    | none =>
      rw [hns] at h
      cases h
    | some ns =>
      rw [hns] at h
      cases h
      rfl

/-- An issuer is written under its own key. -/
theorem key_of_object {o : Object} (h : object addon = .ok o) : ∃ k, o.key = .ok k ∧ key addon = .ok k := by
  obtain ⟨ns, hns, rfl⟩ := object_eq_ok h
  refine ⟨_, Object.key_produced, ?_⟩
  unfold key
  rw [hns]
  rfl

/-! ## One deployment, and many -/

/-- A deployment that succeeds fills the place of its declaration, and no other. -/
theorem runs_apply_fills {a : ApplyOutcome} (h : (apply addon).Runs m es (.ok a) m₁) :
    m₁.objects.find? (placeOf addon) ≠ none
      ∧ ∀ s ≠ placeOf addon, m₁.objects.find? s = m.objects.find? s := by
  obtain ⟨o, ho, h⟩ | ⟨e, -, -, he, -⟩ := runs_lift_bind.1 h
  · obtain ⟨k, hk, hkey⟩ := key_of_object ho
    have hput := runs_createOrUpdate_ok hk h
    obtain ⟨stored, hstored, -⟩ := hput.stored
    have hfind : m₁.objects.find? k.slot = some stored := hstored
    rw [slot_of_key hkey] at hfind
    refine ⟨?_, fun s hs => hput.others s ?_⟩
    · rw [hfind]
      exact Option.some_ne_none stored
    · rwa [slot_of_key hkey]
  · cases he

/-- Deployments one after another, all of which succeed, with no other writer in between. -/
inductive Deployed : Memory → List IssuerAddon → Memory → Prop
  | nil (m : Memory) : Deployed m [] m
  | cons {m m₁ m' : Memory} {addon : IssuerAddon} {rest : List IssuerAddon} {es : List Event}
      {a : ApplyOutcome} :
      (apply addon).Runs m es (.ok a) m₁ → Deployed m₁ rest m' → Deployed m (addon :: rest) m'

/-- A place that none of the declarations has stays as it is. -/
theorem Deployed.find?_eq (h : Deployed m addons m₁) {s : Slot} (hs : ∀ addon ∈ addons, placeOf addon ≠ s) :
    m₁.objects.find? s = m.objects.find? s := by
  induction h with
  | nil m => rfl
  | cons happly _ ih =>
    obtain ⟨hfirst, hrest⟩ := List.forall_mem_cons.1 hs
    rw [ih hrest]
    exact (runs_apply_fills happly).2 s hfirst.symm

/-- Nothing is withdrawn by a later deployment: what is there was there before, or was put there. -/
theorem Deployed.find?_ne_none (h : Deployed m addons m₁) (s : Slot) :
    m₁.objects.find? s ≠ none ↔ m.objects.find? s ≠ none ∨ ∃ addon ∈ addons, placeOf addon = s := by
  induction h with
  | nil m => simp
  | @cons m m₁ m' addon rest es a happly _ ih =>
    obtain ⟨hfills, hothers⟩ := runs_apply_fills happly
    rw [ih]
    by_cases hs : placeOf addon = s
    · subst hs
      exact ⟨fun _ => .inr ⟨addon, List.mem_cons_self, rfl⟩, fun _ => .inl hfills⟩
    · rw [hothers s (Ne.symm hs)]
      simp [hs]

/-! ## The removal -/

/-- A removal that succeeds empties the place of the declaration that it is given, and no other. -/
theorem runs_remove_empties {existed : Bool} (h : (remove addon).Runs m es (.ok existed) m₁) :
    (m.objects.find? (placeOf addon) ≠ none → existed = true) ∧ m₁.objects.find? (placeOf addon) = none
      ∧ ∀ s ≠ placeOf addon, m₁.objects.find? s = m.objects.find? s := by
  obtain ⟨k, hk, h⟩ | ⟨e, -, -, he, -⟩ := runs_lift_bind.1 h
  · rw [← slot_of_key hk]
    obtain ⟨-, hm, ⟨ha, hnone⟩ | ⟨e, he⟩⟩ | ⟨-, hm, ha | ⟨e, he⟩⟩ := runs_removeIfExists h
    · rw [hm]
      exact ⟨fun hsome => absurd hnone hsome, hnone, fun _ _ => rfl⟩
    · cases he
    · rw [hm]
      refine ⟨fun _ => Except.ok.inj ha, Table.find?_erase_self _ _, fun s hs => ?_⟩
      exact Table.find?_erase_ne hs _
    · cases he
  · cases he

/-- A component that is deployed under any declarations, one after another, and is removed under the last
one. Its issuer of the last scope is gone. One of the other scope remains exactly if it was there before or
an earlier declaration was of that scope. Nothing else in the store has changed. -/
theorem removal_leaves_other_scope {existed : Bool}
    (hcomponent : ∀ addon ∈ addons ++ [last], addon.name = name ∧ addon.metadata.ns = ns)
    (hdeployed : Deployed m (addons ++ [last]) m₁) (hremoved : (remove last).Runs m₁ es (.ok existed) m₂) :
    existed = true
      ∧ (∀ clusterScoped, m₂.objects.find? (place clusterScoped ns name) ≠ none
          ↔ clusterScoped ≠ last.spec.clusterScoped
            ∧ (m.objects.find? (place clusterScoped ns name) ≠ none
              ∨ ∃ addon ∈ addons, addon.spec.clusterScoped = clusterScoped))
      ∧ ∀ s, (∀ clusterScoped, s ≠ place clusterScoped ns name) →
          m₂.objects.find? s = m.objects.find? s := by
  have hplace : ∀ addon ∈ addons ++ [last], placeOf addon = place addon.spec.clusterScoped ns name := by
    intro addon hmem
    obtain ⟨rfl, rfl⟩ := hcomponent addon hmem
    rfl
  have hmemLast : last ∈ addons ++ [last] := List.mem_append_right addons List.mem_cons_self
  have hlast := hplace last hmemLast
  obtain ⟨hexisted, hempty, hothers⟩ := runs_remove_empties hremoved
  rw [hlast] at hexisted hempty hothers
  refine ⟨hexisted ?_, fun clusterScoped => ?_, fun s hs => ?_⟩
  · exact (hdeployed.find?_ne_none _).2 (.inr ⟨last, hmemLast, hlast⟩)
  · by_cases hscope : clusterScoped = last.spec.clusterScoped
    · rw [hscope, hempty]
      exact ⟨fun h => absurd rfl h, fun h => absurd rfl h.1⟩
    · have hne : place clusterScoped ns name ≠ place last.spec.clusterScoped ns name :=
        fun h => hscope (place_inj.1 h)
      rw [hothers _ hne, hdeployed.find?_ne_none]
      refine Iff.trans ?_ (and_iff_right hscope).symm
      refine or_congr_right ⟨?_, ?_⟩
      · rintro ⟨addon, hmem, hat⟩
        rw [hplace addon hmem, place_inj] at hat
        rcases List.mem_append.1 hmem with hmem | hmem
        · exact ⟨addon, hmem, hat⟩
        · rw [List.mem_singleton.1 hmem] at hat
          exact absurd hat.symm hscope
      · rintro ⟨addon, hmem, rfl⟩
        exact ⟨addon, List.mem_append_left _ hmem, hplace addon (List.mem_append_left _ hmem)⟩
  · rw [hothers s (hs _)]
    refine hdeployed.find?_eq fun addon hmem hat => hs addon.spec.clusterScoped ?_
    rw [← hat, hplace addon hmem]

namespace Rescoped

open Redeclared (blank issued selfSigned runs_issued)

/-- The same issuer, declared of the cluster. -/
def widened : IssuerAddon := { selfSigned with spec := ⟨true, selfSigned.spec.issuer⟩ }

/-- The store after a deployment of a namespace and then one of the cluster. -/
def spread : Host := (issued widened (issued selfSigned blank).2).2

theorem deployments_succeed :
    ((issued selfSigned blank).1.toOption.any fun _ => true) = true
      ∧ ((issued widened (issued selfSigned blank).2).1.toOption.any fun _ => true) = true
      ∧ (((remove widened).run spread).1.toOption.any fun existed => existed) = true := by
  decide +kernel

theorem deployed_spread : Deployed blank.memory [selfSigned, widened] spread.memory := by
  obtain ⟨es₁, a₁, h₁⟩ := runs_issued deployments_succeed.1
  obtain ⟨es₂, a₂, h₂⟩ := runs_issued deployments_succeed.2.1
  exact .cons h₁ (.cons h₂ (.nil _))

theorem runs_remove_widened :
    ∃ es, (remove widened).Runs spread.memory es (.ok true) ((remove widened).run spread).2.memory := by
  obtain ⟨existed, hok, hexisted⟩ := ok_of_any deployments_succeed.2.2
  obtain ⟨es, hrun⟩ := Session.runs_run (remove widened) spread
  rw [hok, hexisted] at hrun
  exact ⟨es, hrun⟩

theorem widened_leaves_issuer_of_namespace :
    ∃ m : Memory, m.objects.find? (place false (some "addons") "ca") ≠ none
      ∧ m.objects.find? (place true (some "addons") "ca") = none := by
  obtain ⟨es, hremoved⟩ := runs_remove_widened
  have hcomponent : ∀ addon ∈ [selfSigned] ++ [widened],
      addon.name = "ca" ∧ addon.metadata.ns = some "addons" := by
    intro addon hmem
    simp only [List.singleton_append, List.mem_cons, List.not_mem_nil, or_false] at hmem
    rcases hmem with rfl | rfl <;> exact ⟨rfl, rfl⟩
  obtain ⟨-, hleft, -⟩ := removal_leaves_other_scope hcomponent deployed_spread hremoved
  refine ⟨_, (hleft false).2 ⟨by decide, .inr ⟨selfSigned, List.mem_cons_self, rfl⟩⟩, ?_⟩
  by_contra hcluster
  exact ((hleft true).1 hcluster).1 rfl

/-- An issuer of a namespace that a deployment created is still there after the component was declared of the
cluster, deployed and removed. -/
theorem created_issuer_remains :
    blank.memory.objects.find? (placeOf selfSigned) = none
      ∧ ∃ m₁ es m₂, Deployed blank.memory [selfSigned, widened] m₁
        ∧ (remove widened).Runs m₁ es (.ok true) m₂ ∧ m₂.objects.find? (placeOf selfSigned) ≠ none := by
  obtain ⟨es, hremoved⟩ := runs_remove_widened
  refine ⟨rfl, _, es, _, deployed_spread, hremoved, ?_⟩
  have hne : placeOf selfSigned ≠ placeOf widened := by decide
  rw [(runs_remove_empties hremoved).2.2 _ hne, deployed_spread.find?_ne_none]
  exact .inr ⟨selfSigned, List.mem_cons_self, rfl⟩

end Rescoped

end Addons.Issuer
