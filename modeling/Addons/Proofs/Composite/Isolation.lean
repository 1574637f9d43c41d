import Addons.Proofs.Composite.Frame

/-!
# Two owners side by side

A pass for one owner leaves the components of another owner alone, whatever comes of it
(`other_owner_spared`), except for one that is at the place of an entry. That one is taken over: the owner
looks for what is at the place whatever labels it carries (`component_taken_over`).
-/

namespace Addons.Reconcile

variable {π σ π' σ' : Type} {k : ComponentKind π σ} {k' : ComponentKind π' σ'} {owner first second : Owner}
  {propagation : Propagation} {m m₀ m' : Memory} {es : List Event} {entries : List (Entry π)} {e : Entry π}
  {left left' : List Object} {s : Slot} {o : Object}

/-- Of two owners only one has a component. -/
theorem Owned.unique (h : Owned k first s o) (h' : Owned k' second s o) : first = second :=
  Owner.eq_of_labelled h.2.2 h'.2.2

/-! ## What a pass may do whatever its entries are -/

variable (k owner entries m₀) in
/-- What a pass for any entries may do, given the store that it found: it is about a namespace, or it is at the
place of an entry, or it deletes a component of the owner. -/
inductive Reaches : Deed → Prop
  | namespaced {ns : String} {left : Option Object} : Reaches ⟨(Session.namespaceKey ns).slot, left⟩
  | written {e : Entry π} {stored : Object} : e ∈ entries → StandsFor k owner e stored →
      Reaches ⟨place k owner e, some stored⟩
  | cleared {e : Entry π} : e ∈ entries → owner.targetNs e = "" → Reaches ⟨place k owner e, none⟩
  | deleted {s : Slot} {o : Object} : m₀.objects.find? s = some o → Owned k owner s o → Reaches ⟨s, none⟩

/-- The candidates that an entry leaves are among those that it found. -/
theorem left_subset {outcome : EntryOutcome}
    (h : (applyEntry k owner propagation left e).Runs m es (.ok (outcome, left')) m') : left' ⊆ left := by
  rw [applyEntry_eq] at h
  obtain ⟨_, m₁, _, _, -, h⟩ := Session.runs_bind_ok h
  obtain ⟨_, m₂, _, _, -, h⟩ := Session.runs_bind_ok h
  obtain ⟨_, m₃, _, _, -, -, heq, -⟩ := Session.runs_bind_ok h
  obtain ⟨-, rfl⟩ := Prod.mk.inj (Except.ok.inj heq)
  obtain ⟨htake, -⟩ | ⟨o, rest, htake, hperm, -⟩ := takeMatch_cases e.name (owner.targetNs e) left
  · rw [htake]
    exact List.Subset.refl left
  · rw [htake]
    exact fun o ho => hperm.mem_iff.2 (List.mem_cons_of_mem _ ho)

theorem reaches_of_component (ho : owner.Legible) (hm : m₀.Filed) {key : Key}
    (hmem : o ∈ components k owner m₀) (hkey : o.key = .ok key) :
    Reaches k owner m₀ entries ⟨key.slot, none⟩ := by
  obtain ⟨s, hf, howned⟩ := (mem_components ho hm).1 hmem
  obtain ⟨key', hkey', rfl⟩ := hm.key_of_find? hf
  obtain rfl := Except.ok.inj (hkey.symm.trans hkey')
  exact .deleted hf howned

theorem reaches_applyEntries {todo : List (Entry π)} (ho : owner.Legible) (hm₀ : m₀.Filed) (hm : m.Filed)
    (hleft : left ⊆ components k owner m₀) (htodo : todo ⊆ entries) :
    (applyEntries k owner propagation left todo).Heeds (fun _ => Reaches k owner m₀ entries) m := by
  induction todo generalizing left m with
  | nil => exact Session.heeds_done _
  | cons e todo ih =>
    obtain ⟨he, htodo⟩ := List.cons_subset.1 htodo
    refine Session.Heeds.bind ?_ fun _ r m₁ hentry => ?_
    · refine heeds_applyEntry hm (fun _ _ _ => .namespaced) (fun _ _ => .written he) ?_ fun hns _ =>
        .cleared he hns
      intro _ _ o hmem key hkey _ _
      exact reaches_of_component ho hm₀ (hleft hmem) hkey
    · obtain ⟨outcome, left₁⟩ := r
      have hleft₁ : left₁ ⊆ components k owner m₀ := List.Subset.trans (left_subset hentry) hleft
      exact (ih (hentry.filed hm) hleft₁ htodo).bind fun _ _ _ _ => Session.heeds_done _

theorem reaches_sweep (ho : owner.Legible) (hm₀ : m₀.Filed) (hleft : left ⊆ components k owner m₀) :
    (sweep propagation left).Heeds (fun _ => Reaches k owner m₀ entries) m := by
  induction left generalizing m with
  | nil => exact Session.heeds_done _
  | cons o left ih =>
    obtain ⟨hmem, hleft⟩ := List.cons_subset.1 hleft
    refine Session.heeds_lift_bind fun key hkey => ?_
    refine (Session.heeds_removeIfExists (reaches_of_component ho hm₀ hmem hkey)).bind fun _ _ _ _ => ?_
    exact (ih hleft).bind fun _ _ _ _ => Session.heeds_done _

/-- The candidates that a pass sweeps away are among those that it listed. -/
theorem left_subset_of_entries {todo : List (Entry π)} {summary : Summary}
    (h : (applyEntries k owner propagation left todo).Runs m es (.ok (summary, left')) m') : left' ⊆ left := by
  induction todo generalizing left m es summary with
  | nil =>
    obtain ⟨-, heq, -⟩ := h
    obtain ⟨-, rfl⟩ := Prod.mk.inj (Except.ok.inj heq)
    exact List.Subset.refl left'
  | cons e todo ih =>
    rw [applyEntries] at h
    obtain ⟨⟨outcome, left₁⟩, m₁, _, _, hentry, h⟩ := Session.runs_bind_ok h
    obtain ⟨⟨summary', left₂⟩, m₂, _, _, hrest, -, heq, rfl⟩ := Session.runs_bind_ok h
    obtain ⟨-, rfl⟩ := Prod.mk.inj (Except.ok.inj heq)
    exact List.Subset.trans (ih hrest) (left_subset hentry)

theorem reaches_pass (ho : owner.Legible) (hm : m.Filed) :
    (pass k owner entries propagation).Heeds (fun _ => Reaches k owner m entries) m := by
  unfold pass
  refine (Session.heeds_listAll _ _ _).bind fun _ installed m₁ hlist => ?_
  obtain ⟨-, -, hinstalled⟩ := Session.runs_listAll hlist
  obtain rfl := hinstalled _ rfl
  have hleft : m.listing k.resource.type none (some owner.selector) ⊆ components k owner m := fun _ h => h
  refine (reaches_applyEntries ho hm (hlist.filed hm) hleft (List.Subset.refl _)).bind fun _ r m₂ happly => ?_
  obtain ⟨applied, left⟩ := r
  have hleft₂ : left ⊆ components k owner m := left_subset_of_entries happly
  exact (reaches_sweep ho hm hleft₂).bind fun _ _ _ _ => Session.heeds_done _

/-! ## Isolation -/

/-- A pass for one owner, whatever comes of it, leaves a component of another owner as it was, unless it is at
the place of an entry. There it is taken over: what it leaves stands for an entry of that place. -/
theorem other_owner_spared {a : Except Error Summary} (hfirst : first.Legible) (hne : first ≠ second)
    (hm : m.Filed) (h : (pass k first entries propagation).Runs m es a m')
    (hf : m.objects.find? s = some o) (ho : Owned k' second s o) :
    m'.objects.find? s = some o
      ∨ ∃ e ∈ entries, place k first e = s ∧ (first.targetNs e ≠ "" →
        ∃ stored, m'.objects.find? s = some stored ∧ StandsFor k first e stored) := by
  have hreaches := (reaches_pass hfirst hm).all h
  have hlast := h.find? s
  cases hleft : Event.lastLeft? es s with
  | none =>
    left
    rw [hlast, hleft]
    exact hf
  | some left =>
    rw [hleft] at hlast
    generalize hd : (⟨s, left⟩ : Deed) = d
    have hdeed := hreaches d (hd ▸ Event.mem_of_lastLeft? hleft)
    cases hdeed with
    | namespaced => exact absurd (Deed.mk.inj hd).1 (ne_namespace ho.1)
    | @written e stored he hstands =>
      obtain ⟨rfl, rfl⟩ := Deed.mk.inj hd
      exact .inr ⟨e, he, rfl, fun _ => ⟨stored, hlast, hstands⟩⟩
    | @cleared e he hns =>
      obtain ⟨rfl, -⟩ := Deed.mk.inj hd
      exact .inr ⟨e, he, rfl, fun hne => absurd hns hne⟩
    | deleted hf' howned =>
      obtain ⟨rfl, -⟩ := Deed.mk.inj hd
      obtain rfl := Option.some.inj (hf.symm.trans hf')
      exact absurd (howned.unique ho) hne

section Site

attribute [local irreducible] pass

def edge : Owner := ⟨"edge", "infra"⟩

theorem edge_plain : edge.Plain := ⟨⟨by decide, by decide⟩, ⟨by decide, by decide⟩, by decide⟩

/-- One of its components is where the other owner will have one too. -/
def edgeSpec : SetSpec :=
  { helm := [{ name := "web", ns := "one", spec := chart "1" }, { name := "mail", spec := chart "1" }] }

def edgeStore : Host := (charted edge edgeSpec vacant).2

def webSlot : Slot := ⟨"stowage.io", "HelmAddon", "one", "web"⟩

def mailSlot : Slot := ⟨"stowage.io", "HelmAddon", "infra", "mail"⟩

instance (k : ComponentKind π σ) (owner : Owner) (s : Slot) (o : Object) : Decidable (Owned k owner s o) :=
  inferInstanceAs (Decidable (_ ∧ _ ∧ ∀ l ∈ owner.labels, o.metadata.label? l.1 = some l.2))

theorem edgeStore_filed : edgeStore.memory.Filed := charted_filed edge edgeSpec

/-- The other owner's component that no entry asks for stays as it was. -/
theorem other_component_spared :
    site.Legible ∧ site ≠ edge ∧ edgeStore.memory.Filed
      ∧ ∃ o, edgeStore.memory.objects.find? mailSlot = some o ∧ Owned .helm edge mailSlot o
        ∧ (charted site siteBefore edgeStore).2.memory.objects.find? mailSlot = some o := by
  have hchecked : (edgeStore.memory.objects.find? mailSlot).any
      (fun o => decide (Owned .helm edge mailSlot o)) = true := by
    decide +kernel
  obtain ⟨o, hf, howned⟩ := Option.any_eq_true _ _ |>.1 hchecked
  have howned := of_decide_eq_true howned
  have hne : site ≠ edge := by decide
  obtain ⟨_, hrun⟩ := Session.runs_run (pass .helm site siteBefore.helm .background) edgeStore
  obtain hspared | ⟨e, he, hplace, -⟩ :=
    other_owner_spared site_plain.legible hne edgeStore_filed hrun hf howned
  · exact ⟨site_plain.legible, hne, edgeStore_filed, o, hf, howned, hspared⟩
  · have haway : ∀ e ∈ siteBefore.helm, place .helm site e ≠ mailSlot := by decide
    exact absurd hplace (haway e he)

/-- The other owner's component that an entry asks for is not left as it was. -/
theorem component_taken_over :
    site.Plain ∧ edge.Plain ∧ site ≠ edge ∧ edgeStore.memory.Filed
      ∧ ∃ o, edgeStore.memory.objects.find? webSlot = some o ∧ Owned .helm edge webSlot o
        ∧ (∃ summary, (charted site siteBefore edgeStore).1 = .ok summary)
        ∧ (charted site siteBefore edgeStore).2.memory.objects.find? webSlot ≠ some o := by
  have hbefore : (edgeStore.memory.objects.find? webSlot).any
      (fun o => decide (Owned .helm edge webSlot o)) = true := by
    decide +kernel
  have hafter : ((charted site siteBefore edgeStore).2.memory.objects.find? webSlot).any
      (fun o => decide (Owned .helm site webSlot o)) = true := by
    decide +kernel
  have hran : ((charted site siteBefore edgeStore).1.toOption.any fun _ => true) = true := by decide +kernel
  obtain ⟨o, hf, howned⟩ := Option.any_eq_true _ _ |>.1 hbefore
  obtain ⟨o', hf', howned'⟩ := Option.any_eq_true _ _ |>.1 hafter
  obtain ⟨summary, hok, -⟩ := ok_of_any hran
  have hne : site ≠ edge := by decide
  refine ⟨site_plain, edge_plain, hne, edgeStore_filed, o, hf, of_decide_eq_true howned, ⟨summary, hok⟩,
    fun hsame => ?_⟩
  obtain rfl := Option.some.inj (hf'.symm.trans hsame)
  exact hne ((of_decide_eq_true howned').unique (of_decide_eq_true howned))

end Site

end Addons.Reconcile
