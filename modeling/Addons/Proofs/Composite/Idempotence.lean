import Addons.Proofs.Composite.Convergence
import Addons.Proofs.Store.Outcome

/-!
# A second pass

What a pass leaves it finds current the next time (`Reconcile.AtRest`): every component is where its entry
takes it, with nothing to change, in a namespace that is there, and none is left over. The next pass then looks
at the store, once for each entry and once for the kind, and does no more (`AtRest.ends_pass`). That it looks
in vain, because a request is to fail, is ruled out by the first pass, which made the same requests.
-/

namespace Addons

/-- No two entries of one kind have the same place. -/
structure SetSpec.Apart (spec : SetSpec) (owner : Owner) : Prop where
  helm : (spec.helm.map (Reconcile.place .helm owner)).Nodup
  manifests : (spec.manifests.map (Reconcile.place .manifests owner)).Nodup
  issuers : (spec.issuers.map (Reconcile.place .issuers owner)).Nodup

theorem Summary.append_empty (s : Summary) : s ++ ({} : Summary) = s := by
  show s.append {} = s
  simp only [Summary.append, List.append_nil]

namespace Reconcile

section Kind

variable {π σ π' σ' : Type} {k : ComponentKind π σ} {k' : ComponentKind π' σ'} {owner : Owner}
  {propagation : Propagation} {m m' : Memory} {es : List Event} {entries todo : List (Entry π)}
  {e : Entry π} {left : List Object} {summary : Summary}

variable (k owner) in
/-- The name under which the component of an entry is shown. -/
def shown (e : Entry π) : String := (keyOf k owner e).display

/-! ## What a pass finds -/

theorem isCurrent_of_standsFor {o : Object} (h : StandsFor k owner e o) :
    isCurrent (materialize k owner e) o := by
  unfold isCurrent
  rw [Bool.and_eq_true, List.all_eq_true]
  exact ⟨fun l hl => decide_eq_true (h.labels l hl), sameSpec_some_iff.2 h.spec⟩

variable (k owner) in
/-- The candidates are the components of the entries to come, whose namespaces are there. -/
structure Resting (todo : List (Entry π)) (left : List Object) (m : Memory) : Prop where
  stands : ∀ e ∈ todo, ∃ o ∈ left, m.objects.find? (place k owner e) = some o ∧ StandsFor k owner e o
  only : ∀ o ∈ left, ∃ e ∈ todo, m.objects.find? (place k owner e) = some o
  nodup : left.Nodup
  homes : ∀ e ∈ todo, m.object? (Session.namespaceKey (owner.targetNs e)) ≠ none

theorem Resting.looked (h : Resting k owner todo left m) (gets lists : Nat) :
    Resting k owner todo left (m.looked gets lists) :=
  ⟨h.stands, h.only, h.nodup, h.homes⟩

/-- The entry takes the component that stands for it, and leaves those of the entries to come. -/
theorem Resting.take (ho : owner.Plain) (hm : m.Filed)
    (hnew : ∀ e' ∈ todo, place k owner e' ≠ place k owner e) (h : Resting k owner (e :: todo) left m) :
    ∃ o rest, takeMatch e.name (owner.targetNs e) left = (some o, rest) ∧ StandsFor k owner e o
      ∧ Resting k owner todo rest m := by
  obtain ⟨o, hmem, hf, hstands⟩ := h.stands e List.mem_cons_self
  have hname : o.anyName = e.name := by
    unfold Object.anyName
    rw [hstands.name]
    rfl
  obtain ⟨-, hnone⟩ | ⟨o', rest, htake, hperm, hname', hns⟩ := takeMatch_cases e.name (owner.targetNs e) left
  · exact absurd hname (hnone o hmem)
  have hns' := hns.resolve_right fun hother => hother o hmem hname hstands.ns
  -- what is taken is where the entry is, and so is its component
  obtain rfl : o' = o := by
    obtain ⟨e', -, hf'⟩ := h.only o' (hperm.mem_iff.2 List.mem_cons_self)
    obtain ⟨hens, hename⟩ := ns_of_place ho hm hf'
    have hsamens : owner.targetNs e' = owner.targetNs e := Option.some.inj (hens.symm.trans hns')
    have hsamename : e'.name = e.name := by
      rw [← hname']
      unfold Object.anyName
      rw [hename]
      rfl
    rw [place_eq, hsamens, hsamename, ← place_eq, hf] at hf'
    exact (Option.some.inj hf').symm
  have hnodup := List.nodup_cons.1 (hperm.nodup_iff.1 h.nodup)
  refine ⟨o', rest, htake, hstands, fun e₁ he₁ => ?_, fun o₁ ho₁ => ?_, hnodup.2,
    fun e₁ he₁ => h.homes e₁ (List.mem_cons_of_mem _ he₁)⟩
  · obtain ⟨o₁, ho₁, hf₁, hstands₁⟩ := h.stands e₁ (List.mem_cons_of_mem _ he₁)
    rcases List.mem_cons.1 (hperm.mem_iff.1 ho₁) with rfl | ho₁
    · exact absurd (hm.slot_unique hf₁ hf) (hnew e₁ he₁)
    · exact ⟨o₁, ho₁, hf₁, hstands₁⟩
  · obtain ⟨e₁, he₁, hf₁⟩ := h.only o₁ (hperm.mem_iff.2 (List.mem_cons_of_mem _ ho₁))
    rcases List.mem_cons.1 he₁ with rfl | he₁
    · obtain rfl := Option.some.inj (hf.symm.trans hf₁)
      exact absurd ho₁ hnodup.1
    · exact ⟨e₁, he₁, hf₁⟩

/-! ## What it does then -/

theorem ends_ensureNamespace {name : String} (hm : (.get, "Namespace") ∉ m.failures)
    (hhome : m.object? (Session.namespaceKey name) ≠ none) :
    (Session.ensureNamespace name).Ends m fun r m' => r = .ok false ∧ m' = m.looked 1 0 := by
  obtain ⟨home, hhome⟩ := Option.ne_none_iff_exists'.1 hhome
  unfold Session.ensureNamespace
  refine Session.Ends.bind ((Session.ends_find? hm).imp ?_)
  rintro _ _ ⟨rfl, rfl⟩
  rw [hhome]
  exact ⟨_, rfl, Session.ends_done ⟨rfl, rfl⟩⟩

/-- An entry whose component is current looks for its namespace only. -/
theorem Resting.ends_applyEntry (ho : owner.Plain) (hm : m.Filed) (hget : (.get, "Namespace") ∉ m.failures)
    (hnew : ∀ e' ∈ todo, place k owner e' ≠ place k owner e) (h : Resting k owner (e :: todo) left m) :
    (applyEntry k owner propagation left e).Ends m fun r m' =>
      ∃ rest, r = .ok (.unchanged, rest) ∧ Resting k owner todo rest m ∧ m' = m.looked 1 0 := by
  obtain ⟨o, rest, htake, hstands, hrest⟩ := h.take ho hm hnew
  rw [applyEntry_eq, htake]
  refine Session.Ends.bind ((ends_ensureNamespace hget (h.homes e List.mem_cons_self)).imp ?_)
  rintro _ _ ⟨rfl, rfl⟩
  refine ⟨_, rfl, Session.Ends.bind (Session.ends_done ⟨some o, rfl, Session.Ends.bind ?_⟩)⟩
  unfold applyTo
  dsimp only
  rw [if_pos hstands.ns, if_pos (isCurrent_of_standsFor hstands)]
  exact Session.ends_done ⟨_, rfl, Session.ends_done ⟨rest, rfl, hrest, rfl⟩⟩

theorem Resting.ends_applyEntries (ho : owner.Plain) (hm : m.Filed)
    (hget : todo ≠ [] → (.get, "Namespace") ∉ m.failures) (hplaces : (todo.map (place k owner)).Nodup)
    (h : Resting k owner todo left m) :
    (applyEntries k owner propagation left todo).Ends m fun r m' =>
      r = .ok ({ unchanged := todo.map (shown k owner) }, []) ∧ m' = m.looked todo.length 0 := by
  induction todo generalizing left m with
  | nil =>
    have hleft : left = [] := List.eq_nil_iff_forall_not_mem.2 fun o ho => by
      obtain ⟨e, he, -⟩ := h.only o ho
      cases he
    rw [hleft]
    exact Session.ends_done ⟨rfl, rfl⟩
  | cons e todo ih =>
    rw [List.map_cons, List.nodup_cons] at hplaces
    have hnew : ∀ e' ∈ todo, place k owner e' ≠ place k owner e := fun e' he' hplace =>
      hplaces.1 (hplace ▸ List.mem_map_of_mem he')
    have hget := hget (List.cons_ne_nil _ _)
    refine Session.Ends.bind ((h.ends_applyEntry ho hm hget hnew).imp ?_)
    rintro _ _ ⟨rest, rfl, hrest, rfl⟩
    have hthen := ih (hm.looked 1 0) (fun _ => hget) hplaces.2 (hrest.looked 1 0)
    refine ⟨_, rfl, Session.Ends.bind (hthen.imp ?_)⟩
    rintro _ _ ⟨rfl, rfl⟩
    refine ⟨_, rfl, Session.ends_done ⟨rfl, ?_⟩⟩
    rw [Memory.looked_looked, List.length_cons, Nat.add_comm]

/-! ## After a pass -/

variable (k owner) in
/-- A component stands for every entry, in a namespace that is there, and there are no others; what a pass
looks at is not to fail. -/
structure AtRest (entries : List (Entry π)) (m : Memory) : Prop where
  threaded : Threaded k owner entries [] m
  homes : ∀ e ∈ entries, m.object? (Session.namespaceKey (owner.targetNs e)) ≠ none
  list : (.list, k.resource.kind) ∉ m.failures
  get : entries ≠ [] → (.get, "Namespace") ∉ m.failures

theorem AtRest.looked (h : AtRest k owner entries m) (gets lists : Nat) :
    AtRest k owner entries (m.looked gets lists) :=
  ⟨h.threaded.congr fun _ _ _ => rfl, h.homes, h.list, h.get⟩

theorem AtRest.resting (ho : owner.Plain) (hm : m.Filed) (h : AtRest k owner entries m) :
    Resting k owner entries (components k owner m) m := by
  refine ⟨fun e he => ?_, fun o hmem => ?_, hm.nodup_listing _ _ _, h.homes⟩
  · obtain ⟨o, hf, hstands⟩ := h.threaded.stands e he
    exact ⟨o, (mem_components ho.legible hm).2 ⟨_, hf, hstands.owned⟩, hf, hstands⟩
  · obtain ⟨s, hf, howned⟩ := (mem_components ho.legible hm).1 hmem
    obtain ⟨e, he, rfl⟩ | hnone := h.threaded.owned s o hf howned
    · exact ⟨e, he, hf⟩
    · cases hnone

/-- A pass at rest finds every component current, and looks at the store without changing it. -/
theorem AtRest.ends_pass (ho : owner.Plain) (hplaces : (entries.map (place k owner)).Nodup) (hm : m.Filed)
    (h : AtRest k owner entries m) :
    (pass k owner entries propagation).Ends m fun r m' =>
      r = .ok { unchanged := entries.map (shown k owner) } ∧ m' = m.looked entries.length 1 := by
  unfold pass
  refine Session.Ends.bind ((Session.ends_listAll h.list).imp ?_)
  rintro _ _ ⟨rfl, rfl⟩
  have hresting := (h.resting ho hm).looked 0 1
  refine ⟨_, rfl, Session.Ends.bind ((hresting.ends_applyEntries ho (hm.looked 0 1) h.get hplaces).imp ?_)⟩
  rintro _ _ ⟨rfl, rfl⟩
  refine ⟨_, rfl, Session.Ends.bind (Session.ends_done ⟨_, rfl, Session.ends_done ⟨?_, ?_⟩⟩)⟩
  · rw [Summary.append_empty]
  · rw [Memory.looked_looked, Nat.zero_add]

theorem runs_applyEntries_get (h : (applyEntries k owner propagation left todo).Runs m es
    (.ok (summary, left')) m') (hne : todo ≠ []) : (.get, "Namespace") ∉ m.failures := by
  cases todo with
  | nil => exact absurd rfl hne
  | cons e todo =>
    rw [applyEntries, applyEntry_eq] at h
    obtain ⟨_, _, _, _, h, -⟩ := Session.runs_bind_ok h
    obtain ⟨_, _, _, _, h, -⟩ := Session.runs_bind_ok h
    obtain ⟨_, _, _, _, h, -⟩ := Session.runs_bind_ok h
    exact Session.runs_find?_ok h

theorem runs_pass_atRest (ho : owner.Plain) (hplaces : (entries.map (place k owner)).Nodup) (hm : m.Filed)
    (h : (pass k owner entries propagation).Runs m es (.ok summary) m') : AtRest k owner entries m' := by
  obtain ⟨hthreaded, hsettles⟩ := runs_pass ho hplaces hm h
  have hfailures := h.failures_subset
  unfold pass at h
  obtain ⟨_, m₁, _, _, hlist, h⟩ := Session.runs_bind_ok h
  obtain ⟨⟨_, _⟩, m₂, _, _, happly, h⟩ := Session.runs_bind_ok h
  refine ⟨hthreaded, hsettles.homes, fun hmem => ?_, fun hne hmem => ?_⟩
  · exact Session.runs_listAll_ok hlist (hfailures hmem)
  · exact runs_applyEntries_get happly hne (happly.failures_subset (h.failures_subset hmem))

/-- A pass over another kind leaves what is at rest. -/
theorem AtRest.settles {entries' : List (Entry π')} (h : AtRest k owner entries m)
    (hkind : k.resource.kind ≠ k'.resource.kind) (hnamespace : k.resource.kind ≠ "Namespace")
    (hsettles : Settles k' owner entries' m m') (hfailures : m'.failures ⊆ m.failures) :
    AtRest k owner entries m' := by
  refine ⟨h.threaded.congr fun s _ hs => ?_, fun e he => hsettles.kept _ (h.homes e he),
    fun hmem => h.list (hfailures hmem), fun hne hmem => h.get hne (hfailures hmem)⟩
  exact hsettles.untouched s (hs ▸ hkind) (hs ▸ hnamespace)

end Kind

/-- The names under which the declared components are shown. -/
def allShown (owner : Owner) (spec : SetSpec) : List String :=
  spec.helm.map (shown .helm owner) ++ spec.manifests.map (shown .manifests owner)
    ++ spec.issuers.map (shown .issuers owner)

variable {owner : Owner} {spec : SetSpec} {m m' : Memory} {es : List Event} {summary : Summary}

variable (owner spec) in
/-- Every kind is at rest. -/
structure AllAtRest (m : Memory) : Prop where
  helm : AtRest .helm owner spec.helm m
  manifests : AtRest .manifests owner spec.manifests m
  issuers : AtRest .issuers owner spec.issuers m

theorem runs_all_atRest (ho : owner.Plain) (hd : spec.Apart owner) (hm : m.Filed)
    (h : (all owner spec).Runs m es (.ok summary) m') : AllAtRest owner spec m' := by
  obtain ⟨m₁, m₂, ⟨_, _, hhelm⟩, ⟨_, _, hmanifests⟩, _, _, hissuers⟩ := runs_passes h
  have hm₁ := hhelm.filed hm
  have hm₂ := hmanifests.filed hm₁
  have hfailures := hmanifests.failures_subset
  have hfailures' := hissuers.failures_subset
  obtain ⟨-, hsettles⟩ := runs_pass ho hd.manifests hm₁ hmanifests
  obtain ⟨-, hsettles'⟩ := runs_pass ho hd.issuers hm₂ hissuers
  have hhelm₁ := runs_pass_atRest ho hd.helm hm hhelm
  have hhelm₂ := hhelm₁.settles (by decide) (by decide) hsettles hfailures
  have hmanifests₂ := runs_pass_atRest ho hd.manifests hm₁ hmanifests
  exact ⟨hhelm₂.settles (by decide) (by decide) hsettles' hfailures',
    hmanifests₂.settles (by decide) (by decide) hsettles' hfailures',
    runs_pass_atRest ho hd.issuers hm₂ hissuers⟩

theorem AllAtRest.ends_all (ho : owner.Plain) (hd : spec.Apart owner) (hm : m.Filed)
    (h : AllAtRest owner spec m) :
    (all owner spec).Ends m fun r m' => ∃ summary, r = .ok summary ∧ summary.isNoop
      ∧ summary.unchanged = allShown owner spec
      ∧ m' = m.looked (spec.helm.length + spec.manifests.length + spec.issuers.length) 3 := by
  unfold all
  refine Session.Ends.bind ((h.helm.ends_pass ho hd.helm hm).imp ?_)
  rintro _ _ ⟨rfl, rfl⟩
  have hmanifests := h.manifests.looked spec.helm.length 1
  refine ⟨_, rfl, Session.Ends.bind ((hmanifests.ends_pass ho hd.manifests (hm.looked _ _)).imp ?_)⟩
  rintro _ _ ⟨rfl, rfl⟩
  rw [Memory.looked_looked]
  have hissuers := h.issuers.looked (spec.helm.length + spec.manifests.length) 2
  refine ⟨_, rfl, Session.Ends.bind ((hissuers.ends_pass ho hd.issuers (hm.looked _ _)).imp ?_)⟩
  rintro _ _ ⟨rfl, rfl⟩
  rw [Memory.looked_looked]
  exact ⟨_, rfl, Session.ends_done ⟨_, rfl, rfl, rfl, rfl⟩⟩

/-- After a pass over all kinds that succeeds, the next one for the same entries finds each component
unchanged, and leaves the store as it is, for all that it has looked at it. -/
theorem all_idempotent (ho : owner.Plain) (hd : spec.Apart owner) (hm : m.Filed)
    (h : (all owner spec).Runs m es (.ok summary) m') :
    (all owner spec).Ends m' fun r m'' => ∃ summary', r = .ok summary' ∧ summary'.isNoop
      ∧ summary'.unchanged = allShown owner spec
      ∧ m'' = m'.looked (spec.helm.length + spec.manifests.length + spec.issuers.length) 3 :=
  (runs_all_atRest ho hd hm h).ends_all ho hd (h.filed hm)

section Site

attribute [local irreducible] all

/-- The store after a component has moved, one was deleted, and one is new. -/
def siteStore : Host := (declared siteAfter (declared siteBefore vacant).2).2

/-- The next pass finds both components as they are declared. -/
theorem third_pass_idle :
    site.Plain ∧ siteAfter.Apart site ∧ (declared siteBefore vacant).2.memory.Filed
      ∧ (∃ summary, (declared siteAfter (declared siteBefore vacant).2).1 = .ok summary)
      ∧ ∃ summary, (declared siteAfter siteStore).1 = .ok summary ∧ summary.isNoop
        ∧ summary.unchanged = ["HelmAddon two/web", "IssuerAddon infra/ca"]
        ∧ (declared siteAfter siteStore).2.memory = siteStore.memory.looked 2 3 := by
  have hchecked : ((declared siteAfter (declared siteBefore vacant).2).1.toOption.any
      fun _ => true) = true := by
    decide +kernel
  obtain ⟨summary, hok, -⟩ := ok_of_any hchecked
  obtain ⟨_, hbefore⟩ := Session.runs_run (all site siteBefore) vacant
  obtain ⟨_, hafter⟩ := Session.runs_run (all site siteAfter) (declared siteBefore vacant).2
  have hfiled : (declared siteBefore vacant).2.memory.Filed := hbefore.filed (.of_nil rfl)
  have hapart : siteAfter.Apart site := ⟨by decide, by decide, by decide⟩
  rw [show ((all site siteAfter).run _).1 = _ from hok] at hafter
  obtain ⟨summary', hok', hnoop, hunchanged, hmemory⟩ :=
    all_idempotent site_plain hapart hfiled hafter siteStore
  exact ⟨site_plain, hapart, hfiled, ⟨summary, hok⟩, summary', hok', hnoop, hunchanged, hmemory⟩

end Site

end Reconcile

end Addons
