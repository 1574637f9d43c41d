import Addons.Proofs.Composite.Frame
import Addons.Proofs.Store.Outcome

/-!
# When a pass gets through

On a store of which no request is to fail a pass succeeds unless an entry is barred (`Reconcile.Barred`): what
is at its place is no component of the owner, and the owner has a component of its name elsewhere. Such an
entry takes that component for its own and moves it, which is to delete it there and to create it where there
is something already. Without that component the entry would take over what is at its place. The pass is told
of what is in the way, and ends (`pass_succeeds_iff`).
-/

namespace Addons.Reconcile

variable {π σ : Type} {k : ComponentKind π σ} {owner : Owner} {propagation : Propagation} {m m' : Memory}
  {es : List Event} {entries done todo : List (Entry π)} {e : Entry π} {left : List Object} {o : Object}
  {s : Slot}

variable (k owner m e) in
/-- The owner has a component of the name of an entry, but what is at the place of the entry is none. -/
structure Barred : Prop where
  occupied : ∃ o, m.objects.find? (place k owner e) = some o ∧ ¬Owned k owner (place k owner e) o
  elsewhere : ∃ s o, m.objects.find? s = some o ∧ Owned k owner s o ∧ s.name = e.name

/-- Whether an entry is barred is up to the objects of its kind and its name. -/
theorem barred_congr (h : ∀ s : Slot, s.group = k.resource.type.group → s.kind = k.resource.kind →
    s.name = e.name → m'.objects.find? s = m.objects.find? s) : Barred k owner m' e ↔ Barred k owner m e := by
  have hplace := h (place k owner e) rfl rfl rfl
  constructor
  · rintro ⟨hoccupied, s, o, hf, howned, hname⟩
    exact ⟨hplace ▸ hoccupied, s, o, (h s howned.1 howned.2.1 hname).symm.trans hf, howned, hname⟩
  · rintro ⟨hoccupied, s, o, hf, howned, hname⟩
    exact ⟨hplace ▸ hoccupied, s, o, (h s howned.1 howned.2.1 hname).trans hf, howned, hname⟩

/-! ## What an entry takes -/

/-- A component of the owner that has the name of the entry is a candidate. -/
theorem Threaded.mem_left (ht : Threaded k owner done left m) (hnew : ∀ e' ∈ done, e'.name ≠ e.name)
    (hf : m.objects.find? s = some o) (howned : Owned k owner s o) (hname : s.name = e.name) : o ∈ left := by
  refine (ht.owned s o hf howned).resolve_left ?_
  rintro ⟨e', he', rfl⟩
  exact hnew e' he' hname

/-- An entry takes nothing, or what is at its place, or a component of the owner from elsewhere; only in this
case it may be barred, and it is if there is anything at its place. -/
theorem taken_cases (ho : owner.Plain) (hm : m.Filed) (ht : Threaded k owner done left m)
    (hnew : ∀ e' ∈ done, e'.name ≠ e.name) {existing : Option Object}
    (h : existing = (takeMatch e.name (owner.targetNs e) left).1.or (m.objects.find? (place k owner e))) :
    (existing = none ∧ m.objects.find? (place k owner e) = none ∧ ¬Barred k owner m e)
      ∨ (∃ o, existing = some o ∧ m.objects.find? (place k owner e) = some o ∧ ¬Barred k owner m e)
      ∨ ∃ s o, existing = some o ∧ m.objects.find? s = some o ∧ o.metadata.ns ≠ some (owner.targetNs e)
        ∧ (Barred k owner m e ↔ m.objects.find? (place k owner e) ≠ none) := by
  obtain ⟨htake, hnone⟩ | ⟨o, rest, htake, hperm, hname, hns⟩ :=
    takeMatch_cases e.name (owner.targetNs e) left
  · -- the owner has no component of the name
    have hfree : ¬Barred k owner m e := fun hb => by
      obtain ⟨s, o, hf, howned, hname⟩ := hb.elsewhere
      exact hnone o (ht.mem_left hnew hf howned hname) ((hm.anyName_of_find? hf).trans hname)
    rw [htake, Option.none_or] at h
    cases hf : m.objects.find? (place k owner e) with
    | none => exact .inl ⟨h.trans hf, rfl, hfree⟩
    | some o => exact .inr (.inl ⟨o, h.trans hf, rfl, hfree⟩)
  · obtain ⟨s, hf, howned, -⟩ := ht.live o (hperm.mem_iff.2 List.mem_cons_self)
    rw [htake, Option.some_or] at h
    have hsname : s.name = e.name := (hm.anyName_of_find? hf).symm.trans hname
    by_cases hhere : o.metadata.ns = some (owner.targetNs e)
    · obtain rfl := howned.eq_place hsname (hm.ns_of_find? hf hhere)
      refine .inr (.inl ⟨o, h, hf, fun hb => ?_⟩)
      obtain ⟨o', hf', hforeign⟩ := hb.occupied
      obtain rfl := Option.some.inj (hf.symm.trans hf')
      exact hforeign howned
    · refine .inr (.inr ⟨s, o, h, hf, hhere, fun hb => ?_, fun hoccupied => ?_⟩)
      · obtain ⟨o', hf', -⟩ := hb.occupied
        rw [hf']
        exact Option.some_ne_none o'
      · obtain ⟨o', hf'⟩ := Option.ne_none_iff_exists'.1 hoccupied
        refine ⟨⟨o', hf', fun howned' => ?_⟩, s, o, hf, howned, hsname⟩
        -- a component of the owner at the place would have been taken
        have hmem := ht.mem_left hnew hf' howned' rfl
        exact hns.resolve_left hhere o' hmem (hm.anyName_of_find? hf') (ns_of_place ho hm hf').1

/-! ## How an entry ends -/

theorem ensureNamespace_succeeds (hhealthy : m.Healthy) (name : String) :
    (Session.ensureNamespace name).Ends m fun r _ => ∃ existed, r = .ok existed := by
  unfold Session.ensureNamespace
  refine Session.Ends.bind ((Session.ends_find? (hhealthy.not_mem _)).imp ?_)
  rintro _ _ ⟨rfl, rfl⟩
  refine ⟨_, rfl, ?_⟩
  cases hlive : m.object? (Session.namespaceKey name) with
  | some o => exact Session.ends_done ⟨_, rfl⟩
  | none =>
    have hcreate := Session.ends_createNew (m := m.looked 1 0) (Session.key_namespaceObject name)
      (hhealthy.not_mem _) hlive
    refine Session.Ends.bind (hcreate.attempt.imp ?_)
    rintro _ _ ⟨_, rfl, stored, rfl⟩
    exact ⟨_, rfl, Session.ends_done ⟨_, rfl⟩⟩

/-- An entry without an object is created. -/
theorem applyTo_none_succeeds (hhealthy : m.Healthy) (hf : m.objects.find? (place k owner e) = none) :
    (applyTo propagation (materialize k owner e) (owner.targetNs e) none).Ends m
      fun r _ => ∃ outcome, r = .ok outcome := by
  refine Session.Ends.bind ((Session.ends_createNew (key_materialize e) (hhealthy.not_mem _) hf).imp ?_)
  rintro _ _ ⟨stored, rfl⟩
  exact ⟨_, rfl, Session.ends_done ⟨_, rfl⟩⟩

/-- An entry whose object is at its place stays or is updated. -/
theorem applyTo_here_succeeds (ho : owner.Plain) (hm : m.Filed) (hhealthy : m.Healthy)
    (hf : m.objects.find? (place k owner e) = some o) :
    (applyTo propagation (materialize k owner e) (owner.targetNs e) (some o)).Ends m
      fun r _ => ∃ outcome, r = .ok outcome := by
  unfold applyTo
  dsimp only
  rw [if_pos (ns_of_place ho hm hf).1]
  by_cases hcurrent : isCurrent (materialize k owner e) o
  · rw [if_pos hcurrent]
    exact Session.ends_done ⟨_, rfl⟩
  · rw [if_neg hcurrent]
    obtain ⟨n, -, hversion⟩ := hm.version_of_find? hf
    have hreplace := Session.ends_replace (o := (materialize k owner e).adopt o) (key_materialize e)
      (hhealthy.not_mem _) hf hversion hversion
    refine Session.Ends.bind (hreplace.imp ?_)
    rintro _ _ ⟨stored, rfl⟩
    exact ⟨_, rfl, Session.ends_done ⟨_, rfl⟩⟩

/-- An entry whose object is elsewhere is created when the object is gone; how that ends is up to what is at
its place. -/
theorem ends_applyTo_moved {P : Except Error EntryOutcome → Memory → Prop} (hm : m.Filed)
    (hhealthy : m.Healthy) (hf : m.objects.find? s = some o) (hns : o.metadata.ns ≠ some (owner.targetNs e))
    (hplace : s ≠ place k owner e)
    (hcreate : ∀ m₁ : Memory, m₁.Healthy →
      m₁.objects.find? (place k owner e) = m.objects.find? (place k owner e) →
      (Session.createNew (materialize k owner e) >>= fun _ => pure EntryOutcome.moved).Ends m₁ P) :
    (applyTo propagation (materialize k owner e) (owner.targetNs e) (some o)).Ends m P := by
  obtain ⟨key, hkey, rfl⟩ := hm.key_of_find? hf
  unfold applyTo
  dsimp only
  rw [if_neg hns, hkey]
  refine Session.Ends.bind (Session.ends_done ⟨key, rfl, ?_⟩)
  refine Session.Ends.bind ((Session.ends_removeIfExists (hhealthy.not_mem _)).runs.imp ?_)
  rintro _ m₁ ⟨⟨existed, rfl⟩, es, hremove⟩
  refine ⟨_, rfl, hcreate m₁ (hremove.healthy hhealthy) ?_⟩
  rw [Session.runs_removeIfExists_ok hf hremove, Table.find?_erase_ne hplace.symm]

theorem ends_standing (hhealthy : m.Healthy) (taken : Option Object) :
    (standing k owner e taken).Ends m fun r m' =>
      r = .ok (taken.or (m.objects.find? (place k owner e))) ∧ m'.objects = m.objects := by
  cases taken with
  | some o => exact Session.ends_done ⟨rfl, rfl⟩
  | none =>
    refine (Session.ends_find? (hhealthy.not_mem _)).imp ?_
    rintro _ _ ⟨rfl, rfl⟩
    exact ⟨rfl, rfl⟩

/-- What stands for an entry, when its namespace is there, decides how the entry ends. -/
theorem ends_applyEntry_of {P : Except Error (EntryOutcome × List Object) → Prop} (hm : m.Filed)
    (hhealthy : m.Healthy) (ht : Threaded k owner done left m)
    (h : ∀ m₁ : Memory, m₁.Filed → m₁.Healthy → Threaded k owner done left m₁ →
      (Barred k owner m₁ e ↔ Barred k owner m e) →
      (applyTo propagation (materialize k owner e) (owner.targetNs e)
          ((takeMatch e.name (owner.targetNs e) left).1.or (m₁.objects.find? (place k owner e)))
        >>= fun outcome => pure (outcome, (takeMatch e.name (owner.targetNs e) left).2)).Ends m₁ fun r _ => P r) :
    (applyEntry k owner propagation left e).Ends m fun r _ => P r := by
  rw [applyEntry_eq]
  refine Session.Ends.bind ((ensureNamespace_succeeds hhealthy _).runs.imp ?_)
  rintro _ m₁ ⟨⟨existed, rfl⟩, es, hns⟩
  have hhealthy₁ := hns.healthy hhealthy
  refine ⟨_, rfl, Session.Ends.bind ((ends_standing hhealthy₁ _).runs.imp ?_)⟩
  rintro _ m₂ ⟨⟨rfl, hobjects⟩, es₂, hstanding⟩
  refine ⟨_, rfl, ?_⟩
  have hsame : ∀ s : Slot, s.group = k.resource.type.group → m₂.objects.find? s = m.objects.find? s :=
    fun s hgroup => by rw [hobjects, Session.runs_ensureNamespace hns (ne_namespace hgroup)]
  rw [← hobjects]
  exact h m₂ (hstanding.filed (hns.filed hm)) (hstanding.healthy hhealthy₁)
    (ht.congr fun s hgroup _ => hsame s hgroup) (barred_congr fun s hgroup _ _ => hsame s hgroup)

theorem applyEntry_succeeds (ho : owner.Plain) (hm : m.Filed) (hhealthy : m.Healthy)
    (ht : Threaded k owner done left m) (hnew : ∀ e' ∈ done, e'.name ≠ e.name) (hfree : ¬Barred k owner m e) :
    (applyEntry k owner propagation left e).Ends m fun r _ => ∃ a, r = .ok a := by
  refine ends_applyEntry_of hm hhealthy ht fun m₁ hm₁ hhealthy₁ ht₁ hsame => ?_
  have hresult : (applyTo propagation (materialize k owner e) (owner.targetNs e)
      ((takeMatch e.name (owner.targetNs e) left).1.or (m₁.objects.find? (place k owner e)))).Ends m₁
        fun r _ => ∃ outcome, r = .ok outcome := by
    obtain ⟨hexisting, hf, -⟩ | ⟨o, hexisting, hf, -⟩ | ⟨s, o, hexisting, hf, hns, hbarred⟩ :=
      taken_cases ho hm₁ ht₁ hnew rfl
    · rw [hexisting]
      exact applyTo_none_succeeds hhealthy₁ hf
    · rw [hexisting]
      exact applyTo_here_succeeds ho hm₁ hhealthy₁ hf
    · rw [hexisting]
      have hempty : m₁.objects.find? (place k owner e) = none :=
        not_not.1 fun hne => hfree (hsame.1 (hbarred.2 hne))
      have hplace : s ≠ place k owner e := by
        rintro rfl
        rw [hempty] at hf
        cases hf
      refine ends_applyTo_moved hm₁ hhealthy₁ hf hns hplace fun m₂ hhealthy₂ hf₂ => ?_
      rw [hempty] at hf₂
      refine Session.Ends.bind ((Session.ends_createNew (key_materialize e) (hhealthy₂.not_mem _) hf₂).imp ?_)
      rintro _ _ ⟨stored, rfl⟩
      exact ⟨_, rfl, Session.ends_done ⟨_, rfl⟩⟩
  refine Session.Ends.bind (hresult.imp ?_)
  rintro _ _ ⟨outcome, rfl⟩
  exact ⟨_, rfl, Session.ends_done ⟨_, rfl⟩⟩

/-- An entry that is barred is told of what is in its way. -/
theorem applyEntry_barred (ho : owner.Plain) (hm : m.Filed) (hhealthy : m.Healthy)
    (ht : Threaded k owner done left m) (hnew : ∀ e' ∈ done, e'.name ≠ e.name) (hb : Barred k owner m e) :
    (applyEntry k owner propagation left e).Ends m
      fun r _ => r = .error (.alreadyExists (keyOf k owner e).display) := by
  refine ends_applyEntry_of hm hhealthy ht fun m₁ hm₁ hhealthy₁ ht₁ hsame => Session.Ends.bind_error ?_
  obtain ⟨-, -, hfree⟩ | ⟨o, -, -, hfree⟩ | ⟨s, o, hexisting, hf, hns, hbarred⟩ :=
    taken_cases ho hm₁ ht₁ hnew rfl
  · exact absurd (hsame.2 hb) hfree
  · exact absurd (hsame.2 hb) hfree
  · rw [hexisting]
    have hplace : s ≠ place k owner e := by
      rintro rfl
      exact hns (ns_of_place ho hm₁ hf).1
    refine ends_applyTo_moved hm₁ hhealthy₁ hf hns hplace fun m₂ hhealthy₂ hf₂ => Session.Ends.bind_error ?_
    refine Session.ends_createNew_exists (key_materialize e) (hhealthy₂.not_mem _) fun hnone => ?_
    exact hbarred.1 (hsame.2 hb) (hf₂.symm.trans hnone)

/-! ## How a pass ends -/

/-- An entry of another name changes nothing about whether one is barred. -/
theorem Entered.barred_iff {e' : Entry π} {left' : List Object} (h : Entered k owner e left left' m m')
    (hname : e.name ≠ e'.name) : Barred k owner m' e' ↔ Barred k owner m e' :=
  barred_congr fun _ hgroup _ hs => h.others (ne_namespace hgroup) fun _ _ => hs ▸ hname.symm

theorem ends_applyEntries (ho : owner.Plain) (hm : m.Filed) (hhealthy : m.Healthy)
    (ht : Threaded k owner done left m) (hnames : ((done ++ todo).map Entry.name).Nodup) :
    (applyEntries k owner propagation left todo).Ends m fun r _ =>
      ((∃ a, r = .ok a) ∧ ∀ e ∈ todo, ¬Barred k owner m e)
        ∨ ∃ e ∈ todo, Barred k owner m e ∧ r = .error (.alreadyExists (keyOf k owner e).display) := by
  induction todo generalizing done left m with
  | nil => exact Session.ends_done (.inl ⟨⟨_, rfl⟩, fun e he => nomatch he⟩)
  | cons e todo ih =>
    have hnames' := hnames
    rw [List.map_append, List.nodup_append, List.map_cons, List.nodup_cons] at hnames'
    obtain ⟨-, ⟨hlater, -⟩, hdone⟩ := hnames'
    have hnew : ∀ e' ∈ done, e'.name ≠ e.name := fun e' he' =>
      hdone _ (List.mem_map_of_mem he') _ List.mem_cons_self
    by_cases hb : Barred k owner m e
    · refine (Session.Ends.bind_error (applyEntry_barred ho hm hhealthy ht hnew hb)).imp fun r _ hr => ?_
      exact .inr ⟨e, List.mem_cons_self, hb, hr⟩
    · refine Session.Ends.bind ((applyEntry_succeeds ho hm hhealthy ht hnew hb).runs.imp ?_)
      rintro _ m₁ ⟨⟨⟨outcome, left₁⟩, rfl⟩, es, hentry⟩
      have hentered := runs_applyEntry_ok ho hm ht hentry
      have ht₁ := hentered.threaded ht fun e' he' => place_ne (hnew e' he')
      have hsame : ∀ e' ∈ todo, (Barred k owner m₁ e' ↔ Barred k owner m e') := fun e' he' =>
        hentered.barred_iff fun hname => hlater (hname ▸ List.mem_map_of_mem he')
      rw [List.append_cons] at hnames
      have hrest := ih (hentry.filed hm) (hentry.healthy hhealthy) ht₁ hnames
      refine ⟨_, rfl, Session.Ends.bind_cases (hrest.imp ?_)⟩
      rintro _ m₂ (⟨⟨a, rfl⟩, hfree⟩ | ⟨e', he', hb', rfl⟩)
      · have hfree' : ∀ e' ∈ todo, ¬Barred k owner m e' := fun e' he' hb' =>
          hfree e' he' ((hsame e' he').2 hb')
        exact .inl ⟨a, rfl, Session.ends_done (.inl ⟨⟨_, rfl⟩, List.forall_mem_cons.2 ⟨hb, hfree'⟩⟩)⟩
      · exact .inr ⟨_, rfl, .inr ⟨e', List.mem_cons_of_mem _ he', (hsame e' he').1 hb', rfl⟩⟩

theorem sweep_succeeds (hhealthy : m.Healthy) (hkeys : ∀ o ∈ left, ∃ key, o.key = .ok key) :
    (sweep propagation left).Ends m fun r _ => ∃ a, r = .ok a := by
  induction left generalizing m with
  | nil => exact Session.ends_done ⟨_, rfl⟩
  | cons o left ih =>
    obtain ⟨⟨key, hkey⟩, hkeys⟩ := List.forall_mem_cons.1 hkeys
    rw [sweep, hkey]
    refine Session.Ends.bind (Session.ends_done ⟨key, rfl, ?_⟩)
    refine Session.Ends.bind ((Session.ends_removeIfExists (hhealthy.not_mem _)).runs.imp ?_)
    rintro _ m₁ ⟨⟨existed, rfl⟩, es, hremove⟩
    refine ⟨_, rfl, Session.Ends.bind ((ih (hremove.healthy hhealthy) hkeys).imp ?_)⟩
    rintro _ _ ⟨summary, rfl⟩
    exact ⟨_, rfl, Session.ends_done ⟨_, rfl⟩⟩

theorem ends_pass (ho : owner.Plain) (hnames : (entries.map Entry.name).Nodup) (hm : m.Filed)
    (hhealthy : m.Healthy) :
    (pass k owner entries propagation).Ends m fun r _ =>
      ((∃ summary, r = .ok summary) ∧ ∀ e ∈ entries, ¬Barred k owner m e)
        ∨ ∃ e ∈ entries, Barred k owner m e ∧ r = .error (.alreadyExists (keyOf k owner e).display) := by
  unfold pass
  refine Session.Ends.bind ((Session.ends_listAll (hhealthy.not_mem _)).imp ?_)
  rintro _ _ ⟨rfl, rfl⟩
  have hfiled := hm.looked 0 1
  have ht : Threaded k owner [] (components k owner m) (m.looked 0 1) := Threaded.start ho.legible hfiled
  have hsame : ∀ e, Barred k owner (m.looked 0 1) e ↔ Barred k owner m e := fun e =>
    barred_congr fun _ _ _ _ => rfl
  refine ⟨_, rfl, Session.Ends.bind_cases ((ends_applyEntries ho hfiled hhealthy ht hnames).runs.imp ?_)⟩
  rintro _ m₁ ⟨⟨⟨⟨applied, left⟩, rfl⟩, hfree⟩ | hbarred, es, happly⟩
  · have hfiled₁ := happly.filed hfiled
    obtain ⟨ht₁, -⟩ := runs_applyEntries ho hfiled ht (nodup_places hnames) happly
    have hkeys : ∀ o ∈ left, ∃ key, o.key = .ok key := fun o hmem => by
      obtain ⟨s, hf, -⟩ := ht₁.live o hmem
      obtain ⟨key, hkey, -⟩ := hfiled₁.key_of_find? hf
      exact ⟨key, hkey⟩
    refine .inl ⟨_, rfl, Session.Ends.bind ((sweep_succeeds (happly.healthy hhealthy) hkeys).imp ?_)⟩
    rintro _ _ ⟨swept, rfl⟩
    exact ⟨_, rfl, Session.ends_done (.inl ⟨⟨_, rfl⟩, fun e he hb => hfree e he ((hsame e).2 hb)⟩)⟩
  · obtain ⟨e, he, hb, rfl⟩ := hbarred
    exact .inr ⟨_, rfl, .inr ⟨e, he, (hsame e).1 hb, rfl⟩⟩

/-- On a store of which no request is to fail a pass succeeds exactly if none of its entries is barred, and
when it does not it has been told of what is in the way of one. -/
theorem pass_succeeds_iff {h : Host} (ho : owner.Plain) (hnames : (entries.map Entry.name).Nodup)
    (hm : h.memory.Filed) (hhealthy : h.memory.Healthy) :
    ((∃ summary, ((pass k owner entries propagation).run h).1 = .ok summary)
        ↔ ∀ e ∈ entries, ¬Barred k owner h.memory e)
      ∧ ∀ error, ((pass k owner entries propagation).run h).1 = .error error →
        ∃ e ∈ entries, Barred k owner h.memory e ∧ error = .alreadyExists (keyOf k owner e).display := by
  obtain ⟨⟨summary, hok⟩, hfree⟩ | ⟨e, he, hb, herr⟩ := ends_pass ho hnames hm hhealthy h
  · refine ⟨⟨fun _ => hfree, fun _ => ⟨summary, hok⟩⟩, fun error herror => ?_⟩
    exact absurd (hok.symm.trans herror) (fun h => nomatch h)
  · refine ⟨⟨?_, fun hfree => absurd hb (hfree e he)⟩, fun error herror => ?_⟩
    · rintro ⟨summary, hok⟩
      exact absurd (hok.symm.trans herr) (fun h => nomatch h)
    · exact ⟨e, he, hb, Except.error.inj (herror.symm.trans herr)⟩

section Site

attribute [local irreducible] pass

/-- An object without labels, where the site's component is about to move. -/
def squatter : Object :=
  { materialize .helm site { name := "web", ns := "two", spec := chart "1" } with
    metadata := { name := some "web", ns := some "two" } }

def squatted : Host := ((Session.createNew squatter).run (charted site siteBefore vacant).2).2

theorem charted_healthy (owner : Owner) (spec : SetSpec) : (charted owner spec vacant).2.memory.Healthy := by
  obtain ⟨_, h⟩ := Session.runs_run (pass .helm owner spec.helm .background) vacant
  exact h.healthy rfl

/-- Nothing is where the site's component is about to move, and it moves. -/
theorem unbarred_pass_succeeds :
    site.Plain ∧ (siteAfter.helm.map Entry.name).Nodup ∧ (charted site siteBefore vacant).2.memory.Filed
      ∧ (charted site siteBefore vacant).2.memory.Healthy
      ∧ ∃ summary, (charted site siteAfter (charted site siteBefore vacant).2).1 = .ok summary := by
  have hnames : (siteAfter.helm.map Entry.name).Nodup := by decide
  have hempty : ∀ e ∈ siteAfter.helm,
      ((charted site siteBefore vacant).2.memory.objects.find? (place .helm site e)).isNone = true := by
    decide +kernel
  have hfree : ∀ e ∈ siteAfter.helm, ¬Barred .helm site (charted site siteBefore vacant).2.memory e := by
    intro e he hb
    obtain ⟨o, hf, -⟩ := hb.occupied
    have hnone := hempty e he
    rw [hf] at hnone
    cases hnone
  have hfiled := charted_filed site siteBefore
  have hhealthy := charted_healthy site siteBefore
  exact ⟨site_plain, hnames, hfiled, hhealthy,
    (pass_succeeds_iff site_plain hnames hfiled hhealthy).1.2 hfree⟩

/-- The pass deletes the component that is to move, and then finds its place taken. -/
theorem squatted_pass_fails :
    site.Plain ∧ (siteAfter.helm.map Entry.name).Nodup
      ∧ (∀ e ∈ siteAfter.helm, e.name ≠ "" ∧ site.targetNs e ≠ "")
      ∧ squatted.memory.Filed ∧ squatted.memory.Healthy
      ∧ (charted site siteAfter squatted).1 = .error (.alreadyExists "HelmAddon two/web") := by
  obtain ⟨_, hsquat⟩ := Session.runs_run (Session.createNew squatter) (charted site siteBefore vacant).2
  refine ⟨site_plain, by decide, by decide, hsquat.filed (charted_filed site siteBefore),
    hsquat.healthy (charted_healthy site siteBefore), ?_⟩
  have hchecked : (match (charted site siteAfter squatted).1 with
    | .error e => decide (e = .alreadyExists "HelmAddon two/web")
    | .ok _ => false) = true := by
    decide +kernel
  cases hresult : (charted site siteAfter squatted).1 with
  | ok summary =>
    rw [hresult] at hchecked
    cases hchecked
  | error e =>
    rw [hresult] at hchecked
    rw [of_decide_eq_true hchecked]

end Site

end Addons.Reconcile
