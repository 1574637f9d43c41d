import Addons.Proofs.Composite.Idempotence
import Addons.Proofs.Composite.Isolation
import Addons.Proofs.Store.Stamps

/-!
# What a pass says that it did

The summary of a pass that succeeds accounts for what the journal has of its components
(`Reconcile.summaries_account`). Every entry is listed once, as what became of it, and the journal has of it what
that takes: nothing, a creation, an update, or a deletion followed by a creation (`Reconcile.Recorded`); after the
entries come the deletions. The lists say no more than names: two entries can be listed under one
(`Reconcile.label_listed_twice`), unless no name has a slash in it (`Reconcile.name_eq_of_shown`).
-/

namespace Addons

/-! ## Notes of a kind -/

namespace Memory

variable {kind : String} {m m₁ m' : Memory} {ds ds' : List Change} {es : List Event}

/-- The journal has grown, by these changes of objects of a kind and by changes of other objects. -/
def Adds (kind : String) (m : Memory) (ds : List Change) (m' : Memory) : Prop :=
  ∃ cs, m'.journal = m.journal ++ cs ∧ (cs.filter fun c => c.key.type.kind = kind) = ds

theorem Adds.nil (h : m'.journal = m.journal) : m.Adds kind [] m' := ⟨[], by rw [h, List.append_nil], rfl⟩

theorem Adds.trans (h : m.Adds kind ds m₁) (h' : m₁.Adds kind ds' m') : m.Adds kind (ds ++ ds') m' := by
  obtain ⟨cs, hcs, rfl⟩ := h
  obtain ⟨cs', hcs', rfl⟩ := h'
  exact ⟨cs ++ cs', by rw [hcs', hcs, List.append_assoc], List.filter_append ..⟩

theorem Adds.of_journal (h : m'.journal = m.journal ++ ds) (hkind : ∀ c ∈ ds, c.key.type.kind = kind) :
    m.Adds kind ds m' :=
  ⟨ds, h, List.filter_eq_self.2 fun c hc => decide_eq_true (hkind c hc)⟩

/-- What the journal has grown by is one thing. -/
theorem Adds.unique (h : m.Adds kind ds m') (h' : m.Adds kind ds' m') : ds = ds' := by
  obtain ⟨cs, hcs, rfl⟩ := h
  obtain ⟨cs', hcs', rfl⟩ := h'
  rw [List.append_cancel_left (hcs.symm.trans hcs')]

/-- Deeds that are noted of objects of other kinds. -/
theorem Noted.adds_nil (h : m.Noted (fun _ c => c.key.type.kind ≠ kind) es m') : m.Adds kind [] m' := by
  obtain ⟨cs, hcs, hkinds⟩ := h
  refine ⟨cs, hcs, List.filter_eq_nil_iff.2 fun c hc => ?_⟩
  obtain ⟨_, -, hkind⟩ := (mem_of_forall₂ hkinds).2 c hc
  simpa using hkind

/-- A single deed is noted once. -/
theorem Noted.journal_single {d : Deed} {c : Change} (h : m.Noted (fun _ c' => c' = c) [some d] m') :
    m'.journal = m.journal ++ [c] := by
  obtain ⟨cs, hcs, hnotes⟩ := h
  obtain ⟨c', cs', rfl, hnone, rfl⟩ := List.forall₂_cons_left_iff.1 hnotes
  obtain rfl := List.forall₂_nil_left_iff.1 hnone
  exact hcs

end Memory

namespace Session

variable {m m' : Memory} {es : List Event} {k : Key}

theorem runs_find?_unnoted {a : Except Error (Option Object)} (h : (Session.find? k).Runs m es a m') :
    m'.journal = m.journal := by
  obtain ⟨rfl, -⟩ := runs_find? h
  exact (does_find? (P := fun _ _ => True) k [] a m' h).journal_eq

theorem runs_listAll_unnoted {t : TypeRef} {ns sel : Option String} {a : Except Error (List Object)}
    (h : (listAll t ns sel).Runs m es a m') : m'.journal = m.journal := by
  obtain ⟨r, g, m₁, hr, -, -, rfl⟩ := h
  have hserved : (m.list t ns sel).2.journal = m.journal := by
    unfold Memory.list Memory.request
    dsimp only
    split <;> rfl
  cases hr with
  | served => exact hserved
  | refused _ => rfl
  | lost _ => exact hserved

/-- A creation that has succeeded is noted. -/
theorem runs_createNew_noted {o stored : Object} (hk : o.key = .ok k)
    (h : (createNew o).Runs m es (.ok stored) m') : m'.journal = m.journal ++ [.create k] := by
  obtain ⟨_, -, -, rfl, -⟩ := runs_createNew_ok h
  refine (does_createNew (P := fun _ c => c = .create k) ?_ _ _ _ h).journal_single
  intro k' _ hk' _
  rw [Except.ok.inj (hk.symm.trans hk')]

/-- A deletion that has succeeded of an object that was there is noted. -/
theorem runs_removeIfExists_noted {p : Propagation} {existed : Bool} {o : Object} (ho : m.object? k = some o)
    (h : (removeIfExists k p).Runs m es (.ok existed) m') : m'.journal = m.journal ++ [.delete k] := by
  obtain ⟨-, -, ⟨-, hnone⟩ | ⟨_, he⟩⟩ | ⟨rfl, -, -⟩ := runs_removeIfExists h
  · rw [ho] at hnone
    cases hnone
  · cases he
  · exact (does_removeIfExists (P := fun _ c => c = .delete k) rfl _ _ _ h).journal_single

/-- Seeing to a namespace is noted of namespaces only. -/
theorem adds_ensureNamespace {kind name : String} {a : Except Error Bool} (hkind : kind ≠ "Namespace")
    (h : (ensureNamespace name).Runs m es a m') : m.Adds kind [] m' := by
  have hdoes : (ensureNamespace name).Does (fun _ c => c.key.type.kind ≠ kind) m := by
    unfold ensureNamespace
    refine (does_find? _).bind fun _ o? m₁ _ => ?_
    cases o? with
    | some o => exact does_done _
    | none =>
      refine (does_createNew fun key _ hkey _ => ?_).attempt.bind fun _ r _ _ => ?_
      · obtain rfl := Except.ok.inj ((key_namespaceObject name).symm.trans hkey)
        exact hkind.symm
      · cases r with
        | ok _ => exact does_done _
        | error e =>
          dsimp only
          split <;> exact does_done _
  exact (hdoes es a m' h).adds_nil

end Session

/-- The entries that a summary lists as what became of them. -/
def Summary.listOf (s : Summary) : EntryOutcome → List String
  | .created => s.created
  | .updated => s.updated
  | .unchanged => s.unchanged
  | .moved => s.moved

@[simp] theorem Summary.listOf_append (s t : Summary) (outcome : EntryOutcome) :
    (s ++ t).listOf outcome = s.listOf outcome ++ t.listOf outcome := by
  cases outcome <;> rfl

@[simp] theorem Summary.deleted_append (s t : Summary) : (s ++ t).deleted = s.deleted ++ t.deleted := rfl

theorem Summary.listOf_ofEntry (became outcome : EntryOutcome) (label : String) :
    (Summary.ofEntry became label).listOf outcome = if became = outcome then [label] else [] := by
  cases became <;> cases outcome <;> rfl

namespace Reconcile

section Kind

variable {π σ : Type} {k : ComponentKind π σ} {owner : Owner} {propagation : Propagation} {m m' : Memory}
  {es : List Event} {entries done : List (Entry π)} {e e' : Entry π} {left left' : List Object}
  {summary : Summary} {outcome : EntryOutcome} {cs : List Change}

/-! ## One entry -/

variable (k owner) in
/-- What the journal has of an entry, by what became of it. -/
inductive Recorded (e : Entry π) : EntryOutcome → List Change → Prop
  | created : Recorded e .created [.create (keyOf k owner e)]
  | updated : Recorded e .updated [.update (keyOf k owner e)]
  | unchanged : Recorded e .unchanged []
  /-- What had the name of the entry in another namespace is deleted first. -/
  | moved {old : Key} : old.type.group = k.resource.type.group → old.type.kind = k.resource.kind →
      old.name = e.name → old.ns ≠ some (owner.targetNs e) →
      Recorded e .moved [.delete old, .create (keyOf k owner e)]

theorem Recorded.kind (h : Recorded k owner e outcome cs) : ∀ c ∈ cs, c.key.type.kind = k.resource.kind := by
  have hkey : (keyOf k owner e).type.kind = k.resource.kind := rfl
  cases h with
  | created | updated =>
    intro c hc
    obtain rfl := List.mem_singleton.1 hc
    exact hkey
  | unchanged => exact fun c hc => absurd hc List.not_mem_nil
  | moved _ hkind _ _ =>
    simp only [List.forall_mem_cons]
    exact ⟨hkind, hkey, fun c hc => absurd hc List.not_mem_nil⟩

/-- Nothing is noted of an entry exactly if it is unchanged. -/
theorem Recorded.eq_nil_iff (h : Recorded k owner e outcome cs) : cs = [] ↔ outcome = .unchanged := by
  cases h <;> simp

/-- What is done to an object in the namespace of an entry is noted. -/
theorem recorded_here {o : Object} (hns : o.metadata.ns = some (owner.targetNs e))
    (h : (applyTo propagation (materialize k owner e) (owner.targetNs e) (some o)).Runs m es (.ok outcome) m') :
    ∃ cs, Recorded k owner e outcome cs ∧ m'.journal = m.journal ++ cs := by
  unfold applyTo at h
  dsimp only at h
  rw [if_pos hns] at h
  by_cases hcurrent : isCurrent (materialize k owner e) o
  · rw [if_pos hcurrent] at h
    obtain ⟨-, hout, rfl⟩ := h
    obtain rfl := Except.ok.inj hout
    exact ⟨_, .unchanged, (List.append_nil _).symm⟩
  · rw [if_neg hcurrent] at h
    obtain ⟨_, m₁, _, _, hreplace, -, hout, rfl⟩ := Session.runs_bind_ok h
    obtain rfl := Except.ok.inj hout
    obtain ⟨key, hkey, hnoted⟩ := Session.runs_replace_noted hreplace
    obtain rfl := Except.ok.inj ((key_materialize e).symm.trans hkey)
    exact ⟨_, .updated, hnoted⟩

/-- An object in another namespace is deleted and created anew, and both is noted. -/
theorem recorded_moved {o : Object} {old : Key} (hold : o.key = .ok old) (ho : m.object? old = some o)
    (hgroup : old.type.group = k.resource.type.group) (hkind : old.type.kind = k.resource.kind)
    (hname : old.name = e.name) (hns : o.metadata.ns ≠ some (owner.targetNs e))
    (h : (applyTo propagation (materialize k owner e) (owner.targetNs e) (some o)).Runs m es (.ok outcome) m') :
    ∃ cs, Recorded k owner e outcome cs ∧ m'.journal = m.journal ++ cs := by
  unfold applyTo at h
  dsimp only at h
  rw [if_neg hns] at h
  obtain ⟨old', hold', h⟩ | ⟨_, -, -, he, -⟩ := Session.runs_lift_bind.1 h
  swap
  · cases he
  obtain rfl := Except.ok.inj (hold.symm.trans hold')
  obtain ⟨_, m₁, _, _, hremove, h⟩ := Session.runs_bind_ok h
  obtain ⟨_, m₂, _, _, hcreate, -, hout, rfl⟩ := Session.runs_bind_ok h
  obtain rfl := Except.ok.inj hout
  have haway : old.ns ≠ some (owner.targetNs e) := (Object.of_key_eq_ok hold).2.2 ▸ hns
  refine ⟨_, .moved hgroup hkind hname haway, ?_⟩
  rw [Session.runs_createNew_noted (key_materialize e) hcreate, Session.runs_removeIfExists_noted ho hremove,
    List.append_assoc]
  rfl

/-- What is done to the object that stands for an entry is noted. -/
theorem recorded_applyTo {taken : Option (Slot × Object)} (hm : m.Filed)
    (hlive : ∀ t, taken = some t → m.objects.find? t.1 = some t.2 ∧ t.1.group = k.resource.type.group
      ∧ t.1.kind = k.resource.kind ∧ t.1.name = e.name)
    (h : (applyTo propagation (materialize k owner e) (owner.targetNs e) (taken.map Prod.snd)).Runs m es
      (.ok outcome) m') : ∃ cs, Recorded k owner e outcome cs ∧ m'.journal = m.journal ++ cs := by
  cases taken with
  | none =>
    obtain ⟨_, m₁, _, _, hcreate, -, hout, rfl⟩ := Session.runs_bind_ok h
    obtain rfl := Except.ok.inj hout
    exact ⟨_, .created, Session.runs_createNew_noted (key_materialize e) hcreate⟩
  | some t =>
    obtain ⟨s, o⟩ := t
    obtain ⟨hf, hgroup, hkind, hname⟩ := hlive _ rfl
    obtain ⟨key, hkey, rfl⟩ := hm.key_of_find? hf
    by_cases hns : o.metadata.ns = some (owner.targetNs e)
    · exact recorded_here hns h
    · exact recorded_moved hkey hf hgroup hkind hname hns h

theorem adds_applyEntry (hkind : k.resource.kind ≠ "Namespace") (ho : owner.Plain) (hm : m.Filed)
    (ht : Threaded k owner done left m)
    (h : (applyEntry k owner propagation left e).Runs m es (.ok (outcome, left')) m') :
    ∃ cs, Recorded k owner e outcome cs ∧ m.Adds k.resource.kind cs m' := by
  rw [applyEntry_eq] at h
  obtain ⟨_, m₁, _, _, hns, h⟩ := Session.runs_bind_ok h
  have hm₁ := hns.filed hm
  have ht₁ := ht.congr fun s hgroup _ => Session.runs_ensureNamespace hns (ne_namespace hgroup)
  obtain ⟨existing, m₂, _, _, htake, h⟩ := Session.runs_bind_ok h
  obtain ⟨hobjects, taken, rfl, htaking⟩ := runs_take ho hm₁ ht₁ htake
  obtain ⟨outcome', m₃, _, _, happly, -, heq, rfl⟩ := Session.runs_bind_ok h
  obtain ⟨rfl, -⟩ := Prod.mk.inj (Except.ok.inj heq)
  have hlive := htaking.live
  rw [← hobjects] at hlive
  obtain ⟨cs, hrecorded, hjournal⟩ := recorded_applyTo (htake.filed hm₁) hlive happly
  have hlooked : m₂.journal = m₁.journal := by
    unfold standing at htake
    split at htake
    · obtain ⟨-, -, rfl⟩ := htake
      rfl
    · exact Session.runs_find?_unnoted htake
  rw [hlooked] at hjournal
  exact ⟨cs, hrecorded, (Session.adds_ensureNamespace hkind hns).trans (.of_journal hjournal hrecorded.kind)⟩

/-! ## All entries -/

variable (π) in
/-- An entry, with what became of it and what is noted of that. -/
structure Item where
  entry : Entry π
  outcome : EntryOutcome
  changes : List Change

variable (k owner) in
/-- The names of the entries that became the same, in their order. -/
def labels (items : List (Item π)) (outcome : EntryOutcome) : List String :=
  (items.filter fun i => i.outcome = outcome).map fun i => shown k owner i.entry

theorem labels_cons (i : Item π) (items : List (Item π)) (outcome : EntryOutcome) :
    labels k owner (i :: items) outcome
      = (if i.outcome = outcome then [shown k owner i.entry] else []) ++ labels k owner items outcome := by
  unfold labels
  rw [List.filter_cons]
  by_cases h : i.outcome = outcome <;> simp [h]

theorem adds_applyEntries (hkind : k.resource.kind ≠ "Namespace") (ho : owner.Plain) (hm : m.Filed)
    (ht : Threaded k owner done left m) (hplaces : ((done ++ entries).map (place k owner)).Nodup)
    (h : (applyEntries k owner propagation left entries).Runs m es (.ok (summary, left')) m') :
    ∃ items : List (Item π), items.map Item.entry = entries
      ∧ (∀ i ∈ items, Recorded k owner i.entry i.outcome i.changes)
      ∧ (∀ outcome, summary.listOf outcome = labels k owner items outcome) ∧ summary.deleted = []
      ∧ m.Adds k.resource.kind (items.flatMap Item.changes) m' := by
  induction entries generalizing done left m es summary with
  | nil =>
    obtain ⟨-, heq, rfl⟩ := h
    obtain ⟨rfl, -⟩ := Prod.mk.inj (Except.ok.inj heq)
    refine ⟨[], rfl, fun i hi => absurd hi List.not_mem_nil, fun outcome => ?_, rfl, .nil rfl⟩
    cases outcome <;> rfl
  | cons e entries ih =>
    rw [applyEntries] at h
    obtain ⟨⟨outcome, left₁⟩, m₁, _, _, hentry, h⟩ := Session.runs_bind_ok h
    obtain ⟨⟨summary', left₂⟩, m₂, _, _, hrest, -, heq, rfl⟩ := Session.runs_bind_ok h
    obtain ⟨rfl, rfl⟩ := Prod.mk.inj (Except.ok.inj heq)
    have hnew : ∀ e' ∈ done, place k owner e' ≠ place k owner e := by
      intro e' he' hplace
      rw [List.map_append, List.nodup_append] at hplaces
      exact hplaces.2.2 _ (List.mem_map_of_mem he') _ (List.mem_map_of_mem List.mem_cons_self) hplace
    have hentered := runs_applyEntry_ok ho hm ht hentry
    rw [List.append_cons] at hplaces
    obtain ⟨items, hitems, hrecorded, hlists, hdeleted, hadds⟩ :=
      ih (hentry.filed hm) (hentered.threaded ht hnew) hplaces hrest
    obtain ⟨cs, hrecorded', hadds'⟩ := adds_applyEntry hkind ho hm ht hentry
    refine ⟨⟨e, outcome, cs⟩ :: items, congrArg (e :: ·) hitems, List.forall_mem_cons.2 ⟨hrecorded', hrecorded⟩,
      fun outcome' => ?_, ?_, hadds'.trans hadds⟩
    · rw [Summary.listOf_append, Summary.listOf_ofEntry, hlists, labels_cons]
      rfl
    · rw [Summary.deleted_append, hdeleted, List.append_nil]
      cases outcome <;> rfl

/-- Every candidate that is left is deleted, and that is noted. -/
theorem adds_sweep (hm : m.Filed) (ht : Threaded k owner done left m)
    (h : (sweep propagation left).Runs m es (.ok summary) m') :
    ∃ gone : List Key, List.Forall₂ (fun o key => o.key = .ok key) left gone
      ∧ (∀ outcome, summary.listOf outcome = []) ∧ summary.deleted = gone.map Key.display
      ∧ m.Adds k.resource.kind (gone.map Change.delete) m' := by
  induction left generalizing m es summary with
  | nil =>
    obtain ⟨-, hsummary, rfl⟩ := h
    obtain rfl := Except.ok.inj hsummary
    exact ⟨[], .nil, fun outcome => by cases outcome <;> rfl, rfl, .nil rfl⟩
  | cons o left ih =>
    rw [sweep] at h
    obtain ⟨s, hf, howned, -⟩ := ht.live o List.mem_cons_self
    obtain ⟨key, hkey, rfl⟩ := hm.key_of_find? hf
    obtain ⟨key', hkey', h⟩ | ⟨_, -, -, he, -⟩ := Session.runs_lift_bind.1 h
    swap
    · cases he
    obtain rfl := Except.ok.inj (hkey.symm.trans hkey')
    obtain ⟨_, m₁, _, _, hremove, h⟩ := Session.runs_bind_ok h
    obtain ⟨summary', m₂, _, _, hrest, -, hsummary, rfl⟩ := Session.runs_bind_ok h
    obtain rfl := Except.ok.inj hsummary
    have hm₁ := Session.runs_removeIfExists_ok hf hremove
    have ht₁ := ht.drop hm hf (by rw [hm₁]; exact Table.find?_erase_self _ _) fun s hs => by
      rw [hm₁, Table.find?_erase_ne hs]
    obtain ⟨gone, hgone, hlists, hdeleted, hadds⟩ := ih (hremove.filed hm) ht₁ hrest
    have hnoted := Session.runs_removeIfExists_noted hf hremove
    have hkind : ∀ c ∈ [Change.delete key], c.key.type.kind = k.resource.kind := fun c hc => by
      obtain rfl := List.mem_singleton.1 hc
      exact howned.2.1
    refine ⟨key :: gone, .cons hkey hgone, fun outcome => ?_, ?_, (Memory.Adds.of_journal hnoted hkind).trans hadds⟩
    · rw [Summary.listOf_append, hlists, List.append_nil]
      cases outcome <;> rfl
    · rw [Summary.deleted_append, hdeleted]
      rfl

/-! ## Names -/

/-- An entry whose name has no slash in it is shown under no other name. -/
theorem name_eq_of_shown (he : '/' ∉ e.name.toList) (he' : '/' ∉ e'.name.toList)
    (h : shown k owner e = shown k owner e') : e.name = e'.name := by
  have hsplit : ∀ e : Entry π, '/' ∉ e.name.toList → ∃ before,
      Text.splitLast? '/' (shown k owner e).toList = some (before, e.name.toList) := by
    intro e he
    have hshown : (shown k owner e).toList
        = (k.resource.kind ++ " " ++ owner.targetNs e).toList ++ '/' :: e.name.toList := by
      show (s!"{k.resource.kind} {owner.targetNs e}/{e.name}").toList = _
      simp [toString, String.toList_append]
    rw [hshown]
    exact ⟨_, Text.splitLast?_append _ he⟩
  obtain ⟨before, hbefore⟩ := hsplit e he
  obtain ⟨before', hbefore'⟩ := hsplit e' he'
  rw [h, hbefore'] at hbefore
  exact String.toList_inj.1 (Prod.mk.inj (Option.some.inj hbefore)).2.symm

variable {items : List (Item π)}

theorem mem_labels {label : String} :
    label ∈ labels k owner items outcome ↔ ∃ i ∈ items, i.outcome = outcome ∧ shown k owner i.entry = label := by
  simp only [labels, List.mem_map, List.mem_filter, decide_eq_true_eq, and_assoc]

theorem labels_eq_nil_iff : labels k owner items outcome = [] ↔ ∀ i ∈ items, i.outcome ≠ outcome := by
  simp only [labels, List.map_eq_nil_iff, List.filter_eq_nil_iff, decide_eq_true_eq, ne_eq]

theorem labels_sublist : (labels k owner items outcome).Sublist ((items.map Item.entry).map (shown k owner)) := by
  rw [List.map_map]
  exact List.filter_sublist.map _

variable (k owner items) in
/-- Every entry became one of four things. -/
theorem length_labels : (labels k owner items .created).length + (labels k owner items .updated).length
    + (labels k owner items .unchanged).length + (labels k owner items .moved).length = items.length := by
  induction items with
  | nil => rfl
  | cons i items ih =>
    simp only [labels_cons, List.length_append, List.length_cons]
    cases i.outcome <;> simp <;> omega

/-- An entry that no other shares its name with is listed as one thing. -/
theorem existsUnique_listed (hnodup : (items.map Item.entry).Nodup)
    (hlists : ∀ outcome, summary.listOf outcome = labels k owner items outcome) (he : e ∈ items.map Item.entry)
    (halone : ∀ e' ∈ items.map Item.entry, shown k owner e' = shown k owner e → e' = e) :
    ∃! outcome, shown k owner e ∈ summary.listOf outcome := by
  obtain ⟨i, hi, rfl⟩ := List.mem_map.1 he
  simp only [hlists]
  refine ⟨i.outcome, mem_labels.2 ⟨i, hi, rfl, rfl⟩, fun outcome hlisted => ?_⟩
  obtain ⟨i', hi', rfl, hshown⟩ := mem_labels.1 hlisted
  have hsame := halone _ (List.mem_map_of_mem hi') hshown
  rw [List.inj_on_of_nodup_map hnodup hi' hi hsame]

/-! ## The account -/

variable (k owner) in
/-- The summary of a pass accounts for what the journal has grown by. -/
structure Accounts (entries : List (Entry π)) (summary : Summary) (m m' : Memory) : Prop where
  /-- Every entry is listed as what became of it, and noted accordingly. What is deleted then was a component. -/
  noted : ∃ (items : List (Item π)) (gone : List Key), items.map Item.entry = entries
    ∧ (∀ i ∈ items, Recorded k owner i.entry i.outcome i.changes)
    ∧ (∀ key ∈ gone, ∃ o ∈ components k owner m, o.key = .ok key)
    ∧ (∀ outcome, summary.listOf outcome = labels k owner items outcome)
    ∧ summary.deleted = gone.map Key.display
    ∧ m.Adds k.resource.kind (items.flatMap Item.changes ++ gone.map .delete) m'
  /-- An entry is in one list, where no other entry is shown under its name. -/
  once : ∀ e ∈ entries, (∀ e' ∈ entries, shown k owner e' = shown k owner e → e' = e) →
    ∃! outcome, shown k owner e ∈ summary.listOf outcome
  plain : (∀ e ∈ entries, '/' ∉ e.name.toList) → ∀ e ∈ entries, ∃! outcome, shown k owner e ∈ summary.listOf outcome
  declared : summary.declared = entries.length
  ordered : ∀ outcome, (summary.listOf outcome).Sublist (entries.map (shown k owner))
  /-- Nothing is listed as changed exactly if nothing was. -/
  noop : summary.isNoop ↔ m.Adds k.resource.kind [] m'

theorem isNoop_iff (summary : Summary) : summary.isNoop ↔
    (∀ outcome, outcome ≠ .unchanged → summary.listOf outcome = []) ∧ summary.deleted = [] := by
  simp only [Summary.isNoop, Bool.and_eq_true, List.isEmpty_iff]
  constructor
  · rintro ⟨⟨⟨hcreated, hupdated⟩, hmoved⟩, hdeleted⟩
    refine ⟨fun outcome hne => ?_, hdeleted⟩
    cases outcome with
    | created => exact hcreated
    | updated => exact hupdated
    | unchanged => exact absurd rfl hne
    | moved => exact hmoved
  · rintro ⟨hlists, hdeleted⟩
    exact ⟨⟨⟨hlists .created (by decide), hlists .updated (by decide)⟩, hlists .moved (by decide)⟩, hdeleted⟩

/-- A pass is shown as one that did nothing exactly if it noted nothing. -/
theorem isNoop_iff_adds_nil {gone : List Key} (hrecorded : ∀ i ∈ items, Recorded k owner i.entry i.outcome i.changes)
    (hlists : ∀ outcome, summary.listOf outcome = labels k owner items outcome)
    (hdeleted : summary.deleted = gone.map Key.display)
    (hadds : m.Adds k.resource.kind (items.flatMap Item.changes ++ gone.map .delete) m') :
    summary.isNoop ↔ m.Adds k.resource.kind [] m' := by
  rw [isNoop_iff, hdeleted, List.map_eq_nil_iff]
  have hnone : items.flatMap Item.changes = [] ↔ ∀ i ∈ items, i.outcome = .unchanged := by
    rw [List.flatMap_eq_nil_iff]
    exact forall₂_congr fun i hi => (hrecorded i hi).eq_nil_iff
  constructor
  · rintro ⟨hchanged, rfl⟩
    have hunchanged : ∀ i ∈ items, i.outcome = .unchanged := by
      intro i hi
      by_contra hne
      have hempty := hchanged _ hne
      rw [hlists, labels_eq_nil_iff] at hempty
      exact hempty i hi rfl
    rwa [hnone.2 hunchanged] at hadds
  · intro hnil
    obtain ⟨hitems, hgone⟩ := List.append_eq_nil_iff.1 (hadds.unique hnil)
    refine ⟨fun outcome hne => ?_, List.map_eq_nil_iff.1 hgone⟩
    rw [hlists, labels_eq_nil_iff]
    intro i hi houtcome
    exact hne (houtcome.symm.trans (hnone.1 hitems i hi))

theorem accounts_of_noted {gone : List Key} (hnames : ((items.map Item.entry).map Entry.name).Nodup)
    (hrecorded : ∀ i ∈ items, Recorded k owner i.entry i.outcome i.changes)
    (hgone : ∀ key ∈ gone, ∃ o ∈ components k owner m, o.key = .ok key)
    (hlists : ∀ outcome, summary.listOf outcome = labels k owner items outcome)
    (hdeleted : summary.deleted = gone.map Key.display)
    (hadds : m.Adds k.resource.kind (items.flatMap Item.changes ++ gone.map .delete) m') :
    Accounts k owner (items.map Item.entry) summary m m' := by
  have hnodup := List.Nodup.of_map _ hnames
  refine ⟨⟨items, gone, rfl, hrecorded, hgone, hlists, hdeleted, hadds⟩, fun e he => ?_, fun hplain e he => ?_, ?_,
    fun outcome => hlists outcome ▸ labels_sublist, isNoop_iff_adds_nil hrecorded hlists hdeleted hadds⟩
  · exact existsUnique_listed hnodup hlists he
  · refine existsUnique_listed hnodup hlists he fun e' he' hshown => ?_
    exact List.inj_on_of_nodup_map hnames he' he (name_eq_of_shown (hplain e' he') (hplain e he) hshown)
  · have hlength := length_labels k owner items
    simp only [← hlists] at hlength
    rw [List.length_map]
    exact hlength

theorem accounts_of_pass (hkind : k.resource.kind ≠ "Namespace") (ho : owner.Plain)
    (hnames : (entries.map Entry.name).Nodup) (hm : m.Filed)
    (h : (pass k owner entries propagation).Runs m es (.ok summary) m') : Accounts k owner entries summary m m' := by
  unfold pass at h
  obtain ⟨installed, m₁, _, _, hlist, h⟩ := Session.runs_bind_ok h
  obtain ⟨⟨applied, left⟩, m₂, _, _, happly, h⟩ := Session.runs_bind_ok h
  obtain ⟨swept, m₃, _, _, hsweep, -, hsummary, rfl⟩ := Session.runs_bind_ok h
  obtain rfl := Except.ok.inj hsummary
  obtain ⟨-, hm₁, hinstalled⟩ := Session.runs_listAll hlist
  obtain rfl := hinstalled _ rfl
  have hfiled := hlist.filed hm
  have ht : Threaded k owner [] (components k owner m) m₁ :=
    (Threaded.start ho.legible hm).congr fun s _ _ => by rw [hm₁]
  have hplaces : (entries.map (place k owner)).Nodup := nodup_places hnames
  obtain ⟨items, rfl, hrecorded, hlists, hnone, hadds⟩ := adds_applyEntries hkind ho hfiled ht hplaces happly
  obtain ⟨ht₂, -⟩ := runs_applyEntries ho hfiled ht hplaces happly
  obtain ⟨gone, hgone, hempty, hdeleted, hadds'⟩ := adds_sweep (happly.filed hfiled) ht₂ hsweep
  have hcomponents : ∀ key ∈ gone, ∃ o ∈ components k owner m, o.key = .ok key := by
    intro key hkey
    obtain ⟨o, ho, hokey⟩ := (mem_of_forall₂ hgone).2 key hkey
    exact ⟨o, left_subset_of_entries happly ho, hokey⟩
  refine accounts_of_noted hnames hrecorded hcomponents (fun outcome => ?_) ?_ ?_
  · rw [Summary.listOf_append, hlists, hempty, List.append_nil]
  · rw [Summary.deleted_append, hnone, hdeleted, List.nil_append]
  · exact (Memory.Adds.nil (Session.runs_listAll_unnoted hlist)).trans (hadds.trans hadds')

end Kind

/-- For each kind of components, the summary of a pass that succeeds accounts for what the journal has of the kind:
every declared entry is listed once, as what became of it, and each change of a component is of one entry, or the
deletion of one component that is listed as deleted. -/
theorem summaries_account {owner : Owner} {m : Memory} {propagation : Propagation} (ho : owner.Plain) (hm : m.Filed) :
    (∀ entries es summary m', (entries.map Entry.name).Nodup →
        (pass .helm owner entries propagation).Runs m es (.ok summary) m' → Accounts .helm owner entries summary m m')
      ∧ (∀ entries es summary m', (entries.map Entry.name).Nodup →
        (pass .manifests owner entries propagation).Runs m es (.ok summary) m' →
          Accounts .manifests owner entries summary m m')
      ∧ ∀ entries es summary m', (entries.map Entry.name).Nodup →
        (pass .issuers owner entries propagation).Runs m es (.ok summary) m' →
          Accounts .issuers owner entries summary m m' :=
  ⟨fun _ _ _ _ hnames h => accounts_of_pass (by decide) ho hnames hm h,
    fun _ _ _ _ hnames h => accounts_of_pass (by decide) ho hnames hm h,
    fun _ _ _ _ hnames h => accounts_of_pass (by decide) ho hnames hm h⟩

section Site

attribute [local irreducible] pass

/-- One component moves, another one is deleted, and the journal says so. -/
theorem moved_and_deleted_accounted :
    site.Plain ∧ (siteAfter.helm.map Entry.name).Nodup ∧ (charted site siteBefore vacant).2.memory.Filed
      ∧ ∃ summary, (charted site siteAfter (charted site siteBefore vacant).2).1 = .ok summary
        ∧ (summary.moved = ["HelmAddon two/web"] ∧ summary.deleted = ["HelmAddon infra/old"])
        ∧ Accounts .helm site siteAfter.helm summary (charted site siteBefore vacant).2.memory
          (charted site siteAfter (charted site siteBefore vacant).2).2.memory := by
  have hchecked : ((charted site siteAfter (charted site siteBefore vacant).2).1.toOption.any fun summary =>
      decide (summary.moved = ["HelmAddon two/web"] ∧ summary.deleted = ["HelmAddon infra/old"])) = true := by
    decide +kernel
  obtain ⟨summary, hok, hlists⟩ := ok_of_any hchecked
  obtain ⟨es, hafter⟩ :=
    Session.runs_run (pass .helm site siteAfter.helm .background) (charted site siteBefore vacant).2
  have hfiled := charted_filed site siteBefore
  have hnames : (siteAfter.helm.map Entry.name).Nodup := by decide
  rw [show ((pass .helm site siteAfter.helm .background).run _).1 = _ from hok] at hafter
  exact ⟨site_plain, hnames, hfiled, summary, hok, of_decide_eq_true hlists,
    (summaries_account site_plain hfiled).1 _ _ _ _ hnames hafter⟩

/-- A component in a namespace with a slash in it. -/
def slashedBefore : SetSpec :=
  { helm := [{ name := "c", ns := "a/b", spec := chart "1" }] }

/-- The same, and one whose name takes the slash. -/
def slashedAfter : SetSpec :=
  { helm := [{ name := "c", ns := "a/b", spec := chart "1" }, { name := "b/c", ns := "a", spec := chart "1" }] }

/-- Two entries with names of their own are shown under one, which is listed as unchanged and as created. -/
theorem label_listed_twice :
    site.Plain ∧ (slashedAfter.helm.map Entry.name).Nodup ∧ (charted site slashedBefore vacant).2.memory.Filed
      ∧ ∃ summary, (charted site slashedAfter (charted site slashedBefore vacant).2).1 = .ok summary
        ∧ "HelmAddon a/b/c" ∈ summary.unchanged ∧ "HelmAddon a/b/c" ∈ summary.created
        ∧ ¬∀ e ∈ slashedAfter.helm, ∃! outcome, shown .helm site e ∈ summary.listOf outcome := by
  have hchecked : ((charted site slashedAfter (charted site slashedBefore vacant).2).1.toOption.any fun summary =>
      decide ("HelmAddon a/b/c" ∈ summary.unchanged ∧ "HelmAddon a/b/c" ∈ summary.created)) = true := by
    decide +kernel
  obtain ⟨summary, hok, hlisted⟩ := ok_of_any hchecked
  obtain ⟨hunchanged, hcreated⟩ := of_decide_eq_true hlisted
  have hshown : ∀ e ∈ slashedAfter.helm, shown .helm site e = "HelmAddon a/b/c" := by decide
  refine ⟨site_plain, by decide, charted_filed site slashedBefore, summary, hok, hunchanged, hcreated,
    fun honce => ?_⟩
  obtain ⟨outcome, -, hunique⟩ := honce _ List.mem_cons_self
  rw [hshown _ List.mem_cons_self] at hunique
  have hsame : EntryOutcome.unchanged = .created :=
    (hunique .unchanged hunchanged).trans (hunique .created hcreated).symm
  cases hsame

end Site

end Reconcile

end Addons
