import Addons.Proofs.Composite.Owned

/-!
# A pass over the components of one kind

`Reconcile.Threaded` is what holds between two entries of a pass: a component stands for every entry that is
done, and each other component of the owner is still a candidate, live and as it was listed, at a place that
no entry has taken. Applying an entry keeps it (`Threaded.step`) and so does the deletion of a candidate
(`Threaded.drop`). When the candidates are gone, the components of the owner are those that the entries ask
for (`runs_pass`).
-/

namespace Addons

/-- Of a filed store one object is in one slot. -/
theorem Memory.Filed.slot_unique {m : Memory} {s s' : Slot} {o : Object} (hm : m.Filed)
    (h : m.objects.find? s = some o) (h' : m.objects.find? s' = some o) : s = s' := by
  obtain ⟨k, hk, rfl⟩ := hm.key_of_find? h
  obtain ⟨k', hk', rfl⟩ := hm.key_of_find? h'
  rw [Except.ok.inj (hk.symm.trans hk')]

/-- No object is listed twice. -/
theorem Memory.Filed.nodup_listing {m : Memory} (hm : m.Filed) (t : TypeRef) (ns sel : Option String) :
    (m.listing t ns sel).Nodup := by
  unfold listing
  have hnodup : m.objects.Nodup := List.Nodup.of_map _ hm.sorted.nodup_keys
  refine List.Nodup.map_on ?_ (hnodup.filter _)
  rintro ⟨s, o⟩ he ⟨s', o'⟩ he' (rfl : o = o')
  rw [hm.slot_unique (hm.mem_iff.1 (List.mem_filter.1 he).1) (hm.mem_iff.1 (List.mem_filter.1 he').1)]

namespace Session

variable {m m' : Memory} {es : List Event}

theorem key_namespaceObject (name : String) : (namespaceObject name).key = .ok (namespaceKey name) := rfl

/-- Seeing to a namespace touches nothing but that namespace. -/
theorem runs_ensureNamespace {name : String} {a : Except Error Bool}
    (h : (ensureNamespace name).Runs m es a m') {s : Slot} (hs : s ≠ (namespaceKey name).slot) :
    m'.objects.find? s = m.objects.find? s := by
  have hcreate : ∀ {m m' : Memory} {es : List Event} {a : Except Error Object},
      (createNew (namespaceObject name)).Runs m es a m' → m'.objects.find? s = m.objects.find? s := by
    intro m m' es a h
    obtain ⟨-, hm, -⟩ | ⟨k, stored, hk, -, -, -, hm, -⟩ := runs_createNew h
    · rw [hm]
    · obtain rfl := Except.ok.inj hk
      rw [hm]
      exact Table.find?_insert_ne hs _ _
  unfold ensureNamespace at h
  obtain ⟨o?, m₁, es₁, es₂, h₁, -, h⟩ | ⟨e, h, -⟩ := runs_bind.1 h
  · rw [← (runs_find? h₁).2.1]
    cases o? with
    | some o =>
      obtain ⟨-, -, rfl⟩ := h
      rfl
    | none =>
      obtain ⟨r, m₂, es₃, es₄, h₃, -, h⟩ | ⟨e, h, -⟩ := runs_bind.1 h
      · obtain ⟨r', -, h₃⟩ := runs_attempt.1 h₃
        rw [← hcreate h₃]
        cases r with
        | ok o =>
          obtain ⟨-, -, rfl⟩ := h
          rfl
        | error e =>
          dsimp only at h
          split at h
          · obtain ⟨-, -, rfl⟩ := h
            rfl
          · obtain ⟨-, -, rfl⟩ := h
            rfl
      · obtain ⟨r', -, h⟩ := runs_attempt.1 h
        exact hcreate h
  · rw [(runs_find? h).2.1]

/-- A namespace that was seen to is there. -/
theorem runs_ensureNamespace_ok {name : String} {existed : Bool}
    (h : (ensureNamespace name).Runs m es (.ok existed) m') : m'.object? (namespaceKey name) ≠ none := by
  unfold ensureNamespace at h
  obtain ⟨o?, m₁, _, _, hfind, h⟩ := runs_bind_ok h
  obtain ⟨-, hm₁, hfound⟩ := runs_find? hfind
  have hlive : m₁.object? (namespaceKey name) = o? := (Memory.object?_congr hm₁ _).trans (hfound o? rfl)
  cases o? with
  | some o =>
    obtain ⟨-, -, rfl⟩ := h
    rw [hlive]
    exact Option.some_ne_none o
  | none =>
    obtain ⟨r, m₂, _, _, hattempt, h⟩ := runs_bind_ok h
    obtain ⟨_, ⟨rfl⟩, hcreate⟩ := runs_attempt.1 hattempt
    cases r with
    | ok stored =>
      obtain ⟨-, -, rfl⟩ := h
      obtain ⟨key, hkey, -, -, hm⟩ := runs_createNew_ok hcreate
      obtain rfl := Except.ok.inj ((key_namespaceObject name).symm.trans hkey)
      rw [Memory.object?_of_insert hm]
      exact Option.some_ne_none stored
    | error e =>
      dsimp only at h
      by_cases he : e.isAlreadyExists
      · exact absurd hlive (runs_createNew_exists (key_namespaceObject name) hcreate he)
      · rw [if_neg he] at h
        obtain ⟨-, hr, -⟩ := h
        cases hr

end Session

namespace Reconcile

variable {π σ : Type}

/-! ## Taking a candidate -/

theorem perm_eraseP {α : Type} {p : α → Bool} {l : List α} {a : α} (h : l.find? p = some a) :
    l.Perm (a :: l.eraseP p) := by
  induction l with
  | nil => cases h
  | cons b l ih =>
    cases hb : p b with
    | true =>
      rw [List.find?_cons_of_pos hb] at h
      rw [List.eraseP_cons_of_pos hb, Option.some.inj h]
    | false =>
      rw [List.find?_cons_of_neg (by rw [hb]; exact Bool.false_ne_true)] at h
      rw [List.eraseP_cons_of_neg (by rw [hb]; exact Bool.false_ne_true)]
      exact ((ih h).cons b).trans (List.Perm.swap a b _)

/-- No candidate has the name, or one is taken that has it, in the namespace if any of them is there. -/
theorem takeMatch_cases (name ns : String) (installed : List Object) :
    (takeMatch name ns installed = (none, installed) ∧ ∀ o ∈ installed, o.anyName ≠ name)
      ∨ ∃ o rest, takeMatch name ns installed = (some o, rest) ∧ installed.Perm (o :: rest)
        ∧ o.anyName = name
        ∧ (o.metadata.ns = some ns ∨ ∀ o' ∈ installed, o'.anyName = name → o'.metadata.ns ≠ some ns) := by
  unfold takeMatch
  dsimp only
  split
  · rename_i hany
    obtain ⟨o, hf⟩ := Option.isSome_iff_exists.1 (List.find?_isSome.2 (List.any_eq_true.1 hany))
    have hhere := List.find?_some hf
    rw [Bool.and_eq_true, decide_eq_true_iff, decide_eq_true_iff] at hhere
    exact .inr ⟨o, _, by rw [hf], perm_eraseP hf, hhere.1, .inl hhere.2⟩
  · rename_i hany
    cases hf : installed.find? fun o => decide (o.anyName = name) with
    | none =>
      have hnone : ∀ o ∈ installed, o.anyName ≠ name := fun o ho => by
        simpa using List.find?_eq_none.1 hf o ho
      refine .inl ⟨?_, hnone⟩
      rw [List.eraseP_of_forall_not fun o ho => by simpa using hnone o ho]
    | some o =>
      have hnamed := List.find?_some hf
      refine .inr ⟨o, _, rfl, perm_eraseP hf, of_decide_eq_true hnamed, .inr ?_⟩
      intro o' ho' hname hns
      exact hany (List.any_eq_true.2 ⟨o', ho', by simp [hname, hns]⟩)

section Pass

variable {k : ComponentKind π σ} {owner : Owner} {propagation : Propagation} {m m₁ m' : Memory}
  {es : List Event} {done : List (Entry π)} {e : Entry π} {left left' : List Object}
  {taken : Option (Slot × Object)}

variable (k owner) in
/-- What holds between two entries of a pass, with the candidates that are left. -/
structure Threaded (done : List (Entry π)) (left : List Object) (m : Memory) : Prop where
  stands : ∀ e ∈ done, ∃ o, m.objects.find? (place k owner e) = some o ∧ StandsFor k owner e o
  live : ∀ o ∈ left, ∃ s, m.objects.find? s = some o ∧ Owned k owner s o
    ∧ ∀ e ∈ done, place k owner e ≠ s
  /-- Every other component of the owner is a candidate. -/
  owned : ∀ s o, m.objects.find? s = some o → Owned k owner s o →
    (∃ e ∈ done, place k owner e = s) ∨ o ∈ left
  nodup : left.Nodup

variable (k owner) in
/-- How an entry takes the object that is to stand for it, from the candidates or else at its own place. -/
structure Taking (e : Entry π) (left : List Object) (taken : Option (Slot × Object))
    (left' : List Object) (m : Memory) : Prop where
  live : ∀ t, taken = some t → m.objects.find? t.1 = some t.2 ∧ t.1.group = k.resource.type.group
    ∧ t.1.kind = k.resource.kind ∧ t.1.name = e.name
  left : (left' = left ∧ ∀ t, taken = some t → t.1 = place k owner e)
    ∨ ∃ t, taken = some t ∧ left.Perm (t.2 :: left')
  /-- No candidate is left in the way. -/
  clear : ∀ o ∈ left', m.objects.find? (place k owner e) ≠ some o

variable (k owner) in
/-- What applying an entry leaves, given where the object was that stood for it: a component at the place of
the entry, nothing at another place that the object had, and all else as it was. -/
structure Settled (e : Entry π) (old : Option Slot) (m m' : Memory) : Prop where
  stands : ∃ o, m'.objects.find? (place k owner e) = some o ∧ StandsFor k owner e o
  gone : ∀ s, old = some s → s ≠ place k owner e → m'.objects.find? s = none
  rest : ∀ s, s ≠ place k owner e → old ≠ some s → m'.objects.find? s = m.objects.find? s

theorem Taking.subset (h : Taking k owner e left taken left' m) : left' ⊆ left := by
  obtain ⟨rfl, -⟩ | ⟨t, -, hperm⟩ := h.left
  · exact fun o ho => ho
  · exact fun o ho => hperm.mem_iff.2 (List.mem_cons_of_mem _ ho)

theorem Taking.nodup (hnodup : left.Nodup) (h : Taking k owner e left taken left' m) : left'.Nodup := by
  obtain ⟨rfl, -⟩ | ⟨t, -, hperm⟩ := h.left
  · exact hnodup
  · exact (List.nodup_cons.1 (hperm.nodup_iff.1 hnodup)).2

/-- A candidate that is left was not taken, and is not in the way. -/
theorem Taking.away (hnodup : left.Nodup) (h : Taking k owner e left taken left' m) {o : Object}
    (ho : o ∈ left') {s : Slot} (hf : m.objects.find? s = some o) :
    s ≠ place k owner e ∧ taken.map Prod.fst ≠ some s := by
  have hne : s ≠ place k owner e := fun hs => h.clear o ho (hs ▸ hf)
  refine ⟨hne, fun hold => ?_⟩
  obtain ⟨t, htaken, rfl⟩ := Option.map_eq_some_iff.1 hold
  obtain ⟨-, hat⟩ | ⟨t', htaken', hperm⟩ := h.left
  · exact hne (hat t htaken)
  · obtain rfl := Option.some.inj (htaken.symm.trans htaken')
    have ho' := Option.some.inj (hf.symm.trans (h.live t htaken).1)
    exact (List.nodup_cons.1 (hperm.nodup_iff.1 hnodup)).1 (ho' ▸ ho)

/-- A candidate that is not left is the one that was taken. -/
theorem Taking.mem_or (hm : m.Filed) (h : Taking k owner e left taken left' m) {o : Object} (ho : o ∈ left)
    {s : Slot} (hf : m.objects.find? s = some o) : o ∈ left' ∨ taken.map Prod.fst = some s := by
  obtain ⟨rfl, -⟩ | ⟨t, htaken, hperm⟩ := h.left
  · exact .inl ho
  · rcases List.mem_cons.1 (hperm.mem_iff.1 ho) with rfl | ho
    · right
      rw [htaken, hm.slot_unique hf (h.live t htaken).1]
      rfl
    · exact .inl ho

/-- What an entry takes is not at the place of one that is done. -/
theorem Taking.not_done (hm : m.Filed) (ht : Threaded k owner done left m)
    (htaking : Taking k owner e left taken left' m) {e' : Entry π} (he' : e' ∈ done)
    (hnew : place k owner e' ≠ place k owner e) : taken.map Prod.fst ≠ some (place k owner e') := by
  intro hold
  obtain ⟨t, htaken, hplace⟩ := Option.map_eq_some_iff.1 hold
  obtain ⟨-, hat⟩ | ⟨t', htaken', hperm⟩ := htaking.left
  · exact hnew (hplace.symm.trans (hat t htaken))
  · obtain rfl := Option.some.inj (htaken.symm.trans htaken')
    obtain ⟨s, hf, -, haway⟩ := ht.live t.2 (hperm.mem_iff.2 List.mem_cons_self)
    exact haway e' he' (hplace.symm.trans (hm.slot_unique (htaking.live t htaken).1 hf))

/-- An entry of a new place is applied: it is done, and what was taken for it is no candidate any more. -/
theorem Threaded.step (hm : m.Filed) (ht : Threaded k owner done left m)
    (hnew : ∀ e' ∈ done, place k owner e' ≠ place k owner e) (htaking : Taking k owner e left taken left' m)
    (hs : Settled k owner e (taken.map Prod.fst) m m') : Threaded k owner (done ++ [e]) left' m' := by
  refine ⟨fun e' he' => ?_, fun o ho => ?_, fun s o hf howned => ?_, ?_⟩
  · rcases List.mem_append.1 he' with he' | he'
    · obtain ⟨o, hf, hstands⟩ := ht.stands e' he'
      refine ⟨o, ?_, hstands⟩
      rw [hs.rest _ (hnew e' he') (htaking.not_done hm ht he' (hnew e' he')), hf]
    · obtain rfl := List.mem_singleton.1 he'
      exact hs.stands
  · obtain ⟨s, hf, howned, hdone⟩ := ht.live o (htaking.subset ho)
    obtain ⟨hne, hold⟩ := htaking.away ht.nodup ho hf
    refine ⟨s, by rw [hs.rest s hne hold, hf], howned, fun e' he' => ?_⟩
    rcases List.mem_append.1 he' with he' | he'
    · exact hdone e' he'
    · obtain rfl := List.mem_singleton.1 he'
      exact hne.symm
  · by_cases hne : s = place k owner e
    · exact .inl ⟨e, List.mem_append_right _ List.mem_cons_self, hne.symm⟩
    · have hold : taken.map Prod.fst ≠ some s := by
        intro hold
        rw [hs.gone s hold hne] at hf
        cases hf
      rw [hs.rest s hne hold] at hf
      obtain ⟨e', he', hplace⟩ | ho := ht.owned s o hf howned
      · exact .inl ⟨e', List.mem_append_left _ he', hplace⟩
      · exact .inr ((htaking.mem_or hm ho hf).resolve_right hold)
  · exact htaking.nodup ht.nodup

/-- A candidate is deleted. -/
theorem Threaded.drop {o : Object} {s : Slot} (hm : m.Filed) (ht : Threaded k owner done (o :: left) m)
    (ho : m.objects.find? s = some o) (hgone : m'.objects.find? s = none)
    (hrest : ∀ s' ≠ s, m'.objects.find? s' = m.objects.find? s') : Threaded k owner done left m' := by
  obtain ⟨hnot, hnodup⟩ := List.nodup_cons.1 ht.nodup
  obtain ⟨s₀, ho₀, -, haway⟩ := ht.live o List.mem_cons_self
  obtain rfl := hm.slot_unique ho ho₀
  refine ⟨fun e he => ?_, fun o' ho' => ?_, fun s' o' hf howned => ?_, hnodup⟩
  · obtain ⟨c, hf, hstands⟩ := ht.stands e he
    exact ⟨c, by rw [hrest _ (haway e he), hf], hstands⟩
  · obtain ⟨s', hf, howned, hdone⟩ := ht.live o' (List.mem_cons_of_mem _ ho')
    refine ⟨s', ?_, howned, hdone⟩
    rw [hrest s' ?_, hf]
    rintro rfl
    rw [Option.some.inj (ho.symm.trans hf)] at hnot
    exact hnot ho'
  · have hne : s' ≠ s := by
      rintro rfl
      rw [hgone] at hf
      cases hf
    rw [hrest s' hne] at hf
    refine (ht.owned s' o' hf howned).imp_right fun ho' => ?_
    rcases List.mem_cons.1 ho' with rfl | ho'
    · exact absurd (hm.slot_unique hf ho) hne
    · exact ho'

/-! ## Runs of a pass -/

variable {outcome : EntryOutcome}

/-- A live object in the right slot is in the namespace that the slot says. -/
theorem ns_of_place (ho : owner.Plain) (hm : m.Filed) {o : Object}
    (h : m.objects.find? (place k owner e) = some o) :
    o.metadata.ns = some (owner.targetNs e) ∧ o.metadata.name = some e.name := by
  obtain ⟨key, hkey, hslot⟩ := hm.key_of_find? h
  obtain ⟨-, hname, hns⟩ := Object.of_key_eq_ok hkey
  obtain ⟨-, -, hslotns, hslotname⟩ := Slot.mk.inj hslot
  refine ⟨?_, by rw [hname]; exact congrArg some hslotname⟩
  rw [hns]
  cases hkeyns : key.ns with
  | none =>
    rw [hkeyns] at hslotns
    exact absurd hslotns.symm (Owner.targetNs_ne ho e)
  | some ns =>
    rw [hkeyns] at hslotns
    exact congrArg some hslotns

theorem Settled.of_insert {stored : Object} {old : Option Slot} (hstands : StandsFor k owner e stored)
    (hm : m'.objects = m₁.objects.insert (place k owner e) stored)
    (hgone : ∀ s, old = some s → s ≠ place k owner e → m₁.objects.find? s = none)
    (hrest : ∀ s, s ≠ place k owner e → old ≠ some s → m₁.objects.find? s = m.objects.find? s) :
    Settled k owner e old m m' := by
  refine ⟨⟨stored, ?_, hstands⟩, fun s hold hne => ?_, fun s hne hold => ?_⟩
  · rw [hm]
    exact Table.find?_insert_self _ _ _
  · rw [hm, Table.find?_insert_ne hne]
    exact hgone s hold hne
  · rw [hm, Table.find?_insert_ne hne]
    exact hrest s hne hold

/-- The component of an entry is created. -/
theorem runs_create {stored : Object}
    (h : (Session.createNew (materialize k owner e)).Runs m es (.ok stored) m') :
    StandsFor k owner e stored ∧ m'.objects = m.objects.insert (place k owner e) stored := by
  obtain ⟨key, hkey, hs, -, hm⟩ := Session.runs_createNew_ok h
  obtain rfl := Except.ok.inj hkey
  exact ⟨standsFor_of_written hs.unstamped (.inl rfl), hm⟩

/-- Applying an entry whose object is in its place: it stays, or it is updated. -/
theorem runs_applyTo_here (ho : owner.Plain) (hm : m.Filed) {o : Object}
    (hf : m.objects.find? (place k owner e) = some o)
    (h : (applyTo propagation (materialize k owner e) (owner.targetNs e) (some o)).Runs m es
      (.ok outcome) m') : Settled k owner e (some (place k owner e)) m m' := by
  obtain ⟨hns, hname⟩ := ns_of_place ho hm hf
  unfold applyTo at h
  dsimp only at h
  rw [if_pos hns] at h
  by_cases hcurrent : isCurrent (materialize k owner e) o
  · rw [if_pos hcurrent] at h
    obtain ⟨-, -, rfl⟩ := h
    refine ⟨⟨o, hf, standsFor_of_current hns hname hcurrent⟩, ?_, fun _ _ _ => rfl⟩
    rintro s ⟨rfl⟩ hne
    exact absurd rfl hne
  · rw [if_neg hcurrent] at h
    obtain ⟨_, m₁, _, _, h, -, -, rfl⟩ := Session.runs_bind_ok h
    obtain ⟨key, live, hkey, -, -, hs, -, hm'⟩ := Session.runs_replace_ok h
    obtain rfl := Except.ok.inj ((key_materialize e).symm.trans hkey)
    refine .of_insert (standsFor_of_written hs.unstamped (.inr ⟨o, rfl⟩)) hm' ?_ fun _ _ _ => rfl
    rintro s ⟨rfl⟩ hne
    exact absurd rfl hne

/-- Applying an entry whose object is in another namespace: it is deleted there and created anew. -/
theorem runs_applyTo_moved (hm : m.Filed) {s : Slot} {o : Object} (hf : m.objects.find? s = some o)
    (hns : o.metadata.ns ≠ some (owner.targetNs e))
    (h : (applyTo propagation (materialize k owner e) (owner.targetNs e) (some o)).Runs m es
      (.ok outcome) m') : Settled k owner e (some s) m m' := by
  obtain ⟨key, hkey, rfl⟩ := hm.key_of_find? hf
  unfold applyTo at h
  dsimp only at h
  rw [if_neg hns] at h
  obtain ⟨old, hold, h⟩ | ⟨_, -, -, he, -⟩ := Session.runs_lift_bind.1 h
  swap
  · cases he
  obtain rfl := Except.ok.inj (hkey.symm.trans hold)
  obtain ⟨_, m₁, _, _, hremove, h⟩ := Session.runs_bind_ok h
  obtain ⟨_, m₂, _, _, h, -, -, rfl⟩ := Session.runs_bind_ok h
  obtain ⟨hstands, hm'⟩ := runs_create h
  have hm₁ := Session.runs_removeIfExists_ok hf hremove
  refine .of_insert hstands hm' ?_ fun s _ hold => ?_
  · rintro s ⟨rfl⟩ -
    rw [hm₁]
    exact Table.find?_erase_self _ _
  · rw [hm₁, Table.find?_erase_ne fun hs => hold (congrArg some hs.symm)]

/-- Applying an entry, where the object that stands for it is live and has its name. -/
theorem runs_applyTo (ho : owner.Plain) (hm : m.Filed)
    (hlive : ∀ t, taken = some t → m.objects.find? t.1 = some t.2 ∧ t.1.group = k.resource.type.group
      ∧ t.1.kind = k.resource.kind ∧ t.1.name = e.name)
    (h : (applyTo propagation (materialize k owner e) (owner.targetNs e) (taken.map Prod.snd)).Runs m es
      (.ok outcome) m') : Settled k owner e (taken.map Prod.fst) m m' := by
  cases taken with
  | none =>
    obtain ⟨_, m₁, _, _, h, -, -, rfl⟩ := Session.runs_bind_ok h
    obtain ⟨hstands, hm'⟩ := runs_create h
    exact .of_insert hstands hm' (fun _ hold => nomatch hold) fun _ _ _ => rfl
  | some t =>
    obtain ⟨s, o⟩ := t
    obtain ⟨hf, hgroup, hkind, hname⟩ := hlive _ rfl
    dsimp only at hf hgroup hkind hname
    by_cases hns : o.metadata.ns = some (owner.targetNs e)
    · have hplace : s = place k owner e := by
        rw [place_eq, ← hgroup, ← hkind, ← hm.ns_of_find? hf hns, ← hname]
      subst hplace
      exact runs_applyTo_here ho hm hf h
    · exact runs_applyTo_moved hm hf hns h

/-- A place has the name of its entry, so that nothing of another name is in it. -/
theorem not_at_place {o : Object} (hm : m.Filed) (h : o.anyName ≠ e.name) :
    m.objects.find? (place k owner e) ≠ some o :=
  fun hf => h (hm.anyName_of_find? hf)

variable (k) in
/-- What a pass does not touch: what is neither of its kind nor a namespace. -/
def Untouched (m m' : Memory) : Prop :=
  ∀ s : Slot, s.kind ≠ k.resource.kind → s.kind ≠ "Namespace" → m'.objects.find? s = m.objects.find? s

/-- Only objects of the kind matter. -/
theorem Threaded.congr (ht : Threaded k owner done left m)
    (h : ∀ s : Slot, s.group = k.resource.type.group → s.kind = k.resource.kind →
      m'.objects.find? s = m.objects.find? s) : Threaded k owner done left m' := by
  refine ⟨fun e he => ?_, fun o ho => ?_, fun s o hf howned => ?_, ht.nodup⟩
  · rw [h _ rfl rfl]
    exact ht.stands e he
  · obtain ⟨s, hf, howned, hdone⟩ := ht.live o ho
    exact ⟨s, by rw [h s howned.1 howned.2.1, hf], howned, hdone⟩
  · rw [h s howned.1 howned.2.1] at hf
    exact ht.owned s o hf howned

variable (k owner e) in
/-- The object that stands for an entry: the candidate that it takes, or else what is at its place. -/
def standing : Option Object → Session (Option Object)
  | some o => pure (some o)
  | none => Session.find? (keyOf k owner e)

/-- The object that stands for an entry is the candidate that was taken, or else what is at its place. -/
theorem runs_standing {taken existing : Option Object}
    (h : (standing k owner e taken).Runs m es (.ok existing) m') :
    m'.objects = m.objects ∧ existing = taken.or (m.objects.find? (place k owner e)) := by
  cases taken with
  | some o =>
    obtain ⟨-, ⟨rfl⟩, rfl⟩ := h
    exact ⟨rfl, rfl⟩
  | none =>
    obtain ⟨-, hm', hfound⟩ := Session.runs_find? h
    exact ⟨hm', (hfound existing rfl).symm⟩

theorem applyEntry_eq : applyEntry k owner propagation left e = do
    let _ ← Session.ensureNamespace (owner.targetNs e)
    let existing ← standing k owner e (takeMatch e.name (owner.targetNs e) left).1
    let outcome ← applyTo propagation (materialize k owner e) (owner.targetNs e) existing
    return (outcome, (takeMatch e.name (owner.targetNs e) left).2) := by
  unfold applyEntry
  refine congrArg _ (funext fun _ => ?_)
  obtain ⟨taken, rest⟩ := takeMatch e.name (owner.targetNs e) left
  cases taken <;> rfl

/-- An entry takes a candidate of its name, the one at its place if there is one, or else what is at its
place. -/
theorem runs_take (ho : owner.Plain) (hm : m.Filed) (ht : Threaded k owner done left m)
    {existing : Option Object}
    (h : (standing k owner e (takeMatch e.name (owner.targetNs e) left).1).Runs m es (.ok existing) m') :
    m'.objects = m.objects ∧ ∃ taken, existing = taken.map Prod.snd
      ∧ Taking k owner e left taken (takeMatch e.name (owner.targetNs e) left).2 m := by
  obtain ⟨hm', hexisting⟩ := runs_standing h
  refine ⟨hm', ?_⟩
  obtain ⟨htake, hnone⟩ | ⟨o, rest, htake, hperm, hname, hns⟩ :=
    takeMatch_cases e.name (owner.targetNs e) left
  · rw [htake, Option.none_or] at hexisting
    rw [htake]
    have hclear : ∀ o ∈ left, m.objects.find? (place k owner e) ≠ some o :=
      fun o ho => not_at_place hm (hnone o ho)
    refine ⟨existing.map fun o => (place k owner e, o), by cases existing <;> rfl, ?_, ?_, hclear⟩
    · intro t htaken
      obtain ⟨o, rfl, rfl⟩ := Option.map_eq_some_iff.1 htaken
      exact ⟨hexisting.symm, rfl, rfl, rfl⟩
    · refine .inl ⟨rfl, fun t htaken => ?_⟩
      obtain ⟨o, -, rfl⟩ := Option.map_eq_some_iff.1 htaken
      rfl
  · rw [htake, Option.some_or] at hexisting
    rw [htake]
    obtain ⟨s, hf, howned, -⟩ := ht.live o (hperm.mem_iff.2 List.mem_cons_self)
    have hslotname : s.name = e.name := (hm.anyName_of_find? hf).symm.trans hname
    refine ⟨some (s, o), hexisting, ?_, .inr ⟨_, rfl, hperm⟩, fun o' ho' hplace => ?_⟩
    · rintro t ⟨rfl⟩
      exact ⟨hf, howned.1, howned.2.1, hslotname⟩
    · -- one in the way would have been taken
      obtain hons | hother := hns
      · obtain rfl := howned.eq_place hslotname (hm.ns_of_find? hf hons)
        have hsame := Option.some.inj (hf.symm.trans hplace)
        exact (List.nodup_cons.1 (hperm.nodup_iff.1 ht.nodup)).1 (hsame ▸ ho')
      · have hmem := hperm.mem_iff.2 (List.mem_cons_of_mem o ho')
        exact hother o' hmem (hm.anyName_of_find? hplace) (ns_of_place ho hm hplace).1

variable (k owner) in
/-- What an entry that is applied leaves: its namespace is there, and it is settled with what it took. -/
structure Entered (e : Entry π) (left left' : List Object) (m m' : Memory) : Prop where
  home : m'.objects.find? (homeOf owner e) ≠ none
  settled : ∃ m₁ taken, (∀ s ≠ homeOf owner e, m₁.objects.find? s = m.objects.find? s) ∧ m₁.Filed
    ∧ Taking k owner e left taken left' m₁ ∧ Settled k owner e (taken.map Prod.fst) m₁ m'

/-- An entry that is applied is settled. -/
theorem runs_applyEntry_ok (ho : owner.Plain) (hm : m.Filed) (ht : Threaded k owner done left m)
    (h : (applyEntry k owner propagation left e).Runs m es (.ok (outcome, left')) m') :
    Entered k owner e left left' m m' := by
  rw [applyEntry_eq] at h
  obtain ⟨_, m₁, _, _, hns, h⟩ := Session.runs_bind_ok h
  have hsame : ∀ s ≠ homeOf owner e, m₁.objects.find? s = m.objects.find? s :=
    fun s hs => Session.runs_ensureNamespace hns hs
  have hm₁ := hns.filed hm
  have ht₁ := ht.congr fun s hgroup _ => hsame s (ne_namespace hgroup)
  obtain ⟨existing, m₂, _, _, htake, h⟩ := Session.runs_bind_ok h
  obtain ⟨hobjects, taken, rfl, htaking⟩ := runs_take ho hm₁ ht₁ htake
  obtain ⟨outcome', m₃, _, _, happly, -, heq, rfl⟩ := Session.runs_bind_ok h
  obtain ⟨-, rfl⟩ := Prod.mk.inj (Except.ok.inj heq)
  have hlive := htaking.live
  rw [← hobjects] at hlive
  have hsettled := runs_applyTo ho (htake.filed hm₁) hlive happly
  have hsettled : Settled k owner e (taken.map Prod.fst) m₁ m' :=
    ⟨hsettled.stands, hsettled.gone, hobjects ▸ hsettled.rest⟩
  have haway : taken.map Prod.fst ≠ some (homeOf owner e) := fun hold => by
    obtain ⟨t, htaken, hs⟩ := Option.map_eq_some_iff.1 hold
    exact ne_namespace (htaking.live t htaken).2.1 hs
  refine ⟨?_, m₁, taken, hsame, hm₁, htaking, hsettled⟩
  rw [hsettled.rest (homeOf owner e) (ne_namespace rfl).symm haway]
  exact Session.runs_ensureNamespace_ok hns

theorem Entered.threaded (ht : Threaded k owner done left m)
    (hnew : ∀ e' ∈ done, place k owner e' ≠ place k owner e) (h : Entered k owner e left left' m m') :
    Threaded k owner (done ++ [e]) left' m' := by
  obtain ⟨m₁, taken, hsame, hm₁, htaking, hsettled⟩ := h.settled
  exact (ht.congr fun s hgroup _ => hsame s (ne_namespace hgroup)).step hm₁ hnew htaking hsettled

/-- Applying an entry touches nothing but its namespace, and objects of its kind and its name. -/
theorem Entered.others (h : Entered k owner e left left' m m') {s : Slot} (hs : s ≠ homeOf owner e)
    (hother : s.group = k.resource.type.group → s.kind = k.resource.kind → s.name ≠ e.name) :
    m'.objects.find? s = m.objects.find? s := by
  obtain ⟨m₁, taken, hsame, -, htaking, hsettled⟩ := h.settled
  rw [hsettled.rest s ?_ fun hold => ?_, hsame s hs]
  · rintro rfl
    exact hother rfl rfl rfl
  · obtain ⟨t, htaken, rfl⟩ := Option.map_eq_some_iff.1 hold
    obtain ⟨-, hgroup, hkind, hname⟩ := htaking.live t htaken
    exact hother hgroup hkind hname

theorem Entered.untouched (h : Entered k owner e left left' m m') : Untouched k m m' := by
  intro s hkind hns
  refine h.others ?_ fun _ hk => absurd hk hkind
  rintro rfl
  exact hns rfl

/-- Applying an entry deletes no namespace. -/
theorem Entered.keeps_home (h : Entered k owner e left left' m m') {ns : String}
    (hns : m.object? (Session.namespaceKey ns) ≠ none) : m'.object? (Session.namespaceKey ns) ≠ none := by
  by_cases hs : (Session.namespaceKey ns).slot = homeOf owner e
  · unfold Memory.object?
    rw [hs]
    exact h.home
  · unfold Memory.object?
    rw [h.others hs fun hgroup _ => absurd rfl (ne_namespace hgroup)]
    exact hns

variable (k owner) in
/-- What the entries of a pass leave. -/
structure Settles (entries : List (Entry π)) (m m' : Memory) : Prop where
  homes : ∀ e ∈ entries, m'.objects.find? (homeOf owner e) ≠ none
  /-- No namespace is deleted. -/
  kept : ∀ ns, m.object? (Session.namespaceKey ns) ≠ none → m'.object? (Session.namespaceKey ns) ≠ none
  untouched : Untouched k m m'

/-- All entries of a pass. -/
theorem runs_applyEntries (ho : owner.Plain) {entries : List (Entry π)}
    {summary : Summary} (hm : m.Filed) (ht : Threaded k owner done left m)
    (hplaces : ((done ++ entries).map (place k owner)).Nodup)
    (h : (applyEntries k owner propagation left entries).Runs m es (.ok (summary, left')) m') :
    Threaded k owner (done ++ entries) left' m' ∧ Settles k owner entries m m' := by
  induction entries generalizing done left m es summary with
  | nil =>
    obtain ⟨-, heq, rfl⟩ := h
    obtain ⟨-, rfl⟩ := Prod.mk.inj (Except.ok.inj heq)
    rw [List.append_nil]
    exact ⟨ht, fun e he => (by cases he), fun _ h => h, fun _ _ _ => rfl⟩
  | cons e entries ih =>
    rw [applyEntries] at h
    obtain ⟨⟨outcome, left₁⟩, m₁, _, _, hentry, h⟩ := Session.runs_bind_ok h
    obtain ⟨⟨summary', left₂⟩, m₂, _, _, hrest, -, heq, rfl⟩ := Session.runs_bind_ok h
    obtain ⟨-, rfl⟩ := Prod.mk.inj (Except.ok.inj heq)
    have hnew : ∀ e' ∈ done, place k owner e' ≠ place k owner e := by
      intro e' he' hplace
      rw [List.map_append, List.nodup_append] at hplaces
      exact hplaces.2.2 _ (List.mem_map_of_mem he') _ (List.mem_map_of_mem List.mem_cons_self) hplace
    have hentered := runs_applyEntry_ok ho hm ht hentry
    rw [List.append_cons] at hplaces ⊢
    obtain ⟨ht₂, hsettles⟩ := ih (hentry.filed hm) (hentered.threaded ht hnew) hplaces hrest
    refine ⟨ht₂, List.forall_mem_cons.2 ⟨hsettles.kept _ hentered.home, hsettles.homes⟩,
      fun ns hns => hsettles.kept ns (hentered.keeps_home hns),
      fun s hs hs' => (hsettles.untouched s hs hs').trans (hentered.untouched s hs hs')⟩

/-- The candidates that no entry has taken are deleted, and nothing else. -/
theorem runs_sweep {summary : Summary} (hm : m.Filed) (ht : Threaded k owner done left m)
    (h : (sweep propagation left).Runs m es (.ok summary) m') :
    Threaded k owner done [] m' ∧ ∀ s : Slot, (s.group = k.resource.type.group → s.kind ≠ k.resource.kind) →
      m'.objects.find? s = m.objects.find? s := by
  induction left generalizing m es summary with
  | nil =>
    obtain ⟨-, -, rfl⟩ := h
    exact ⟨ht, fun _ _ => rfl⟩
  | cons o left ih =>
    rw [sweep] at h
    obtain ⟨s, hf, howned, -⟩ := ht.live o List.mem_cons_self
    obtain ⟨key, hkey, rfl⟩ := hm.key_of_find? hf
    obtain ⟨key', hkey', h⟩ | ⟨_, -, -, he, -⟩ := Session.runs_lift_bind.1 h
    · obtain rfl := Except.ok.inj (hkey.symm.trans hkey')
      obtain ⟨_, m₁, _, _, hremove, h⟩ := Session.runs_bind_ok h
      obtain ⟨_, m₂, _, _, hrest, -, -, rfl⟩ := Session.runs_bind_ok h
      have hm₁ := Session.runs_removeIfExists_ok hf hremove
      have hrest₁ : ∀ s ≠ key.slot, m₁.objects.find? s = m.objects.find? s := fun s hs => by
        rw [hm₁, Table.find?_erase_ne hs]
      have ht₁ := ht.drop hm hf (by rw [hm₁]; exact Table.find?_erase_self _ _) hrest₁
      obtain ⟨ht₂, hothers⟩ := ih (hremove.filed hm) ht₁ hrest
      refine ⟨ht₂, fun s hs => (hothers s hs).trans (hrest₁ s ?_)⟩
      rintro rfl
      exact hs howned.1 howned.2.1
    · cases he

/-- Before the first entry every component of the owner is a candidate. -/
theorem Threaded.start (ho : owner.Legible) (hm : m.Filed) : Threaded k owner [] (components k owner m) m := by
  refine ⟨fun e he => (by cases he), fun o hmem => ?_, fun s o hf howned => .inr ?_, hm.nodup_listing _ _ _⟩
  · obtain ⟨s, hf, howned⟩ := (mem_components ho hm).1 hmem
    exact ⟨s, hf, howned, fun e he => (by cases he)⟩
  · exact (mem_components ho hm).2 ⟨s, hf, howned⟩

/-- A pass that succeeds leaves a component for every entry and no other component of the owner. -/
theorem runs_pass (ho : owner.Plain) {entries : List (Entry π)} {summary : Summary}
    (hplaces : (entries.map (place k owner)).Nodup) (hm : m.Filed)
    (h : (pass k owner entries propagation).Runs m es (.ok summary) m') :
    Threaded k owner entries [] m' ∧ Settles k owner entries m m' := by
  unfold pass at h
  obtain ⟨installed, m₁, _, _, hlist, h⟩ := Session.runs_bind_ok h
  obtain ⟨⟨applied, left⟩, m₂, _, _, happly, h⟩ := Session.runs_bind_ok h
  obtain ⟨swept, m₃, _, _, hsweep, -, -, rfl⟩ := Session.runs_bind_ok h
  obtain ⟨-, hm₁, hinstalled⟩ := Session.runs_listAll hlist
  obtain rfl := hinstalled _ rfl
  have hfiled := hlist.filed hm
  have ht : Threaded k owner [] (components k owner m) m₁ :=
    (Threaded.start ho.legible hm).congr fun s _ _ => by rw [hm₁]
  obtain ⟨ht₁, hsettles⟩ := runs_applyEntries ho hfiled ht hplaces happly
  obtain ⟨ht₂, hothers⟩ := runs_sweep (happly.filed hfiled) ht₁ hsweep
  have hnamespace : ∀ ns, m'.object? (Session.namespaceKey ns) = m₂.object? (Session.namespaceKey ns) :=
    fun ns => hothers _ fun hgroup _ => ne_namespace hgroup rfl
  refine ⟨ht₂, fun e he hnone => hsettles.homes e he ?_, fun ns hns hnone => ?_, fun s hs hs' => ?_⟩
  · exact (hnamespace _).symm.trans hnone
  · rw [← Memory.object?_congr hm₁] at hns
    exact hsettles.kept ns hns ((hnamespace ns).symm.trans hnone)
  · rw [hothers s fun _ => hs, hsettles.untouched s hs hs', hm₁]

end Pass

end Reconcile

end Addons
