import Addons.Proofs.Object.Ordered
import Addons.Proofs.Store.Contacts
import Addons.Proofs.Store.Races

/-!
# What an idempotent write reaches

A write looks whether its object is there, and creates it or updates the one that it has read. Others may come in
between. That is no harm: a creation that meets an object goes on with that one, and the version under which an
object was read tells whether it is still the same when it is replaced (`Memory.eq_of_version`).

`createOrUpdate_reaches`: a write that succeeds leaves a live object that has the desired one applied, so that the
next write finds nothing to do; one that fails has changed nothing; and all that the desired object does not say
about annotations and finalizers stays as the live object had it.
-/

namespace Addons

open Relation (ReflTransGen)

namespace Memory

variable {m m' : Memory} {s : Slot} {o o' : Object}

theorem filed_of_reaches (h : ReflTransGen Served m m') (hm : m.Filed) : m'.Filed := by
  induction h with
  | refl => exact hm
  | tail _ hserved ih => exact hserved.filed ih

/-! ## One object for each version -/

/-- What is in a place after a request was there before, or has a version that nothing had. -/
theorem Served.find?_or_newer (h : m.Served m') (s : Slot) : m'.objects.find? s = m.objects.find? s
    ∨ ∀ o, m'.objects.find? s = some o →
      ∃ n, m.version < n ∧ o.metadata.resourceVersion = some (versionText n) := by
  have hput : ∀ {k : Key} {stored : Object} {n : Nat} {m' : Memory}, m.version < n →
      stored.metadata.resourceVersion = some (versionText n) → m'.objects = m.objects.insert k.slot stored →
      m'.objects.find? s = m.objects.find? s ∨ ∀ o, m'.objects.find? s = some o →
        ∃ n, m.version < n ∧ o.metadata.resourceVersion = some (versionText n) :=
    fun {k stored n m'} hn hv hm => by
      rw [hm, Table.find?_insert]
      split
      · refine .inr ?_
        rintro o ⟨rfl⟩
        exact ⟨n, hn, hv⟩
      · exact .inl rfl
  have herase : ∀ {k : Key} {t : Table Slot Object} {m' : Memory}, m'.objects = t.erase k.slot →
      (s ≠ k.slot → t.find? s = m.objects.find? s) → m'.objects.find? s = m.objects.find? s
        ∨ ∀ o, m'.objects.find? s = some o →
          ∃ n, m.version < n ∧ o.metadata.resourceVersion = some (versionText n) :=
    fun {k t m'} hm hsame => by
      rw [hm, Table.find?_erase]
      split
      · exact .inr fun o h => nomatch h
      · rename_i hs
        exact .inl (hsame hs)
  cases h with
  | get k => exact .inl (by rw [(Answered.get_served m k).1])
  | list t ns sel => exact .inl (by rw [(Answered.list_served m t ns sel).1])
  | create o =>
    obtain ⟨hm, -⟩ | ⟨k, stored, -, -, hs, hm, -⟩ := Answered.create_served m o
    · exact .inl (by rw [hm])
    · exact hput (hs.next ▸ Nat.lt_succ_self _) hs.version hm
  | update o =>
    obtain ⟨hm, -⟩ | ⟨k, live, stored, -, -, -, hs, hm, -⟩ := Answered.update_served m o
    · exact .inl (by rw [hm])
    · exact hput (hs.next ▸ Nat.lt_succ_self _) hs.version hm
  | delete k =>
    obtain ⟨hm, -⟩ | ⟨hm, -⟩ := Answered.delete_served m k
    · exact .inl (by rw [hm])
    · exact herase hm fun _ => rfl
  | setFinalizers k names =>
    unfold Memory.setFinalizers
    cases m.object? k with
    | none => exact .inl rfl
    | some o =>
      dsimp only [putVersion]
      split
      · exact herase rfl fun hs => Table.find?_insert_ne hs _ _
      · exact hput (Nat.lt_succ_self _) rfl rfl
  | mergeStatus k status =>
    unfold Memory.mergeStatus
    cases m.object? k with
    | none => exact .inl rfl
    | some o => exact hput (Nat.lt_succ_self _) rfl rfl

/-- An object that is found under the version of an earlier one is that one. -/
theorem eq_of_version (hm : m.Filed) (h : ReflTransGen Served m m') (ho : m.objects.find? s = some o)
    (ho' : m'.objects.find? s = some o') (hv : o'.metadata.resourceVersion = o.metadata.resourceVersion) :
    o' = o := by
  obtain ⟨n, hn, hversion⟩ := hm.version_of_find? ho
  -- what was handed out since is newer than the version of the object
  have hstill : n ≤ m'.version ∧ ∀ o', m'.objects.find? s = some o' →
      o'.metadata.resourceVersion = o.metadata.resourceVersion → o' = o := by
    clear hv ho'
    induction h with
    | refl => exact ⟨hn, fun o' ho' _ => Option.some.inj (ho'.symm.trans ho)⟩
    | tail _ hserved ih =>
      refine ⟨ih.1.trans hserved.version_le, fun o' ho' hv => ?_⟩
      rcases hserved.find?_or_newer s with hsame | hnewer
      · exact ih.2 o' (hsame.symm.trans ho') hv
      · obtain ⟨l, hl, hl'⟩ := hnewer o' ho'
        have htext := versionText_injective (Option.some.inj (hl'.symm.trans (hv.trans hversion)))
        omega
  exact hstill.2 o' ho' hv

end Memory

/-! ## What a live object keeps -/

namespace Object

variable {desired live : Object}

/-- An annotation of an object. -/
def annotation? (o : Object) (key : String) : Option String := o.metadata.annotations.bind fun t => t.find? key

/-- The live annotations that the desired object does not set are kept. -/
theorem annotation?_adopt {key : String} (h : desired.annotation? key = none) :
    (desired.adopt live).annotation? key = live.annotation? key := by
  unfold annotation? at h ⊢
  unfold adopt
  cases hlive : live.metadata.annotations with
  | none => exact h
  | some kept =>
    have hmissing : (desired.metadata.annotations.getD []).reverse.lookup key = none := by
      rw [List.lookup_eq_none_iff]
      intro e he
      cases hset : desired.metadata.annotations with
      | none =>
        rw [hset] at he
        cases he
      | some t =>
        rw [hset] at h he
        exact List.lookup_eq_none_iff.1 h e (List.mem_reverse.1 he)
    dsimp only [Option.bind_some]
    rw [Table.find?_union, hmissing, Option.none_or]

theorem finalizers_adopt (h : desired.metadata.finalizers = none) :
    (desired.adopt live).metadata.finalizers = live.metadata.finalizers := by
  unfold adopt
  rw [h]
  rfl

end Object

namespace Session

variable {others : Memory → Memory → Prop} {m m' : Memory} {cs : List Contact} {k : Key} {desired : Object}

/-! ## The last request -/

variable (k desired) in
/-- The contact in which a write comes to its end, and the live object there. -/
inductive Lands (c : Contact) : ApplyOutcome → Object → Prop
  | created {live : Object} : c.met.object? k = none → live.unstamped = desired.unstamped →
      c.left.objects = c.met.objects.insert k.slot live → Lands c .created live
  | updated {old live : Object} : c.met.object? k = some old → live.unstamped = (desired.adopt old).unstamped →
      c.left.objects = c.met.objects.insert k.slot live → Lands c .updated live
  | unchanged {live : Object} : c.met.object? k = some live → desired.isApplied live →
      c.left.objects = c.met.objects → Lands c .unchanged live

namespace Lands

variable {c : Contact} {a : ApplyOutcome} {live : Object}

theorem object? (h : Lands k desired c a live) : c.left.object? k = some live := by
  cases h with
  | created _ _ hm | updated _ _ hm => exact Memory.object?_of_insert hm
  | unchanged hlive _ hm => exact (Memory.object?_congr hm k).trans hlive

theorem isApplied (h : Lands k desired c a live) (ho : desired.Ordered) : desired.isApplied live := by
  cases h with
  | created _ hstamped _ => exact (Object.isApplied_congr hstamped).trans (Object.isApplied_self ho)
  | updated _ hstamped _ => exact (Object.isApplied_congr hstamped).trans (Object.isApplied_adopt ho _)
  | unchanged _ happlied _ => exact happlied

theorem find?_ne (h : Lands k desired c a live) {s : Slot} (hs : s ≠ k.slot) :
    c.left.objects.find? s = c.met.objects.find? s := by
  cases h with
  | created _ _ hm | updated _ _ hm => rw [hm, Table.find?_insert_ne hs]
  | unchanged _ _ hm => rw [hm]

/-- An update keeps what the desired object does not say. -/
theorem keeps {old : Object} (h : Lands k desired c .updated live) (hold : c.met.object? k = some old) :
    (∀ key, desired.annotation? key = none → live.annotation? key = old.annotation? key)
      ∧ (desired.metadata.finalizers = none → live.metadata.finalizers = old.metadata.finalizers) := by
  cases h with
  | updated hmet hstamped _ =>
    obtain rfl := Option.some.inj (hmet.symm.trans hold)
    have hannotations := Object.annotations_of_unstamped hstamped
    refine ⟨fun key hkey => ?_, fun hnone => ?_⟩
    · exact (congrArg (fun t => t.bind fun t => t.find? key) hannotations).trans (Object.annotation?_adopt hkey)
    · exact (congrArg (fun o => o.metadata.finalizers) hstamped).trans (Object.finalizers_adopt hnone)

end Lands

/-! ## The requests of a write -/

variable (k desired) in
/-- What a write comes to: it looks some times, and then lands or fails. -/
inductive Wrote (m' : Memory) : List Contact → Except Error ApplyOutcome → Prop
  | lands {c : Contact} {a : ApplyOutcome} {live : Object} :
      m' = c.left → Lands k desired c a live → Wrote m' [c] (.ok a)
  | fails {e : Error} : Wrote m' [] (.error e)
  /-- The last request was served, and nobody knows. -/
  | lost {c : Contact} {e : Error} : c.lost = true →
      (∀ s ≠ k.slot, c.left.objects.find? s = c.met.objects.find? s) → Wrote m' [c] (.error e)
  | look {c : Contact} {cs : List Contact} {a : Except Error ApplyOutcome} :
      c.left.objects = c.met.objects → Wrote m' cs a → Wrote m' (c :: cs) a

variable {a : Except Error ApplyOutcome} {c : Contact}

theorem Amid.filed {α : Type} {s : Session α} {a : Except Error α}
    (hothers : ∀ m m', others m m' → ReflTransGen Memory.Served m m') (h : s.Amid others m cs a m')
    (hm : m.Filed) : m'.Filed :=
  h.keeps (fun m m' hreach => Memory.filed_of_reaches (hothers m m' hreach)) (fun _ _ hserved => hserved.filed) hm

/-- Whoever has read an object leaves it, or replaces that object and no other. -/
theorem amid_updateUnlessApplied {existing : Object}
    (hothers : ∀ m m', others m m' → ReflTransGen Memory.Served m m') (hk : desired.key = .ok k)
    (hc : c.left.objects = c.met.objects) (hfiled : c.left.Filed) (hlive : c.met.object? k = some existing)
    (h : (updateUnlessApplied desired existing).Amid others c.left cs a m') : Wrote k desired m' (c :: cs) a := by
  unfold updateUnlessApplied at h
  by_cases happlied : desired.isApplied existing
  · rw [if_pos happlied] at h
    obtain ⟨rfl, rfl, rfl⟩ := h
    exact .lands rfl (.unchanged hlive happlied hc)
  · rw [if_neg happlied] at h
    refine .look hc ?_
    have hread : c.left.objects.find? k.slot = some existing := (Memory.object?_congr hc k).trans hlive
    -- the object that is replaced has the version of the one that was read, and so is that one
    have hupdate : ∀ {c' : Contact} {k' : Key} {live stored : Object}, others c.left c'.met →
        (desired.adopt existing).key = .ok k' → c'.met.object? k' = some live →
        live.metadata.resourceVersion = (desired.adopt existing).metadata.resourceVersion →
        c'.met.Stamped (desired.adopt existing) stored c'.left →
        c'.left.objects = c'.met.objects.insert k'.slot stored → Lands k desired c' .updated stored := by
      intro c' k' live stored hbefore hk' hmet hversion hstamped hm
      obtain rfl := Except.ok.inj (hk.symm.trans hk')
      obtain rfl := Memory.eq_of_version hfiled (hothers _ _ hbefore) hread hmet hversion
      exact .updated hmet hstamped.unstamped hm
    obtain ⟨stored, m₁, cs₁, cs₂, h₁, rfl, rfl, rfl, rfl⟩ | ⟨e, h₁, rfl⟩ := amid_bind h
    · obtain ⟨c', rfl, hbefore, rfl, ⟨-, e, he⟩ | ⟨k', live, stored', hk', hmet, hversion, hstamped, hm, -⟩⟩ :=
        amid_replace h₁
      · cases he
      · exact .lands rfl (hupdate hbefore hk' hmet hversion hstamped hm)
    · obtain ⟨c', rfl, hbefore, -, ⟨hm, -⟩ | ⟨k', live, stored', hk', hmet, hversion, hstamped, hm, hr⟩⟩ :=
        amid_replace h₁
      · exact .look hm .fails
      · rcases hr with hr | ⟨hlost, -⟩
        · cases hr
        · exact .lost hlost fun s hs => (hupdate hbefore hk' hmet hversion hstamped hm).find?_ne hs

theorem not_isFault_of_exists {e : Error} (he : e.isAlreadyExists) : ¬e.IsFault := fun hfault => by
  rw [hfault.2] at he
  cases he

theorem amid_createOrMeet (hothers : ∀ m m', others m m' → ReflTransGen Memory.Served m m')
    (hk : desired.key = .ok k) (hm : m.Filed) (h : (createOrMeet desired k).Amid others m cs a m') :
    Wrote k desired m' cs a := by
  obtain ⟨r, m₁, cs₁, cs₂, h₁, rfl, h₂⟩ := amid_attempt h
  have hm₁ := h₁.filed hothers hm
  obtain ⟨c, rfl, -, rfl, hr⟩ := amid_createNew h₁
  have hcreated : ∀ {k' : Key} {stored : Object}, desired.key = .ok k' → c.met.object? k' = none →
      c.met.Stamped desired stored c.left → c.left.objects = c.met.objects.insert k'.slot stored →
      Lands k desired c .created stored := by
    intro k' stored hk' hnone hstamped hm
    obtain rfl := Except.ok.inj (hk.symm.trans hk')
    exact .created hnone hstamped.unstamped hm
  cases r with
  | ok stored =>
    obtain ⟨rfl, rfl, rfl⟩ := h₂
    obtain ⟨-, e, he⟩ | ⟨k', stored', hk', hnone, hstamped, hm, -⟩ := hr
    · cases he
    · exact .lands rfl (hcreated hk' hnone hstamped hm)
  | error e =>
    dsimp only at h₂
    by_cases hexists : e.isAlreadyExists
    · -- another writer has come first: its object is read and taken from there
      rw [if_pos hexists] at h₂
      have hmet : c.left.objects = c.met.objects := by
        obtain ⟨hm, -⟩ | ⟨_, _, -, -, -, -, hok | ⟨-, e', hfault, he⟩⟩ := hr
        · exact hm
        · cases hok
        · cases he
          exact absurd hfault (not_isFault_of_exists hexists)
      refine .look hmet ?_
      obtain ⟨existing, m₂, cs₃, cs₄, h₃, rfl, h₄⟩ | ⟨e', h₃, rfl⟩ := amid_bind h₂
      · have hm₂ := h₃.filed hothers hm₁
        obtain ⟨c', rfl, -, rfl, hlook, hlive⟩ := amid_require h₃
        exact amid_updateUnlessApplied hothers hk hlook hm₂ (hlive existing rfl) h₄
      · obtain ⟨c', rfl, -, -, hlook, -⟩ := amid_require h₃
        exact .look hlook .fails
    · rw [if_neg hexists] at h₂
      obtain ⟨rfl, rfl, rfl⟩ := h₂
      obtain ⟨hm, -⟩ | ⟨k', stored', hk', hnone, hstamped, hm, hok | ⟨hlost, -⟩⟩ := hr
      · exact .look hm .fails
      · cases hok
      · exact .lost hlost fun s hs => (hcreated hk' hnone hstamped hm).find?_ne hs

theorem amid_createOrUpdate (hothers : ∀ m m', others m m' → ReflTransGen Memory.Served m m')
    (hk : desired.key = .ok k) (hm : m.Filed) (h : (createOrUpdate desired).Amid others m cs a m') :
    Wrote k desired m' cs a := by
  rw [createOrUpdate_eq hk] at h
  obtain ⟨live?, m₁, cs₁, cs₂, h₁, rfl, h₂⟩ | ⟨e, h₁, rfl⟩ := amid_bind h
  · have hm₁ := h₁.filed hothers hm
    obtain ⟨c, rfl, -, rfl, hlook, -, hlive⟩ := amid_find? h₁
    cases live? with
    | some existing => exact amid_updateUnlessApplied hothers hk hlook hm₁ (hlive _ rfl) h₂
    | none => exact .look hlook (amid_createOrMeet hothers hk hm₁ h₂)
  · obtain ⟨c, rfl, -, -, hlook, -⟩ := amid_find? h₁
    exact .look hlook .fails

namespace Wrote

theorem find?_ne (h : Wrote k desired m' cs a) {s : Slot} (hs : s ≠ k.slot) :
    ∀ c ∈ cs, c.left.objects.find? s = c.met.objects.find? s := by
  induction h with
  | lands _ hlands => exact List.forall_mem_singleton.2 (hlands.find?_ne hs)
  | fails => simp
  | lost _ hne => exact List.forall_mem_singleton.2 (hne s hs)
  | look hlook _ ih => exact List.forall_mem_cons.2 ⟨by rw [hlook], ih⟩

theorem objects_of_error {e : Error} (h : Wrote k desired m' cs (.error e)) :
    ∀ c ∈ cs, c.lost = false → c.left.objects = c.met.objects := by
  generalize hr : Except.error e = r at h
  induction h with
  | lands => cases hr
  | fails => simp
  | lost hlost _ => exact List.forall_mem_singleton.2 fun hnot => absurd (hnot.symm.trans hlost) Bool.false_ne_true
  | look hlook _ ih => exact List.forall_mem_cons.2 ⟨fun _ => hlook, ih hr⟩

theorem lands_of_ok {o : ApplyOutcome} (h : Wrote k desired m' cs (.ok o)) :
    ∃ looks last live, cs = looks ++ [last] ∧ m' = last.left
      ∧ (∀ c ∈ looks, c.left.objects = c.met.objects) ∧ Lands k desired last o live := by
  generalize hr : Except.ok o = r at h
  induction h with
  | @lands c a live hm hlands =>
    cases hr
    exact ⟨[], c, live, rfl, hm, by simp, hlands⟩
  | fails | lost => cases hr
  | @look c cs a hlook _ ih =>
    obtain ⟨looks, last, live, rfl, hm, hlooks, hlands⟩ := ih hr
    exact ⟨c :: looks, last, live, rfl, hm, List.forall_mem_cons.2 ⟨hlook, hlooks⟩, hlands⟩

end Wrote

/-! ## Writing again -/

/-- Where the desired object is applied, a write looks and is done. -/
theorem run_createOrUpdate_applied {live : Object} {h : Host} (hk : desired.key = .ok k)
    (hlive : h.memory.object? k = some live) (happlied : desired.isApplied live)
    (hget : (.get, k.type.kind) ∉ h.memory.failures) : ((createOrUpdate desired).run h).1 = .ok .unchanged
      ∧ ((createOrUpdate desired).run h).2.memory = h.memory.looked 1 0 := by
  have hends : (createOrUpdate desired).Ends h.memory fun r m' =>
      r = .ok .unchanged ∧ m' = h.memory.looked 1 0 := by
    rw [createOrUpdate_eq hk]
    refine Ends.bind ((ends_find? hget).imp ?_)
    rintro _ m₁ ⟨rfl, rfl⟩
    refine ⟨_, rfl, ?_⟩
    rw [hlive]
    dsimp only
    rw [updateUnlessApplied_of_applied happlied]
    exact ends_done ⟨rfl, rfl⟩
  exact hends h

/-! ## What is reached -/

variable (k desired) in
/-- What a write comes to, from one store to another, whatever others do in between. -/
structure Reaches (others : Memory → Memory → Prop) (m : Memory) (cs : List Contact)
    (a : Except Error ApplyOutcome) (m' : Memory) : Prop where
  /-- No request of a write changes another object. -/
  elsewhere : ∀ s ≠ k.slot, ∀ c ∈ cs, c.left.objects.find? s = c.met.objects.find? s
  /-- No request of a write that fails changes any, unless its answer was lost. -/
  failed : ∀ e, a = .error e → ∀ c ∈ cs, c.lost = false → c.left.objects = c.met.objects
  /-- Of a write that succeeds the last request leaves an object that has the desired one applied. -/
  reached : ∀ o, a = .ok o → ∃ looks last live, cs = looks ++ [last] ∧ m' = last.left
    ∧ (∀ c ∈ looks, c.left.objects = c.met.objects) ∧ Lands k desired last o live
    ∧ m'.object? k = some live ∧ desired.isApplied live
  /-- An update keeps the live annotations that are not set, and the live finalizers if none are. -/
  kept : a = .ok .updated → ∃ looks last old live, cs = looks ++ [last] ∧ last.met.object? k = some old
    ∧ m'.object? k = some live
    ∧ (∀ key, desired.annotation? key = none → live.annotation? key = old.annotation? key)
    ∧ (desired.metadata.finalizers = none → live.metadata.finalizers = old.metadata.finalizers)
  /-- While that object is there, another write finds it as it should be, and writes nothing. -/
  again : ∀ o, a = .ok o → ∀ later : Host, later.memory.object? k = m'.object? k →
    (.get, k.type.kind) ∉ later.memory.failures →
    ((createOrUpdate desired).run later).1 = .ok .unchanged
      ∧ ((createOrUpdate desired).run later).2.memory = later.memory.looked 1 0
  /-- Where nobody else is about, the store itself is changed so. -/
  alone : (∀ m m', others m m' → m' = m) → (∀ s ≠ k.slot, m'.objects.find? s = m.objects.find? s)
    ∧ ∀ e, a = .error e → (∀ c ∈ cs, c.lost = false) → m'.objects = m.objects

/-- A write reaches the desired state and keeps it, or changes nothing. -/
theorem createOrUpdate_reaches {a : Except Error ApplyOutcome}
    (hothers : ∀ m m', others m m' → ReflTransGen Memory.Served m m') (hm : m.Filed) (hk : desired.key = .ok k)
    (ho : desired.Ordered) (h : (createOrUpdate desired).Amid others m cs a m') :
    Reaches k desired others m cs a m' := by
  have hwrote := amid_createOrUpdate hothers hk hm h
  refine ⟨fun s hs => hwrote.find?_ne hs, ?_, ?_, ?_, ?_, fun halone => ⟨fun s hs => ?_, ?_⟩⟩
  · rintro e rfl
    exact hwrote.objects_of_error
  · rintro o rfl
    obtain ⟨looks, last, live, hcs, rfl, hlooks, hlands⟩ := hwrote.lands_of_ok
    exact ⟨looks, last, live, hcs, rfl, hlooks, hlands, hlands.object?, hlands.isApplied ho⟩
  · rintro rfl
    obtain ⟨looks, last, live, hcs, rfl, -, hlands⟩ := hwrote.lands_of_ok
    cases hlands with
    | @updated old _ hold hstamped hm =>
      have hlands : Lands k desired last .updated live := .updated hold hstamped hm
      exact ⟨looks, last, old, live, hcs, hold, hlands.object?, hlands.keeps hold⟩
  · rintro o rfl later hlater hget
    obtain ⟨looks, last, live, -, rfl, -, hlands⟩ := hwrote.lands_of_ok
    exact run_createOrUpdate_applied hk (hlater.trans hlands.object?) (hlands.isApplied ho) hget
  · exact h.same (fun m => m.objects.find? s) (fun m m' hsame => by rw [halone m m' hsame]) (hwrote.find?_ne hs)
  · rintro e rfl hlost
    exact h.same Memory.objects (fun m m' hsame => by rw [halone m m' hsame])
      fun c hc => hwrote.objects_of_error c hc (hlost c hc)

section Raced

open Crowd.Pair (cfg cfg_ordered vacant)

def cfgKey : Key := ⟨⟨"v1", "ConfigMap"⟩, none, "cfg"⟩

/-- What another writer puts in the place of the object. -/
def rival : Object :=
  { type := cfg.type
    metadata := { name := some "cfg", annotations := some [("note", "mine")], finalizers := some ["hold"] }
    data := [] }

/-- The store when the writer has found no object, when the other has come, and when the creation is refused. -/
def lookedAt : Memory := (vacant.memory.get cfgKey).2

def taken : Memory := (lookedAt.create rival).2

def refusing : Memory := (taken.create cfg).2

/-- What the writer goes on with. -/
def overtaken : Except Error ApplyOutcome × Host :=
  Session.run (do updateUnlessApplied cfg (← require cfgKey)) { memory := refusing }

theorem amid_overtaken : ∃ cs, (createOrUpdate cfg).Amid (ReflTransGen Memory.Served) vacant.memory cs
    overtaken.1 overtaken.2.memory := by
  obtain ⟨cs, hcs, -⟩ := amid_run (fun _ => ReflTransGen.refl (r := Memory.Served))
    (do updateUnlessApplied cfg (← require cfgKey)) { memory := refusing }
  have hmeets : (createOrMeet cfg cfgKey).Amid (ReflTransGen Memory.Served) lookedAt
      (⟨taken, refusing, false⟩ :: cs) overtaken.1 overtaken.2.memory :=
    ⟨_, _, cs, .single (.create rival), .served taken, rfl, hcs⟩
  rw [createOrUpdate_eq (k := cfgKey) rfl]
  exact ⟨_, _, ⟨vacant.memory, lookedAt, false⟩, _, .refl, .served _, rfl, hmeets⟩

/-- A writer that another one comes before updates the object of that one. -/
theorem cfg_reached_after_rival :
    vacant.memory.Filed ∧ cfg.key = .ok cfgKey ∧ cfg.Ordered
      ∧ overtaken.1.toOption = some .updated
      ∧ (overtaken.2.memory.object? cfgKey).any (fun live =>
        live.annotation? "note" = some "mine" ∧ live.metadata.finalizers = some ["hold"]) = true
      ∧ ∃ cs, (createOrUpdate cfg).Amid (ReflTransGen Memory.Served) vacant.memory cs overtaken.1 overtaken.2.memory
        ∧ Reaches cfgKey cfg (ReflTransGen Memory.Served) vacant.memory cs overtaken.1 overtaken.2.memory := by
  have hchecked : overtaken.1.toOption = some .updated
      ∧ (overtaken.2.memory.object? cfgKey).any (fun live =>
        live.annotation? "note" = some "mine" ∧ live.metadata.finalizers = some ["hold"]) = true := by
    decide +kernel
  have hfiled : vacant.memory.Filed := .of_nil rfl
  obtain ⟨cs, hcs⟩ := amid_overtaken
  exact ⟨hfiled, rfl, cfg_ordered, hchecked.1, hchecked.2, cs, hcs,
    createOrUpdate_reaches (fun _ _ h => h) hfiled rfl cfg_ordered hcs⟩

end Raced

end Session

end Addons
