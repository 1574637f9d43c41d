import Addons.Proofs.Bundle.Entries
import Mathlib.Data.List.Perm.Basic

/-!
# The tracking list as an ordered set

The objects that a record tracks are a set of identities in order of arrival (`RecordSpec.ordered_set`), after
whatever edits. An edit forgets an identity, or adds one at the end, or leaves the identities as they are
(`RecordSpec.identities_edit`), so that those which stay do so in their order (`RecordSpec.identities_edits`). Only
the entry of an identity changes, where it stands: it is what was tracked last.
-/

namespace Addons

/-- What objects have in common that are the same. -/
structure Identity where
  group : String
  kind : String
  name : String
  ns : Option String
  deriving DecidableEq, Repr

namespace Tracked

variable {t u : Tracked}

def identity (t : Tracked) : Identity := ⟨t.group, t.kind, t.name, t.ns⟩

theorem sameIdentity_iff_identity : t.sameIdentity u ↔ t.identity = u.identity := by
  rw [sameIdentity_iff, identity, identity, Identity.mk.injEq]

theorem sameIdentity_eq (t u : Tracked) : t.sameIdentity u = decide (t.identity = u.identity) := by
  rw [Bool.eq_iff_iff, sameIdentity_iff_identity, decide_eq_true_iff]

end Tracked

namespace RecordSpec

/-- A change of a record. -/
inductive Edit where
  | track (t : Tracked)
  | untrack (t : Tracked)
  | beginChange (fingerprint : String) (spec : ManifestSpec)
  | promote

/-- Whether an edit forgets an identity. -/
def Edit.forgets (i : Identity) : Edit → Bool
  | .untrack t => t.identity = i
  | _ => false

/-- What an edit answers, if anything, and the record that it leaves. Tracking answers whether the object was not
yet tracked as it is, promoting whether a render was pending. -/
def edit (r : RecordSpec) : Edit → Option Bool × RecordSpec
  | .track t => (some !r.tracksExactly t, r.track t)
  | .untrack t => (none, r.untrack t)
  | .beginChange fingerprint spec => (none, r.beginChange fingerprint spec)
  | .promote => (some r.isPending, r.promote)

/-- The record that edits leave, one after another. -/
def edits (r : RecordSpec) : List Edit → RecordSpec
  | [] => r
  | e :: es => (r.edit e).2.edits es

/-- The identities that are tracked, in the order of the list. -/
def identities (r : RecordSpec) : List Identity := r.objects.map Tracked.identity

/-- The identities that no edit forgets, in the order that they have before the edits. -/
def survivors (r : RecordSpec) (es : List Edit) : List Identity :=
  r.identities.filter fun i => !es.any (Edit.forgets i)

/-- The tracked objects whose identity a render has. -/
def produced (r : RecordSpec) (rendered : List Tracked) : List Tracked :=
  r.objects.filter fun o => o.identity ∈ rendered.map Tracked.identity

variable {r : RecordSpec} {t : Tracked} {os : List Tracked}

/-! ## No identity twice -/

theorem distinct_iff : r.Distinct ↔ r.identities.Nodup := by
  unfold Distinct identities List.Nodup
  rw [List.pairwise_map]
  simp only [Tracked.sameIdentity_iff_identity, ne_eq]

theorem Distinct.edit (h : r.Distinct) (e : Edit) : (r.edit e).2.Distinct := by
  cases e with
  | track t => exact h.track t
  | untrack t => exact h.untrack t
  | beginChange fingerprint spec => exact h
  | promote =>
    show r.promote.Distinct
    unfold Distinct
    rw [promote_objects]
    exact h

theorem Distinct.edits (h : r.Distinct) (es : List Edit) : (r.edits es).Distinct := by
  induction es generalizing r with
  | nil => exact h
  | cons e es ih => exact ih (h.edit e)

/-! ## Order -/

theorem map_identity_put (t : Tracked) (os : List Tracked) : (put t os).map Tracked.identity =
    if t.identity ∈ os.map Tracked.identity then os.map Tracked.identity
    else os.map Tracked.identity ++ [t.identity] := by
  induction os with
  | nil => simp [put]
  | cons o os ih =>
    unfold put
    by_cases ho : o.identity = t.identity
    · simp [Tracked.sameIdentity_iff_identity, ho]
    · rw [if_neg (mt Tracked.sameIdentity_iff_identity.1 ho), List.map_cons, ih]
      simp only [List.map_cons, List.mem_cons, Ne.symm ho, false_or]
      split <;> rfl

/-- What an edit does to the identities. -/
theorem identities_edit (r : RecordSpec) (e : Edit) :
    (∃ t, e = .track t ∧ t.identity ∉ r.identities ∧ (r.edit e).2.identities = r.identities ++ [t.identity])
      ∨ (r.edit e).2.identities = r.identities.filter fun i => !e.forgets i := by
  cases e with
  | track t =>
    have hput : (r.track t).identities
        = if t.identity ∈ r.identities then r.identities else r.identities ++ [t.identity] :=
      map_identity_put t r.objects
    by_cases ht : t.identity ∈ r.identities
    · rw [if_pos ht] at hput
      exact .inr (hput.trans (by simp [Edit.forgets, identities]))
    · rw [if_neg ht] at hput
      exact .inl ⟨t, rfl, ht, hput⟩
  | untrack t =>
    right
    show (r.objects.filter fun o => !o.sameIdentity t).map Tracked.identity = _
    unfold identities
    rw [List.filter_map]
    congr 2
    funext o
    simp [Edit.forgets, Tracked.sameIdentity_eq, eq_comm]
  | beginChange fingerprint spec => simp [edit, beginChange, identities, Edit.forgets]
  | promote => simp [edit, promote_objects, identities, Edit.forgets]

/-- Edits leave what they do not forget in its order, and what they add comes after it. -/
theorem identities_edits (r : RecordSpec) (es : List Edit) :
    ∃ newcomers, (r.edits es).identities = r.survivors es ++ newcomers
      ∧ ∀ i ∈ newcomers, ∃ t, Edit.track t ∈ es ∧ t.identity = i := by
  induction es generalizing r with
  | nil => exact ⟨[], by simp [edits, survivors], by simp⟩
  | cons e es ih =>
    obtain ⟨newcomers, hafter, hnew⟩ := ih (r.edit e).2
    have hlater : ∀ i ∈ newcomers, ∃ t, Edit.track t ∈ e :: es ∧ t.identity = i := fun i hi =>
      (hnew i hi).imp fun t ht => ⟨List.mem_cons_of_mem e ht.1, ht.2⟩
    have hedits : (r.edits (e :: es)).identities = (r.edit e).2.survivors es ++ newcomers := hafter
    rcases identities_edit r e with ⟨t, rfl, -, hstep⟩ | hstep
    · -- the arrival is a newcomer, unless a later edit forgets it
      refine ⟨[t.identity].filter (fun i => !es.any (Edit.forgets i)) ++ newcomers, ?_, ?_⟩
      · rw [hedits, survivors, hstep, List.filter_append, List.append_assoc]
        simp [survivors, Edit.forgets]
      · intro i hi
        rcases List.mem_append.1 hi with hi | hi
        · obtain rfl := List.mem_singleton.1 (List.mem_filter.1 hi).1
          exact ⟨t, List.mem_cons_self, rfl⟩
        · exact hlater i hi
    · refine ⟨newcomers, ?_, hlater⟩
      rw [hedits, survivors, hstep, List.filter_filter]
      simp [survivors, Bool.and_comm]

/-! ## The entry of an identity -/

/-- An object takes the place of the entry of its identity, or the last place. -/
theorem put_eq (h : os.Pairwise fun a b => ¬a.sameIdentity b) : put t os =
    if os.any (fun o => o.sameIdentity t) then os.map fun o => if o.sameIdentity t then t else o
    else os ++ [t] := by
  induction os with
  | nil => rfl
  | cons o os ih =>
    obtain ⟨ho, hos⟩ := List.pairwise_cons.1 h
    unfold put
    by_cases hot : o.sameIdentity t
    · have hrest : os.map (fun o => if o.sameIdentity t then t else o) = os := by
        refine (List.map_congr_left fun v hv => if_neg ?_).trans (List.map_id os)
        rw [← Tracked.sameIdentity_congr_right hot, Tracked.sameIdentity_comm]
        exact ho v hv
      simp [hot, hrest]
    · rw [if_neg hot, ih hos]
      simp only [List.any_cons, Bool.eq_false_iff.2 hot, Bool.false_or, List.map_cons]
      split <;> rfl

theorem put_eq_self_iff : put t os = os ↔ (os.find? fun o => o.sameIdentity t) = some t := by
  refine ⟨fun h => ?_, put_eq_self⟩
  induction os with
  | nil => cases h
  | cons o os ih =>
    unfold put at h
    by_cases ho : o.sameIdentity t
    · rw [if_pos ho] at h
      obtain ⟨rfl, -⟩ := List.cons.inj h
      exact find?_cons_same ho
    · rw [if_neg ho] at h
      rw [find?_cons_other ho]
      exact ih (List.cons.inj h).2

/-- Tracking answers no exactly if it leaves the list as it is. -/
theorem track_answers_false_iff (r : RecordSpec) (t : Tracked) :
    (r.edit (.track t)).1 = some false ↔ (r.edit (.track t)).2.objects = r.objects := by
  show some (!r.tracksExactly t) = some false ↔ put t r.objects = r.objects
  rw [put_eq_self_iff, ← held?, ← tracksExactly_iff]
  simp

/-! ## What a render does not produce -/

theorem stale_eq (r : RecordSpec) (rendered : List Tracked) :
    r.stale rendered = r.objects.filter fun o => !decide (o.identity ∈ rendered.map Tracked.identity) := by
  unfold stale
  congr 1
  funext o
  rw [Bool.eq_iff_iff]
  simp [Tracked.sameIdentity_eq]

/-- The stale objects are what a render leaves of the list. -/
theorem stale_append_produced (r : RecordSpec) (rendered : List Tracked) :
    (r.stale rendered ++ r.produced rendered).Perm r.objects := by
  rw [stale_eq]
  exact List.perm_append_comm.trans (List.filter_append_perm _ r.objects)

theorem disjoint_stale_produced (r : RecordSpec) (rendered : List Tracked) :
    (r.stale rendered).Disjoint (r.produced rendered) := by
  intro o hstale hproduced
  rw [stale_eq] at hstale
  have hnot := (List.mem_filter.1 hstale).2
  rw [(List.mem_filter.1 hproduced).2] at hnot
  cases hnot

theorem objects_edits_untrack (r : RecordSpec) (ts : List Tracked) :
    (r.edits (ts.map .untrack)).objects = r.objects.filter fun o => o.identity ∉ ts.map Tracked.identity := by
  induction ts generalizing r with
  | nil => simp [edits]
  | cons t ts ih =>
    have hstep : (r.edit (.untrack t)).2.objects = r.objects.filter fun o => !o.sameIdentity t := rfl
    rw [List.map_cons, edits, ih, hstep, List.filter_filter]
    congr 1
    funext o
    rw [Bool.eq_iff_iff]
    simp [Tracked.sameIdentity_eq, and_comm]

/-- Without its stale objects a list is that of what the render produces. -/
theorem objects_untrack_stale (r : RecordSpec) (rendered : List Tracked) :
    (r.edits ((r.stale rendered).map .untrack)).objects = r.produced rendered := by
  rw [objects_edits_untrack, stale_eq]
  refine List.filter_congr fun o ho => ?_
  rw [Bool.eq_iff_iff, decide_eq_true_iff, decide_eq_true_iff]
  constructor
  · intro hkept
    by_contra hnot
    exact hkept (List.mem_map_of_mem (List.mem_filter.2 ⟨ho, by simpa using hnot⟩))
  · intro hproduced hstale
    obtain ⟨s, hs, hsame⟩ := List.mem_map.1 hstale
    have hnot := (List.mem_filter.1 hs).2
    rw [hsame] at hnot
    simp [hproduced] at hnot

/-- After any edits of a fresh record, what it tracks is an ordered set by identity: none comes twice, those that
further edits do not forget keep their order and new ones follow, tracking replaces in place or appends and answers
whether it changed the list, and the list falls apart into what a render produces and what is stale, which is
untracked to leave the former. -/
theorem ordered_set (spec : ManifestSpec) (fingerprint : String) (before after : List Edit) :
    let r := (ofSpec spec fingerprint).edits before
    r.identities.Nodup
      ∧ (∃ newcomers, (r.edits after).identities = r.survivors after ++ newcomers
        ∧ ∀ i ∈ newcomers, ∃ t, Edit.track t ∈ after ∧ t.identity = i)
      ∧ (∀ t, (r.edit (.track t)).2.objects =
        if r.isTracked t then r.objects.map fun o => if o.sameIdentity t then t else o else r.objects ++ [t])
      ∧ (∀ t, (r.edit (.track t)).1 = some false ↔ (r.edit (.track t)).2.objects = r.objects)
      ∧ ∀ rendered, (r.stale rendered ++ r.produced rendered).Perm r.objects
        ∧ (r.stale rendered).Disjoint (r.produced rendered)
        ∧ (r.edits ((r.stale rendered).map .untrack)).objects = r.produced rendered := by
  intro r
  have hfresh : (ofSpec spec fingerprint).Distinct := .nil
  have hdistinct : r.Distinct := hfresh.edits before
  refine ⟨distinct_iff.1 hdistinct, identities_edits r after, fun t => put_eq hdistinct,
    track_answers_false_iff r, fun rendered => ⟨?_, ?_, ?_⟩⟩
  · exact stale_append_produced r rendered
  · exact disjoint_stale_produced r rendered
  · exact objects_untrack_stale r rendered

section Shop

def shop : ManifestSpec := { url := "https://example.com/shop.yaml" }

def web : Tracked := .new "apps/v1beta2" "Deployment" "web" (some "shop")

/-- The same object under another version of its API. -/
def laterWeb : Tracked := .new "apps/v1" "Deployment" "web" (some "shop")

def cache : Tracked := .new "v1" "ConfigMap" "cache" (some "shop")

def reader : Tracked := .new "rbac.authorization.k8s.io/v1" "ClusterRole" "reader" none

def opened : List Edit := [.track web, .track cache, .track reader]

/-- An object comes back after it was forgotten, and another one changes its version. -/
def upgraded : List Edit := [.beginChange "2" shop, .untrack cache, .track laterWeb, .track cache, .promote]

theorem upgrade_in_order :
    ((ofSpec shop "1").edits opened).identities = [web.identity, cache.identity, reader.identity]
      ∧ (((ofSpec shop "1").edits opened).edits upgraded).objects = [laterWeb, reader, cache]
      ∧ (∃ newcomers, (((ofSpec shop "1").edits opened).edits upgraded).identities
          = [web.identity, reader.identity] ++ newcomers
        ∧ newcomers = [cache.identity] ∧ ∃ t, Edit.track t ∈ upgraded ∧ t.identity = cache.identity)
      ∧ (((ofSpec shop "1").edits opened).edits
        ((((ofSpec shop "1").edits opened).stale [laterWeb]).map .untrack)).objects = [web] := by
  obtain ⟨-, ⟨newcomers, hafter, hnew⟩, -, -, hrendered⟩ := ordered_set shop "1" opened upgraded
  have hsurvivors : ((ofSpec shop "1").edits opened).survivors upgraded = [web.identity, reader.identity] := by
    decide
  have hidentities : (((ofSpec shop "1").edits opened).edits upgraded).identities
      = [web.identity, reader.identity, cache.identity] := by
    decide
  have hproduced : ((ofSpec shop "1").edits opened).produced [laterWeb] = [web] := by decide
  rw [hsurvivors] at hafter
  have hcache : newcomers = [cache.identity] := by simpa [hidentities] using hafter.symm
  refine ⟨by decide, by decide, ⟨newcomers, hafter, hcache, hnew _ ?_⟩,
    (hrendered [laterWeb]).2.2.trans hproduced⟩
  rw [hcache]
  exact List.mem_singleton_self _

end Shop

end RecordSpec

end Addons
