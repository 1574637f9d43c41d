import Addons.Component.Bundle
import Addons.Proofs.Object.Identity

/-!
# Entries of a record

The tracked objects of a record are a map from identities to entries (`RecordSpec.held?`). Tracking an object
sets its entry, forgetting one drops it, and what a render does not produce is not touched by tracking what it
does. Of several documents with one identity the last counts (`Bundle.lastOf`).
-/

namespace Addons

namespace RecordSpec

/-- The record without the settings of its component. -/
def ledger (r : RecordSpec) : RecordSpec :=
  { url := "", checksum := r.checksum, newChecksum := r.newChecksum, objects := r.objects }

theorem ledger_track (r : RecordSpec) (t : Tracked) : (r.track t).ledger = r.ledger.track t := rfl

theorem ledger_untrack (r : RecordSpec) (t : Tracked) : (r.untrack t).ledger = r.ledger.untrack t := rfl

theorem ledger_promote (r : RecordSpec) : r.promote.ledger = r.ledger.promote := by
  unfold promote
  show _ = if r.isPending then _ else _
  by_cases h : r.isPending
  · rw [if_pos h, if_pos h]
    rfl
  · rw [if_neg h, if_neg h]

theorem ledger_eq {r s : RecordSpec} (hc : r.checksum = s.checksum) (hn : r.newChecksum = s.newChecksum)
    (ho : r.objects = s.objects) : r.ledger = s.ledger := by
  unfold ledger
  rw [hc, hn, ho]

/-- The entry of an identity. -/
def held? (r : RecordSpec) (u : Tracked) : Option Tracked := r.objects.find? fun o => o.sameIdentity u

/-- No identity is tracked twice. -/
def Distinct (r : RecordSpec) : Prop := r.objects.Pairwise fun a b => ¬a.sameIdentity b

variable {r : RecordSpec} {t u : Tracked}

theorem find?_cons_same {os : List Tracked} (h : t.sameIdentity u) :
    ((t :: os).find? fun o => o.sameIdentity u) = some t := List.find?_cons_of_pos h

theorem find?_cons_other {os : List Tracked} (h : ¬t.sameIdentity u) :
    ((t :: os).find? fun o => o.sameIdentity u) = os.find? fun o => o.sameIdentity u :=
  List.find?_cons_of_neg h

theorem sameIdentity_of_held? (h : r.held? u = some t) : t.sameIdentity u :=
  List.find?_some (p := fun o : Tracked => o.sameIdentity u) h

theorem mem_of_held? (h : r.held? u = some t) : t ∈ r.objects := List.mem_of_find?_eq_some h

theorem held?_eq_some (hd : r.Distinct) (ht : t ∈ r.objects) : r.held? t = some t := by
  unfold Distinct at hd
  unfold held?
  generalize r.objects = os at hd ht
  induction os with
  | nil => exact absurd ht List.not_mem_nil
  | cons o os ih =>
    obtain ⟨ho, hos⟩ := List.pairwise_cons.1 hd
    rcases List.mem_cons.1 ht with rfl | ht
    · exact find?_cons_same (Tracked.sameIdentity_refl t)
    · rw [find?_cons_other (ho t ht)]
      exact ih hos ht

theorem isTracked_eq (r : RecordSpec) (u : Tracked) : r.isTracked u = (r.held? u).isSome := by
  unfold isTracked held?
  rw [List.isSome_find?]

theorem tracksExactly_iff : r.tracksExactly t ↔ r.held? t = some t := by
  unfold tracksExactly held?
  exact decide_eq_true_iff

/-! ## Tracking -/

theorem mem_put {os : List Tracked} (h : u ∈ put t os) : u = t ∨ u ∈ os := by
  induction os with
  | nil => exact .inl (List.mem_singleton.1 h)
  | cons o os ih =>
    unfold put at h
    split at h
    · exact (List.mem_cons.1 h).imp_right (List.mem_cons_of_mem o)
    · rcases List.mem_cons.1 h with rfl | h
      · exact .inr List.mem_cons_self
      · exact (ih h).imp_right (List.mem_cons_of_mem o)

/-- An object that is tracked as it is changes nothing. -/
theorem put_eq_self {os : List Tracked} (h : (os.find? fun o => o.sameIdentity t) = some t) :
    put t os = os := by
  induction os with
  | nil => cases h
  | cons o os ih =>
    unfold put
    by_cases ho : o.sameIdentity t
    · rw [find?_cons_same ho] at h
      rw [if_pos ho, Option.some.inj h]
    · rw [find?_cons_other ho] at h
      rw [if_neg ho, ih h]

theorem track_eq_self (h : r.tracksExactly t) : r.track t = r := by
  unfold track
  rw [put_eq_self (tracksExactly_iff.1 h)]

theorem find?_put (t u : Tracked) (os : List Tracked) :
    ((put t os).find? fun o => o.sameIdentity u)
      = if t.sameIdentity u then some t else os.find? fun o => o.sameIdentity u := by
  induction os with
  | nil =>
    show List.find? _ [t] = _
    rw [List.find?_singleton]
    rfl
  | cons o os ih =>
    unfold put
    by_cases ho : o.sameIdentity t
    · rw [if_pos ho]
      by_cases hu : t.sameIdentity u
      · rw [if_pos hu]
        exact find?_cons_same hu
      · have hou : ¬o.sameIdentity u := by rwa [Tracked.sameIdentity_congr ho]
        rw [if_neg hu, find?_cons_other hu]
        exact (find?_cons_other hou).symm
    · rw [if_neg ho, List.find?_cons, List.find?_cons, ih]
      by_cases hu : t.sameIdentity u
      · have hou : o.sameIdentity u = false := by
          rw [← Tracked.sameIdentity_congr_right hu]
          exact Bool.eq_false_iff.2 ho
        rw [if_pos hu, hou, if_pos hu]
      · rw [if_neg hu, if_neg hu]

theorem held?_track (r : RecordSpec) (t u : Tracked) :
    (r.track t).held? u = if t.sameIdentity u then some t else r.held? u := find?_put t u r.objects

theorem isTracked_track : (r.track t).isTracked u ↔ t.sameIdentity u ∨ r.isTracked u := by
  rw [isTracked_eq, isTracked_eq, held?_track]
  by_cases h : t.sameIdentity u
  · simp [h]
  · simp [h]

theorem Distinct.track (h : r.Distinct) (t : Tracked) : (r.track t).Distinct := by
  unfold Distinct at h
  show (put t r.objects).Pairwise _
  generalize r.objects = os at h
  induction os with
  | nil => exact List.pairwise_singleton _ t
  | cons o os ih =>
    obtain ⟨ho, hos⟩ := List.pairwise_cons.1 h
    unfold put
    by_cases hot : o.sameIdentity t
    · rw [if_pos hot, List.pairwise_cons]
      exact ⟨fun v hv => by rw [← Tracked.sameIdentity_congr hot]; exact ho v hv, hos⟩
    · rw [if_neg hot, List.pairwise_cons]
      refine ⟨fun v hv => ?_, ih hos⟩
      rcases mem_put hv with rfl | hv
      · exact hot
      · exact ho v hv

/-! ## Forgetting -/

theorem held?_untrack (r : RecordSpec) (t u : Tracked) :
    (r.untrack t).held? u = if t.sameIdentity u then none else r.held? u := by
  show List.find? _ (r.objects.filter _) = _
  unfold held?
  rw [List.find?_filter]
  by_cases hu : t.sameIdentity u
  · rw [if_pos hu, List.find?_eq_none]
    intro o _
    rw [Tracked.sameIdentity_congr_right hu, decide_eq_true_iff]
    rintro ⟨hn, ho⟩
    rw [ho] at hn
    cases hn
  · rw [if_neg hu]
    congr 1
    funext o
    by_cases hou : o.sameIdentity u
    · have hot : o.sameIdentity t = false := by
        rw [Tracked.sameIdentity_comm o t, Tracked.sameIdentity_congr_right hou]
        exact Bool.eq_false_iff.2 hu
      rw [hot, hou]
      rfl
    · rw [Bool.eq_false_iff.2 hou]
      exact decide_eq_false fun h => Bool.false_ne_true h.2

theorem isTracked_untrack : (r.untrack t).isTracked u ↔ ¬t.sameIdentity u ∧ r.isTracked u := by
  rw [isTracked_eq, isTracked_eq, held?_untrack]
  by_cases h : t.sameIdentity u
  · simp [h]
  · simp [h]

theorem Distinct.untrack (h : r.Distinct) (t : Tracked) : (r.untrack t).Distinct :=
  List.Pairwise.filter _ h

/-! ## Promoting -/

theorem promote_objects (r : RecordSpec) : r.promote.objects = r.objects := by
  unfold promote
  split <;> rfl

theorem promote_newChecksum (r : RecordSpec) : r.promote.newChecksum = "" := by
  unfold promote isPending
  split
  · rfl
  · rename_i h
    simpa using h

theorem promote_checksum (r : RecordSpec) :
    r.promote.checksum = if r.newChecksum = "" then r.checksum else r.newChecksum := by
  unfold promote isPending
  by_cases h : r.newChecksum = ""
  · rw [if_pos h, h]
    rfl
  · rw [if_neg h, if_pos (by simpa using h)]

/-! ## What a render does not produce -/

section Stale

variable {rendered : List Tracked}

theorem mem_stale : u ∈ r.stale rendered ↔ u ∈ r.objects ∧ ∀ t ∈ rendered, ¬t.sameIdentity u := by
  unfold stale
  rw [List.mem_filter, Bool.not_eq_true', List.any_eq_false]

/-- Tracking what is rendered does not make anything stale, nor unmake it. -/
theorem stale_track (ht : t ∈ rendered) : (r.track t).stale rendered = r.stale rendered := by
  have hself : (rendered.any fun v => v.sameIdentity t) = true :=
    List.any_eq_true.2 ⟨t, ht, Tracked.sameIdentity_refl t⟩
  show (put t r.objects).filter _ = r.objects.filter _
  generalize r.objects = os
  induction os with
  | nil =>
    show List.filter _ [t] = []
    rw [List.filter_cons_of_neg (by rw [hself]; exact Bool.false_ne_true)]
    rfl
  | cons o os ih =>
    unfold put
    by_cases hot : o.sameIdentity t
    · have ho : (rendered.any fun v => v.sameIdentity o) = true :=
        List.any_eq_true.2 ⟨t, ht, Tracked.sameIdentity_symm hot⟩
      rw [if_pos hot, List.filter_cons_of_neg (by rw [hself]; exact Bool.false_ne_true),
        List.filter_cons_of_neg (by rw [ho]; exact Bool.false_ne_true)]
    · rw [if_neg hot, List.filter_cons, List.filter_cons, ih]

end Stale

end RecordSpec

/-! ## The last document of an identity -/

namespace Bundle

/-- The last rendered document of an identity. -/
def lastOf (rendered : List Prepared) (u : Tracked) : Option Prepared :=
  rendered.reverse.find? fun p => p.tracked.sameIdentity u

variable {rendered : List Prepared} {p : Prepared} {u : Tracked}

theorem lastOf_append (ps : List Prepared) (p : Prepared) (u : Tracked) :
    lastOf (ps ++ [p]) u = if p.tracked.sameIdentity u then some p else lastOf ps u := by
  unfold lastOf
  rw [List.reverse_append, List.reverse_singleton, List.singleton_append, List.find?_cons]
  by_cases h : p.tracked.sameIdentity u
  · rw [if_pos h, h]
  · rw [if_neg h, Bool.eq_false_iff.2 h]

theorem mem_of_lastOf (h : lastOf rendered u = some p) : p ∈ rendered :=
  List.mem_reverse.1 (List.mem_of_find?_eq_some h)

theorem sameIdentity_of_lastOf (h : lastOf rendered u = some p) : p.tracked.sameIdentity u :=
  List.find?_some (p := fun p : Prepared => p.tracked.sameIdentity u) h

theorem lastOf_congr {t : Tracked} (h : t.sameIdentity u) : lastOf rendered t = lastOf rendered u := by
  unfold lastOf
  congr 1
  exact funext fun q => Tracked.sameIdentity_congr_right h q.tracked

theorem lastOf_eq_none : lastOf rendered u = none ↔ ∀ p ∈ rendered, ¬p.tracked.sameIdentity u := by
  unfold lastOf
  rw [List.find?_eq_none]
  exact ⟨fun h p hp => h p (List.mem_reverse.2 hp), fun h p hp => h p (List.mem_reverse.1 hp)⟩

theorem exists_lastOf (hp : p ∈ rendered) : ∃ q, lastOf rendered p.tracked = some q := by
  cases h : lastOf rendered p.tracked with
  | some q => exact ⟨q, rfl⟩
  | none => exact absurd (Tracked.sameIdentity_refl _) (lastOf_eq_none.1 h p hp)

end Bundle

end Addons
