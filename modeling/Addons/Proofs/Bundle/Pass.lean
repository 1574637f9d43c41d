import Addons.Proofs.Bundle.Entries
import Addons.Proofs.Store.Requests
import Mathlib.Logic.Relation

/-!
# A pass over a bundle

A pass brings the objects in line with a render: it writes one document after the other and tracks each, then
deletes what has become stale and forgets it, and settles the record. `Step` is that, one write at a time, on
what the record says and on the deeds outside of the record; a pass that is cut short is a path that stops.

`Sound.steps` holds what every path keeps to, wherever it stops: the entries of the record are those of the
documents tracked so far, over those that were there and are not pruned yet, and what was written last in the
place of a document is that document.
-/

namespace Addons

/-- A record as its component keeps it; `own` is the place of the record itself. -/
structure RecordSpec.Tidy (own : Slot) (r : RecordSpec) : Prop where
  distinct : r.Distinct
  placed : ∀ t ∈ r.objects, t.Placed
  apart : ∀ t ∈ r.objects, t.slot ≠ own
  pending : r.newChecksum ≠ "" → r.newChecksum ≠ r.checksum

namespace Bundle

/-- How far a pass has come. -/
inductive Phase where
  /-- Documents are written; those before are tracked. -/
  | write (before after : List Prepared)
  /-- A document was written and is not tracked yet. -/
  | track (before : List Prepared) (p : Prepared) (after : List Prepared)
  /-- Stale objects are deleted. -/
  | prune (stale : List Tracked)
  /-- A stale object is gone and still tracked. -/
  | forget (t : Tracked) (stale : List Tracked)
  | done

/-- A pass: how far it is, what the record says, and the deeds outside of the record. -/
structure Pass where
  phase : Phase
  record : RecordSpec
  log : List Event

/-- What is in a slot after some events. -/
def after (shelf : Slot → Option Object) (log : List Event) (s : Slot) : Option Object :=
  (Event.lastLeft? log s).getD (shelf s)

section Steps

variable (shelf : Slot → Option Object) (rendered : List Prepared)

/-- One thing done on a pass over a render; `shelf` is what there was when it began. -/
inductive Step : Pass → Pass → Prop
  | write {before after : List Prepared} {p : Prepared} {r : RecordSpec} {log : List Event}
      {live : Object} : live.Carries p →
      Step ⟨.write before (p :: after), r, log⟩
        ⟨.track before p after, r, log ++ [some ⟨p.key.slot, some live⟩]⟩
  | track {before after : List Prepared} {p : Prepared} {r : RecordSpec} {log : List Event} :
      Step ⟨.track before p after, r, log⟩ ⟨.write (before ++ [p]) after, r.track p.tracked, log⟩
  | turn {before : List Prepared} {r : RecordSpec} {log : List Event} :
      Step ⟨.write before [], r, log⟩ ⟨.prune (r.stale (rendered.map Prepared.tracked)), r, log⟩
  | prune {t : Tracked} {ts : List Tracked} {r : RecordSpec} {log : List Event} :
      Step ⟨.prune (t :: ts), r, log⟩ ⟨.forget t ts, r, log ++ [some ⟨t.slot, none⟩]⟩
  | gone {t : Tracked} {ts : List Tracked} {r : RecordSpec} {log : List Event} :
      Bundle.after shelf log t.slot = none → Step ⟨.prune (t :: ts), r, log⟩ ⟨.forget t ts, r, log⟩
  | forget {t : Tracked} {ts : List Tracked} {r : RecordSpec} {log : List Event} :
      Step ⟨.forget t ts, r, log⟩ ⟨.prune ts, r.untrack t, log⟩
  | settle {r : RecordSpec} {log : List Event} : Step ⟨.prune [], r, log⟩ ⟨.done, r.promote, log⟩

abbrev Steps : Pass → Pass → Prop := Relation.ReflTransGen (Step shelf rendered)

/-! ## What a pass keeps to -/

variable (r₀ : RecordSpec)

/-- The entry that was there, for identities that are among some. -/
def entryAmong (ts : List Tracked) (u : Tracked) : Option Tracked :=
  if ts.any fun t => t.sameIdentity u then r₀.held? u else none

namespace Phase

/-- The documents written so far. -/
def written : Phase → List Prepared
  | write before _ => before
  | track before p _ => before ++ [p]
  | _ => rendered

/-- The entries of the record; `r₀` is the record with which the pass began. -/
def entries : Phase → Tracked → Option Tracked
  | write before _, u | track before _ _, u => ((lastOf before u).map Prepared.tracked).or (r₀.held? u)
  | prune ts, u => ((lastOf rendered u).map Prepared.tracked).or (entryAmong r₀ ts u)
  | forget t ts, u => ((lastOf rendered u).map Prepared.tracked).or (entryAmong r₀ (t :: ts) u)
  | done, u => (lastOf rendered u).map Prepared.tracked

/-- The record with the fingerprints of the phase. -/
def sums : Phase → RecordSpec
  | done => r₀.promote
  | _ => r₀

/-- The stale objects that are still there. -/
def stale : Phase → List Tracked
  | write _ _ | track _ _ _ => r₀.stale (rendered.map Prepared.tracked)
  | prune ts | forget _ ts => ts
  | done => []

/-- What is left to do is what the render and the record ask for. -/
def Fits (r : RecordSpec) : Phase → Prop
  | write before after =>
    rendered = before ++ after
      ∧ r.stale (rendered.map Prepared.tracked) = r₀.stale (rendered.map Prepared.tracked)
  | track before p after =>
    rendered = before ++ p :: after
      ∧ r.stale (rendered.map Prepared.tracked) = r₀.stale (rendered.map Prepared.tracked)
  | prune ts => List.Sublist ts (r₀.stale (rendered.map Prepared.tracked))
  | forget t ts => List.Sublist (t :: ts) (r₀.stale (rendered.map Prepared.tracked))
  | done => True

end Phase

structure Sound (σ : Pass) : Prop where
  fits : σ.phase.Fits rendered r₀ σ.record
  distinct : σ.record.Distinct
  checksum : σ.record.checksum = (σ.phase.sums r₀).checksum
  newChecksum : σ.record.newChecksum = (σ.phase.sums r₀).newChecksum
  entries : ∀ u, σ.record.held? u = σ.phase.entries rendered r₀ u
  landed : ∀ u p, lastOf (σ.phase.written rendered) u = some p →
    ∃ live, live.Carries p ∧ Event.lastLeft? σ.log p.key.slot = some (some live)
  absent : ∀ t ∈ r₀.stale (rendered.map Prepared.tracked), t ∉ σ.phase.stale rendered r₀ →
    after shelf σ.log t.slot = none

/-! ## Steps keep to it -/

section Keep

variable {shelf rendered r₀}
variable {before after' : List Prepared} {p : Prepared} {t : Tracked} {ts : List Tracked} {r : RecordSpec}
variable {log : List Event} {live : Object}

theorem after_concat_self (shelf : Slot → Option Object) (log : List Event) (d : Deed) :
    after shelf (log ++ [some d]) d.slot = d.left := by
  unfold after
  rw [Event.lastLeft?_concat_self]
  rfl

theorem after_concat_ne {d : Deed} {s : Slot} (h : d.slot ≠ s) :
    after shelf (log ++ [some d]) s = after shelf log s := by
  unfold after
  rw [Event.lastLeft?_concat_ne h]

/-- A pass begins with nothing written. -/
theorem Sound.start (hd : r₀.Distinct) : Sound shelf rendered r₀ ⟨.write [] rendered, r₀, []⟩ where
  fits := ⟨rfl, rfl⟩
  distinct := hd
  checksum := rfl
  newChecksum := rfl
  entries := fun _ => rfl
  landed := fun _ _ h => nomatch h
  absent := fun _ ht hn => absurd ht hn

/-- A written document is what its place holds; documents of other identities have other places. -/
theorem Sound.write (hplaced : ∀ p ∈ rendered, p.tracked.Placed) (hlive : live.Carries p)
    (h : Sound shelf rendered r₀ ⟨.write before (p :: after'), r, log⟩) :
    Sound shelf rendered r₀ ⟨.track before p after', r, log ++ [some ⟨p.key.slot, some live⟩]⟩ where
  fits := h.fits
  distinct := h.distinct
  checksum := h.checksum
  newChecksum := h.newChecksum
  entries := h.entries
  landed := by
    intro u q hq
    have hmem : ∀ q ∈ before ++ [p], q ∈ rendered := by
      intro q hq
      rw [h.fits.1]
      rw [List.mem_append] at hq ⊢
      exact hq.imp_right fun hq => List.mem_cons.2 (.inl (List.mem_singleton.1 hq))
    change lastOf (before ++ [p]) u = some q at hq
    have hqm := hmem q (mem_of_lastOf hq)
    rw [lastOf_append] at hq
    by_cases hpu : p.tracked.sameIdentity u
    · rw [if_pos hpu] at hq
      obtain rfl := Option.some.inj hq
      exact ⟨live, hlive, Event.lastLeft?_concat_self log ⟨p.key.slot, some live⟩⟩
    · rw [if_neg hpu] at hq
      obtain ⟨old, hold, hlog⟩ := h.landed u q hq
      have hne : p.tracked.slot ≠ q.tracked.slot := by
        intro hslot
        have hpm := hmem p (List.mem_append_right _ (List.mem_singleton_self p))
        have hpq := (Tracked.slot_eq_iff (hplaced p hpm) (hplaced q hqm)).1 hslot
        exact hpu (Tracked.sameIdentity_trans hpq (sameIdentity_of_lastOf hq))
      exact ⟨old, hold, (Event.lastLeft?_concat_ne (d := ⟨p.key.slot, _⟩) hne log).trans hlog⟩
  absent := fun _ ht hn => absurd ht hn

theorem Sound.track (h : Sound shelf rendered r₀ ⟨.track before p after', r, log⟩) :
    Sound shelf rendered r₀ ⟨.write (before ++ [p]) after', r.track p.tracked, log⟩ where
  fits := by
    obtain ⟨hdocs, hstale⟩ := h.fits
    have hp : p ∈ rendered := by
      rw [hdocs]
      exact List.mem_append_right _ List.mem_cons_self
    refine ⟨?_, (RecordSpec.stale_track (List.mem_map_of_mem hp)).trans hstale⟩
    rw [hdocs, List.append_assoc]
    rfl
  distinct := h.distinct.track _
  checksum := h.checksum
  newChecksum := h.newChecksum
  entries := by
    intro u
    have hu := h.entries u
    show (r.track p.tracked).held? u = ((lastOf (before ++ [p]) u).map Prepared.tracked).or (r₀.held? u)
    rw [RecordSpec.held?_track, lastOf_append]
    by_cases hpu : p.tracked.sameIdentity u
    · rw [if_pos hpu, if_pos hpu]
      rfl
    · rw [if_neg hpu, if_neg hpu]
      exact hu
  landed := h.landed
  absent := h.absent

/-- When all is written, what is left of the old entries is stale. -/
theorem Sound.turn (h : Sound shelf rendered r₀ ⟨.write before [], r, log⟩) :
    Sound shelf rendered r₀ ⟨.prune (r.stale (rendered.map Prepared.tracked)), r, log⟩ := by
  obtain ⟨hdocs, hstale⟩ := h.fits
  rw [List.append_nil] at hdocs
  subst hdocs
  refine ⟨?_, h.distinct, h.checksum, h.newChecksum, ?_, h.landed, fun t ht hn => ?_⟩
  · rw [hstale]
    exact List.Sublist.refl _
  · intro u
    rw [h.entries u]
    show ((lastOf rendered u).map Prepared.tracked).or (r₀.held? u)
      = ((lastOf rendered u).map Prepared.tracked).or (entryAmong r₀ _ u)
    cases hl : lastOf rendered u with
    | some q => rfl
    | none =>
      rw [hstale]
      unfold entryAmong
      cases he : r₀.held? u with
      | none => rw [ite_self]
      | some t =>
        have htu := RecordSpec.sameIdentity_of_held? he
        have ht : t ∈ r₀.stale (rendered.map Prepared.tracked) := by
          refine RecordSpec.mem_stale.2 ⟨RecordSpec.mem_of_held? he, ?_⟩
          rw [List.forall_mem_map]
          intro q hq hqt
          exact lastOf_eq_none.1 hl q hq (Tracked.sameIdentity_trans hqt htu)
        rw [if_pos (List.any_eq_true.2 ⟨t, ht, htu⟩)]
  · rw [hstale] at hn
    exact absurd ht hn

/-- What is stale has another place than what is rendered. -/
theorem slot_ne_of_stale (hplaced : ∀ p ∈ rendered, p.tracked.Placed) (hr₀ : ∀ t ∈ r₀.objects, t.Placed)
    (ht : t ∈ r₀.stale (rendered.map Prepared.tracked)) {q : Prepared} (hq : q ∈ rendered) :
    t.slot ≠ q.key.slot := by
  obtain ⟨hobj, hnot⟩ := RecordSpec.mem_stale.1 ht
  intro hslot
  refine hnot q.tracked (List.mem_map_of_mem hq) ?_
  exact (Tracked.slot_eq_iff (hplaced q hq) (hr₀ t hobj)).1 hslot.symm

theorem Sound.prune (hplaced : ∀ p ∈ rendered, p.tracked.Placed) (hr₀ : ∀ t ∈ r₀.objects, t.Placed)
    (h : Sound shelf rendered r₀ ⟨.prune (t :: ts), r, log⟩) :
    Sound shelf rendered r₀ ⟨.forget t ts, r, log ++ [some ⟨t.slot, none⟩]⟩ where
  fits := h.fits
  distinct := h.distinct
  checksum := h.checksum
  newChecksum := h.newChecksum
  entries := h.entries
  landed := by
    intro u q hq
    obtain ⟨live, hlive, hlog⟩ := h.landed u q hq
    have ht : t ∈ r₀.stale (rendered.map Prepared.tracked) := h.fits.subset List.mem_cons_self
    have hne := slot_ne_of_stale hplaced hr₀ ht (mem_of_lastOf hq)
    exact ⟨live, hlive, (Event.lastLeft?_concat_ne (d := ⟨t.slot, none⟩) hne log).trans hlog⟩
  absent := by
    intro t' ht' hn
    by_cases hs : t.slot = t'.slot
    · rw [← hs]
      exact after_concat_self shelf log ⟨t.slot, none⟩
    · rw [after_concat_ne (d := ⟨t.slot, none⟩) hs]
      refine h.absent t' ht' fun hm => ?_
      rcases List.mem_cons.1 hm with rfl | hm
      · exact hs rfl
      · exact hn hm

theorem Sound.gone (hgone : after shelf log t.slot = none)
    (h : Sound shelf rendered r₀ ⟨.prune (t :: ts), r, log⟩) :
    Sound shelf rendered r₀ ⟨.forget t ts, r, log⟩ where
  fits := h.fits
  distinct := h.distinct
  checksum := h.checksum
  newChecksum := h.newChecksum
  entries := h.entries
  landed := h.landed
  absent := by
    intro t' ht' hn
    by_cases htt : t' = t
    · rw [htt]
      exact hgone
    · exact h.absent t' ht' fun hm => (List.mem_cons.1 hm).elim htt hn

theorem Sound.forget (hr₀ : r₀.Distinct) (h : Sound shelf rendered r₀ ⟨.forget t ts, r, log⟩) :
    Sound shelf rendered r₀ ⟨.prune ts, r.untrack t, log⟩ where
  fits := (List.sublist_cons_self t ts).trans h.fits
  distinct := h.distinct.untrack t
  checksum := h.checksum
  newChecksum := h.newChecksum
  entries := by
    intro u
    have hu := h.entries u
    change r.held? u = ((lastOf rendered u).map Prepared.tracked).or (entryAmong r₀ (t :: ts) u) at hu
    show (r.untrack t).held? u = ((lastOf rendered u).map Prepared.tracked).or (entryAmong r₀ ts u)
    rw [RecordSpec.held?_untrack, hu]
    by_cases htu : t.sameIdentity u
    · have hmem := h.fits.subset (List.mem_cons_self (a := t))
      have hlast : lastOf rendered u = none := by
        rw [lastOf_eq_none]
        intro q hq hqu
        refine (RecordSpec.mem_stale.1 hmem).2 q.tracked (List.mem_map_of_mem hq) ?_
        exact Tracked.sameIdentity_trans hqu (Tracked.sameIdentity_symm htu)
      have hts : (ts.any fun t => t.sameIdentity u) = false := by
        rw [List.any_eq_false]
        intro v hv hvu
        have hpair := (List.Pairwise.filter _ hr₀).sublist h.fits
        exact (List.pairwise_cons.1 hpair).1 v hv
          (Tracked.sameIdentity_trans htu (Tracked.sameIdentity_symm hvu))
      rw [if_pos htu, hlast, entryAmong, hts]
      rfl
    · rw [if_neg htu, entryAmong, entryAmong, List.any_cons, Bool.eq_false_iff.2 htu, Bool.false_or]
  landed := h.landed
  absent := h.absent

theorem Sound.settle (h : Sound shelf rendered r₀ ⟨.prune [], r, log⟩) :
    Sound shelf rendered r₀ ⟨.done, r.promote, log⟩ where
  fits := trivial
  distinct := by
    show (r.promote.objects).Pairwise _
    rw [RecordSpec.promote_objects]
    exact h.distinct
  checksum := by
    show r.promote.checksum = r₀.promote.checksum
    rw [RecordSpec.promote_checksum, RecordSpec.promote_checksum, show r.checksum = r₀.checksum from h.checksum,
      show r.newChecksum = r₀.newChecksum from h.newChecksum]
  newChecksum := (RecordSpec.promote_newChecksum r).trans (RecordSpec.promote_newChecksum r₀).symm
  entries := by
    intro u
    have hu := h.entries u
    change r.held? u = ((lastOf rendered u).map Prepared.tracked).or none at hu
    rw [Option.or_none] at hu
    show r.promote.held? u = _
    unfold RecordSpec.held?
    rw [RecordSpec.promote_objects]
    exact hu
  landed := h.landed
  absent := h.absent

end Keep

/-- Whatever a pass does next keeps to it. -/
theorem Sound.step {σ σ' : Pass} (hplaced : ∀ p ∈ rendered, p.tracked.Placed)
    (hd : r₀.Distinct) (hr₀ : ∀ t ∈ r₀.objects, t.Placed) (h : Sound shelf rendered r₀ σ)
    (hs : Step shelf rendered σ σ') : Sound shelf rendered r₀ σ' := by
  cases hs with
  | write hlive => exact h.write hplaced hlive
  | track => exact h.track
  | turn => exact h.turn
  | prune => exact h.prune hplaced hr₀
  | gone hgone => exact h.gone hgone
  | forget => exact h.forget hd
  | settle => exact h.settle

theorem Sound.steps {σ : Pass} (hplaced : ∀ p ∈ rendered, p.tracked.Placed)
    (hd : r₀.Distinct) (hr₀ : ∀ t ∈ r₀.objects, t.Placed)
    (hs : Steps shelf rendered ⟨.write [] rendered, r₀, []⟩ σ) : Sound shelf rendered r₀ σ := by
  induction hs with
  | refl => exact Sound.start hd
  | tail _ hs ih => exact ih.step shelf rendered r₀ hplaced hd hr₀ hs

/-! ## What follows -/

section Follow

variable {shelf rendered r₀} {σ : Pass} {own : Slot} {t : Tracked}

theorem Sound.written_subset (h : Sound shelf rendered r₀ σ) :
    ∀ p ∈ σ.phase.written rendered, p ∈ rendered := by
  intro p hp
  obtain ⟨ph, r, log⟩ := σ
  cases ph with
  | write before after' =>
    rw [show rendered = before ++ after' from h.fits.1]
    exact List.mem_append_left _ hp
  | track before q after' =>
    rw [show rendered = before ++ q :: after' from h.fits.1]
    rw [List.append_cons]
    exact List.mem_append_left _ hp
  | prune ts => exact hp
  | forget u ts => exact hp
  | done => exact hp

/-- An entry is that of a document that was written, or was there. -/
theorem Phase.entries_eq_some {ph : Phase} {u : Tracked} (h : ph.entries rendered r₀ u = some t) :
    (∃ p ∈ ph.written rendered, p.tracked = t) ∨ r₀.held? u = some t := by
  have among : ∀ {ps : List Prepared} {e : Option Tracked},
      ((lastOf ps u).map Prepared.tracked).or e = some t → (∃ p ∈ ps, p.tracked = t) ∨ e = some t := by
    intro ps e h
    cases hl : lastOf ps u with
    | none =>
      rw [hl] at h
      exact .inr h
    | some q =>
      rw [hl] at h
      exact .inl ⟨q, mem_of_lastOf hl, Option.some.inj h⟩
  have old : ∀ {ts : List Tracked}, entryAmong r₀ ts u = some t → r₀.held? u = some t := by
    intro ts h
    unfold entryAmong at h
    split at h
    · exact h
    · cases h
  cases ph with
  | write before after' => exact among h
  | track before q after' =>
    exact (among h).imp_left fun ⟨p, hp, ht⟩ => ⟨p, List.mem_append_left _ hp, ht⟩
  | prune ts => exact (among h).imp_right old
  | forget v ts => exact (among h).imp_right old
  | done =>
    rw [← Option.or_none (o := Phase.entries rendered r₀ .done u)] at h
    exact (among h).imp_right fun h => nomatch h

/-- What is tracked was written by the pass, or was tracked before. -/
theorem Sound.mem_objects (h : Sound shelf rendered r₀ σ) (ht : t ∈ σ.record.objects) :
    (∃ p ∈ σ.phase.written rendered, p.tracked = t) ∨ t ∈ r₀.objects := by
  have he := RecordSpec.held?_eq_some h.distinct ht
  rw [h.entries t] at he
  exact (Phase.entries_eq_some he).imp_right RecordSpec.mem_of_held?

/-- What is tracked now and was not has a deed on the pass. -/
theorem Sound.lastLeft?_ne_none (hplaced : ∀ p ∈ rendered, p.tracked.Placed)
    (h : Sound shelf rendered r₀ σ) (ht : t ∈ σ.record.objects) (hnew : t ∉ r₀.objects) :
    Event.lastLeft? σ.log t.slot ≠ none := by
  obtain ⟨p, hp, rfl⟩ | hold := h.mem_objects ht
  · obtain ⟨q, hq⟩ := exists_lastOf hp
    obtain ⟨live, -, hlog⟩ := h.landed _ _ hq
    have hslot : p.tracked.slot = q.key.slot :=
      (Tracked.slot_eq_of_sameIdentity (hplaced q (h.written_subset q (mem_of_lastOf hq)))
        (hplaced p (h.written_subset p hp)) (sameIdentity_of_lastOf hq)).symm
    rw [hslot, hlog]
    exact Option.some_ne_none _
  · exact absurd hold hnew

theorem tidy_promote_pending (r : RecordSpec) (h : r.newChecksum ≠ "" → r.newChecksum ≠ r.checksum)
    (ph : Phase) (hne : (ph.sums r).newChecksum ≠ "") : (ph.sums r).newChecksum ≠ (ph.sums r).checksum := by
  cases ph with
  | done => exact absurd (RecordSpec.promote_newChecksum r) hne
  | _ => exact h hne

/-- Wherever a pass stops, its record is kept as it should be. -/
theorem Sound.tidy (hrendered : ∀ p ∈ rendered, p.tracked.Placed ∧ p.key.slot ≠ own) (hr₀ : r₀.Tidy own)
    (h : Sound shelf rendered r₀ σ) : σ.record.Tidy own where
  distinct := h.distinct
  placed := by
    intro t ht
    obtain ⟨p, hp, rfl⟩ | hold := h.mem_objects ht
    · exact (hrendered p (h.written_subset p hp)).1
    · exact hr₀.placed t hold
  apart := by
    intro t ht
    obtain ⟨p, hp, rfl⟩ | hold := h.mem_objects ht
    · exact (hrendered p (h.written_subset p hp)).2
    · exact hr₀.apart t hold
  pending := by
    rw [h.checksum, h.newChecksum]
    exact tidy_promote_pending r₀ hr₀.pending σ.phase

end Follow

end Steps

end Bundle

end Addons
