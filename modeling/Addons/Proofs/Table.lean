import Addons.Table
import Mathlib.Data.List.Nodup
import Mathlib.Order.Defs.Unbundled

/-!
# Looking up in tables

What a table answers after an entry was dropped, and after lists of entries were put into it. Of two
entries with one key the later counts (`find?_union`). A table stays in order, so that an entry is in it
exactly if it is found under its key (`Sorted.mem_iff`).
-/

namespace Addons.Table

variable {κ α : Type} [DecidableEq κ]

theorem find?_cons (e : κ × α) (t : Table κ α) (k : κ) :
    find? (e :: t) k = if k = e.1 then some e.2 else t.find? k := by
  unfold find?
  rw [List.lookup_cons]
  by_cases hk : k = e.1
  · rw [beq_iff_eq.2 hk, if_pos hk]
  · rw [beq_eq_false_iff_ne.2 hk, if_neg hk]

theorem find?_erase_self (t : Table κ α) (k : κ) : (t.erase k).find? k = none := by
  unfold find? erase
  rw [List.lookup_eq_none_iff]
  intro e he
  have hne := (List.mem_filter.1 he).2
  rw [bne_iff_ne] at hne
  exact bne_iff_ne.2 (Ne.symm hne)

theorem find?_erase_ne {k k' : κ} (h : k' ≠ k) (t : Table κ α) :
    (t.erase k).find? k' = t.find? k' := by
  unfold find? erase
  induction t with
  | nil => rfl
  | cons e t ih =>
    by_cases he : e.1 = k
    · rw [List.filter_cons_of_neg (by simp [he]), ih, List.lookup_cons,
        beq_eq_false_iff_ne.2 (by rw [he]; exact h)]
    · rw [List.filter_cons_of_pos (by simp [he]), List.lookup_cons, List.lookup_cons, ih]

variable [LT κ] [DecidableLT κ]

theorem find?_insert (k k' : κ) (v : α) (t : Table κ α) :
    (t.insert k v).find? k' = if k' = k then some v else t.find? k' := by
  by_cases h : k' = k
  · rw [if_pos h, h]
    exact find?_insert_self k v t
  · rw [if_neg h]
    exact find?_insert_ne h v t

omit [LT κ] [DecidableLT κ] in
theorem find?_erase (k k' : κ) (t : Table κ α) :
    (t.erase k).find? k' = if k' = k then none else t.find? k' := by
  by_cases h : k' = k
  · rw [if_pos h, h]
    exact find?_erase_self t k
  · rw [if_neg h]
    exact find?_erase_ne h t

/-- After entries were put into a table, the last of a key is found under it. -/
theorem find?_union (t u : Table κ α) (k : κ) :
    (t.union u).find? k = (u.reverse.lookup k).or (t.find? k) := by
  unfold union
  induction u generalizing t with
  | nil => rfl
  | cons e u ih =>
    rw [List.foldl_cons, ih, List.reverse_cons, List.lookup_append, Option.or_assoc, find?_insert,
      List.lookup_cons, List.lookup_nil]
    by_cases h : k = e.1
    · rw [if_pos h, beq_iff_eq.2 h]
      rfl
    · rw [if_neg h, beq_eq_false_iff_ne.2 h]
      rfl

theorem find?_ofList (es : List (κ × α)) (k : κ) : (ofList es).find? k = es.reverse.lookup k := by
  have h := find?_union [] es k
  rw [show find? ([] : Table κ α) k = none from rfl, Option.or_none] at h
  exact h

omit [LT κ] [DecidableLT κ] in
/-- Where no key comes twice, the order of the entries does not matter. -/
theorem lookup_reverse {es : List (κ × α)} (h : (es.map Prod.fst).Nodup) (k : κ) :
    es.reverse.lookup k = es.lookup k := by
  induction es with
  | nil => rfl
  | cons e es ih =>
    rw [List.map_cons, List.nodup_cons] at h
    rw [List.reverse_cons, List.lookup_append, ih h.2, List.lookup_cons, List.lookup_cons,
      List.lookup_nil]
    by_cases hk : k = e.1
    · have hnone : es.lookup k = none := by
        rw [List.lookup_eq_none_iff]
        intro f hf
        refine bne_iff_ne.2 fun hkf => h.1 ?_
        rw [← hk, hkf]
        exact List.mem_map_of_mem hf
      rw [hnone, hk, beq_self_eq_true]
      rfl
    · rw [beq_eq_false_iff_ne.2 hk]
      exact Option.or_none

theorem find?_ofList_of_nodup {es : List (κ × α)} (h : (es.map Prod.fst).Nodup) (k : κ) :
    (ofList es).find? k = es.lookup k := by
  rw [find?_ofList, lookup_reverse h]

/-! ## Order -/

theorem mem_insert {k : κ} {v : α} {e : κ × α} {t : Table κ α} (h : e ∈ t.insert k v) :
    e = (k, v) ∨ e ∈ t := by
  induction t with
  | nil => exact .inl (List.mem_singleton.1 h)
  | cons e' t ih =>
    obtain ⟨k', v'⟩ := e'
    simp only [insert] at h
    split at h
    · exact (List.mem_cons.1 h).imp_right (List.mem_cons_of_mem _)
    · split at h
      · exact List.mem_cons.1 h
      · rcases List.mem_cons.1 h with rfl | h
        · exact .inr List.mem_cons_self
        · exact (ih h).imp_right (List.mem_cons_of_mem _)

omit [DecidableLT κ] in
theorem Sorted.erase {t : Table κ α} (h : t.Sorted) (k : κ) : (t.erase k).Sorted := h.filter _

theorem Sorted.insert [IsTrans κ (· < ·)] [Std.Trichotomous fun a b : κ => a < b] {t : Table κ α}
    (h : t.Sorted) (k : κ) (v : α) : (t.insert k v).Sorted := by
  induction t with
  | nil => exact List.pairwise_singleton _ _
  | cons e t ih =>
    obtain ⟨k', v'⟩ := e
    obtain ⟨hhead, htail⟩ := List.pairwise_cons.1 h
    simp only [Table.insert]
    split
    · rename_i hk
      exact List.pairwise_cons.2 ⟨fun e he => hk ▸ hhead e he, htail⟩
    · split
      · rename_i hlt
        refine List.pairwise_cons.2 ⟨fun e he => ?_, h⟩
        rcases List.mem_cons.1 he with rfl | he
        · exact hlt
        · exact trans_of (· < ·) hlt (hhead e he)
      · rename_i hne hnlt
        refine List.pairwise_cons.2 ⟨fun e he => ?_, ih htail⟩
        rcases mem_insert he with rfl | he
        · exact ((trichotomous_of (· < ·) k k').resolve_left hnlt).resolve_left hne
        · exact hhead e he

theorem Sorted.union [IsTrans κ (· < ·)] [Std.Trichotomous fun a b : κ => a < b] {t : Table κ α}
    (h : t.Sorted) (u : Table κ α) : (t.union u).Sorted := by
  unfold Table.union
  induction u generalizing t with
  | nil => exact h
  | cons e u ih => exact ih (h.insert e.1 e.2)

omit [DecidableEq κ] [DecidableLT κ] in
/-- In a table that is in order no key comes twice. -/
theorem Sorted.nodup_keys [Std.Irrefl fun a b : κ => a < b] {t : Table κ α} (h : t.Sorted) :
    (t.map Prod.fst).Nodup := by
  refine List.pairwise_map.2 (h.imp ?_)
  intro a b hlt heq
  rw [heq] at hlt
  exact irrefl_of (· < ·) b.1 hlt

omit [LT κ] [DecidableLT κ] in
theorem mem_of_find? {t : Table κ α} {k : κ} {v : α} (h : t.find? k = some v) : (k, v) ∈ t := by
  induction t with
  | nil => cases h
  | cons e t ih =>
    rw [find?_cons] at h
    by_cases hk : k = e.1
    · rw [if_pos hk] at h
      rw [hk, ← Option.some.inj h]
      exact List.mem_cons_self
    · rw [if_neg hk] at h
      exact List.mem_cons_of_mem _ (ih h)

omit [LT κ] [DecidableLT κ] in
theorem find?_of_mem {t : Table κ α} (h : (t.map Prod.fst).Nodup) {e : κ × α} (he : e ∈ t) :
    t.find? e.1 = some e.2 := by
  induction t with
  | nil => cases he
  | cons f t ih =>
    rw [List.map_cons, List.nodup_cons] at h
    rw [find?_cons]
    rcases List.mem_cons.1 he with rfl | he
    · rw [if_pos rfl]
    · have hne : e.1 ≠ f.1 := fun hk => h.1 (hk ▸ List.mem_map_of_mem he)
      rw [if_neg hne]
      exact ih h.2 he

omit [DecidableLT κ] in
/-- An entry is in a table exactly if it is found under its key. -/
theorem Sorted.mem_iff [Std.Irrefl fun a b : κ => a < b] {t : Table κ α} (h : t.Sorted) {k : κ} {v : α} :
    (k, v) ∈ t ↔ t.find? k = some v :=
  ⟨find?_of_mem h.nodup_keys, mem_of_find?⟩

omit [DecidableLT κ] in
/-- Two tables in order are the same if they have the same value under every key. -/
theorem Sorted.ext [Std.Asymm fun a b : κ => a < b] {t u : Table κ α} (ht : t.Sorted) (hu : u.Sorted)
    (h : ∀ k, t.find? k = u.find? k) : t = u := by
  have hperm : t.Perm u := by
    refine (List.perm_ext_iff_of_nodup (List.Nodup.of_map _ ht.nodup_keys)
      (List.Nodup.of_map _ hu.nodup_keys)).2 fun e => ?_
    rw [ht.mem_iff, hu.mem_iff, h]
  refine hperm.eq_of_pairwise (fun a b _ _ hab hba => ?_) ht hu
  exact absurd hba (asymm_of (· < ·) hab)

/-! ## Tables without some keys -/

/-- Drop some keys. -/
def without (t : Table κ α) (ks : List κ) : Table κ α := t.filter fun e => e.1 ∉ ks

omit [LT κ] [DecidableLT κ] in
@[simp] theorem without_nil (t : Table κ α) : t.without [] = t := by simp [without]

omit [LT κ] [DecidableLT κ] in
theorem without_without (t : Table κ α) (ks ls : List κ) : (t.without ks).without ls = t.without (ks ++ ls) := by
  unfold without
  rw [List.filter_filter]
  refine List.filter_congr fun e _ => ?_
  simp only [List.mem_append, not_or, Bool.decide_and, Bool.and_comm]

omit [LT κ] [DecidableLT κ] in
theorem without_congr {ks ls : List κ} (h : ∀ k, k ∈ ks ↔ k ∈ ls) (t : Table κ α) : t.without ks = t.without ls := by
  simp only [without, h]

omit [LT κ] [DecidableLT κ] in
theorem erase_eq_without (t : Table κ α) (k : κ) : t.erase k = t.without [k] := by
  refine List.filter_congr fun e _ => ?_
  rw [Bool.eq_iff_iff]
  simp

omit [LT κ] [DecidableLT κ] in
theorem find?_without (t : Table κ α) (ks : List κ) (k : κ) :
    (t.without ks).find? k = if k ∈ ks then none else t.find? k := by
  induction ks generalizing t with
  | nil => simp
  | cons l ks ih =>
    rw [← List.singleton_append, ← without_without, ← erase_eq_without, ih, find?_erase]
    by_cases hl : k = l
    · simp [hl]
    · simp [hl]

end Addons.Table
