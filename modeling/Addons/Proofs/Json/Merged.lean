import Addons.Json.Basic
import Addons.Proofs.Object.Ordered

/-!
# What a merge patch makes of a value

RFC 7386 says of each member what a patch makes of it (`Json.Merges`), whatever the order of the members and
whatever is written on the way. `Json.mergePatch` goes through the members of a patch one by one instead, and
comes to the same: its result is the only one that the RFC allows, and the same patch changes nothing of it any
more (`Json.mergePatch_exact`).
-/

namespace Addons.Json

/-- What RFC 7386 makes of a target, which may be absent, under a patch. -/
inductive Merges : Option Json → Json → Json → Prop
  /-- A patch that is no object replaces the target. -/
  | replaced {target : Option Json} {patch : Json} : patch.isObj = false → Merges target patch patch
  /-- An object changes the members that it names: `null` removes one, and any other value is merged into it. A
  target that is no object counts as one without members. -/
  | merged {target : Option Json} {patch result : Fields} (value : String → Json) :
      (∀ k, Table.find? patch k = none → Table.find? result k = target.bind fun t => t.get? k) →
      (∀ k, Table.find? patch k = some .null → Table.find? result k = none) →
      (∀ k v, Table.find? patch k = some v → v.isNull = false → Table.find? result k = some (value k)) →
      (∀ k v, Table.find? patch k = some v → v.isNull = false →
        Merges (target.bind fun t => t.get? k) v (value k)) →
      Merges target (.obj patch) (.obj result)

variable {target? : Option Json} {target patch result result' : Json}

/-! ## What the RFC allows -/

/-- A patch leaves its own result as it is. -/
theorem Merges.again (h : Merges target? patch result) : Merges (some result) patch result := by
  induction h with
  | replaced hpatch => exact .replaced hpatch
  | @merged target patch result value hkept hremoved hvalue _ ih =>
    refine .merged value (fun _ _ => rfl) hremoved hvalue fun k v hv hnull => ?_
    have hmember : ((some (obj result)).bind fun t => t.get? k) = some (value k) := hvalue k v hv hnull
    rw [hmember]
    exact ih k v hv hnull

/-- The RFC allows one result only. -/
theorem Merges.unique (h : Merges target? patch result) (h' : Merges target? patch result')
    (hs : result.SortedKeys) (hs' : result'.SortedKeys) : result = result' := by
  induction h generalizing result' with
  | replaced hpatch =>
    cases h' with
    | replaced _ => rfl
    | merged _ _ _ _ _ => cases hpatch
  | @merged target patch result value hkept hremoved hvalue _ ih =>
    cases h' with
    | replaced hpatch => cases hpatch
    | @merged _ _ result' value' hkept' hremoved' hvalue' hmerges' =>
      refine congrArg obj (hs.1.ext hs'.1 fun k => ?_)
      cases hv : Table.find? patch k with
      | none => rw [hkept k hv, hkept' k hv]
      | some v =>
        cases hnull : v.isNull with
        | true =>
          obtain rfl : v = .null := by
            cases v with
            | null => rfl
            | _ => cases hnull
          rw [hremoved k hv, hremoved' k hv]
        | false =>
          have hfound := hvalue k v hv hnull
          have hfound' := hvalue' k v hv hnull
          rw [hfound, hfound', ih k v hv hnull (hmerges' k v hv hnull) (sortedKeys_of_find? hs hfound)
            (sortedKeys_of_find? hs' hfound')]

/-! ## Going through the members -/

theorem mergeFields_cons (target : Fields) (k : String) (v : Json) (rest : List (String × Json)) :
    mergeFields target ((k, v) :: rest)
      = mergeFields (if v.isNull then Table.erase target k
          else Table.insert k (mergePatch ((Table.find? target k).getD .null) v) target) rest := by
  cases v <;> rfl

/-- What becomes of a member of the target that a patch names, or does not. -/
def memberAfter (target? : Option Json) : Option Json → Option Json
  | none => target?
  | some v => if v.isNull then none else some (mergePatch (target?.getD .null) v)

/-- The members of a patch are about one member of the target each. -/
theorem find?_mergeFields {patch : Fields} (h : (patch.map Prod.fst).Nodup) (target : Fields) (k : String) :
    Table.find? (mergeFields target patch) k = memberAfter (Table.find? target k) (Table.find? patch k) := by
  induction patch generalizing target with
  | nil => rfl
  | cons e patch ih =>
    obtain ⟨l, v⟩ := e
    rw [List.map_cons, List.nodup_cons] at h
    rw [mergeFields_cons, ih h.2]
    rw [Table.find?_cons]
    by_cases hk : k = l
    · have hnone : Table.find? patch k = none := by
        by_contra hsome
        obtain ⟨w, hw⟩ := Option.ne_none_iff_exists'.1 hsome
        exact h.1 (List.mem_map.2 ⟨(k, w), Table.mem_of_find? hw, hk⟩)
      rw [hnone, if_pos hk, hk]
      cases hnull : v.isNull with
      | true => simp [memberAfter, hnull, Table.find?_erase_self]
      | false => simp [memberAfter, hnull, Table.find?_insert_self]
    · rw [if_neg hk]
      cases v.isNull with
      | true => rw [if_pos rfl, Table.find?_erase_ne hk]
      | false => rw [if_neg Bool.false_ne_true, Table.find?_insert_ne hk]

/-- The members that a patch does not name are left alone, whatever order its own are in. -/
theorem find?_mergeFields_of_unnamed {patch : Fields} {k : String} (h : Table.find? patch k = none)
    (target : Fields) : Table.find? (mergeFields target patch) k = Table.find? target k := by
  induction patch generalizing target with
  | nil => rfl
  | cons e patch ih =>
    obtain ⟨l, v⟩ := e
    rw [Table.find?_cons] at h
    have hne : k ≠ l := by
      rintro rfl
      rw [if_pos rfl] at h
      cases h
    rw [if_neg hne] at h
    rw [mergeFields_cons, ih h]
    cases v.isNull with
    | true => exact Table.find?_erase_ne hne target
    | false => exact Table.find?_insert_ne hne _ target

/-- The member of a value that may be absent, as the fields of an object have it. -/
theorem find?_members (target? : Option Json) (k : String) :
    Table.find? ((target?.getD .null).obj?.getD []) k = target?.bind fun t => t.get? k := by
  cases target? with
  | none => rfl
  | some t => cases t <;> rfl

mutual

theorem merges_mergePatch : ∀ {patch : Json}, patch.SortedKeys → ∀ target? : Option Json,
    Merges target? patch ((target?.getD .null).mergePatch patch)
  | .null, _, _ | .bool _, _, _ | .num _, _, _ | .str _, _, _ | .arr _, _, _ => .replaced rfl
  | .obj fields, h, target? => by
    have hfind : ∀ k, Table.find? (mergeFields ((target?.getD .null).obj?.getD []) fields) k
        = memberAfter (target?.bind fun t => t.get? k) (Table.find? fields k) := fun k => by
      rw [find?_mergeFields h.1.nodup_keys, find?_members]
    refine .merged (fun k => mergePatch ((target?.bind fun t => t.get? k).getD .null)
      ((Table.find? fields k).getD .null)) (fun k hk => ?_) (fun k hk => ?_) (fun k v hv hnull => ?_)
      fun k v hv _ => ?_
    · rw [hfind, hk]
      rfl
    · rw [hfind, hk]
      rfl
    · rw [hfind, hv]
      simp [memberAfter, hnull]
    · rw [hv]
      exact merges_of_mem h.2 (Table.mem_of_find? hv) _

theorem merges_of_mem : ∀ {fields : List (String × Json)} {e : String × Json}, SortedValues fields →
    e ∈ fields → ∀ target? : Option Json, Merges target? e.2 ((target?.getD .null).mergePatch e.2)
  | (k, v) :: fields, e, h, he, target? => by
    rcases List.mem_cons.1 he with rfl | he
    · exact merges_mergePatch h.1 target?
    · exact merges_of_mem h.2 he target?

end

mutual

theorem sortedKeys_mergePatch : ∀ {patch target : Json}, target.SortedKeys → patch.SortedKeys →
    (target.mergePatch patch).SortedKeys
  | .null, _, _, h | .bool _, _, _, h | .num _, _, _, h | .str _, _, _, h | .arr _, _, _, h => h
  | .obj fields, target, htarget, h => by
    have hmembers : (obj (target.obj?.getD [])).SortedKeys := by
      cases target with
      | obj members => exact htarget
      | _ => exact ⟨List.Pairwise.nil, trivial⟩
    exact sortedKeys_mergeFields hmembers h.2

theorem sortedKeys_mergeFields : ∀ {patch : List (String × Json)} {target : Fields},
    (obj target).SortedKeys → SortedValues patch → (obj (mergeFields target patch)).SortedKeys
  | [], _, htarget, _ => htarget
  | (k, v) :: patch, target, htarget, h => by
    rw [mergeFields_cons]
    refine sortedKeys_mergeFields ?_ h.2
    split
    · exact sortedKeys_erase htarget k
    · refine sortedKeys_insert htarget (sortedKeys_mergePatch ?_ h.1)
      cases hv : Table.find? target k with
      | none => trivial
      | some v => exact sortedKeys_of_find? htarget hv

end

/-- A merge patch makes of a target what RFC 7386 says and nothing else, and applied again it changes nothing. -/
theorem mergePatch_exact (htarget : target.SortedKeys) (hpatch : patch.SortedKeys) :
    (target.mergePatch patch).SortedKeys
      ∧ (∀ result, result.SortedKeys → (Merges (some target) patch result ↔ result = target.mergePatch patch))
      ∧ (target.mergePatch patch).mergePatch patch = target.mergePatch patch := by
  have hsorted := sortedKeys_mergePatch htarget hpatch
  have hmerges : Merges (some target) patch (target.mergePatch patch) := merges_mergePatch hpatch (some target)
  refine ⟨hsorted, fun result hresult => ⟨fun h => h.unique hmerges hresult hsorted, ?_⟩, ?_⟩
  · rintro rfl
    exact hmerges
  · have hagain : Merges (some (target.mergePatch patch)) patch ((target.mergePatch patch).mergePatch patch) :=
      merges_mergePatch hpatch (some (target.mergePatch patch))
    exact hagain.unique hmerges.again (sortedKeys_mergePatch hsorted hpatch) hsorted

namespace Article

def draft : Json := .obj [("author", .str "b"), ("tags", .obj [("d", .str "e"), ("f", .str "g")])]

/-- One member of an object that is there goes, and one of an object that is not there yet. -/
def revision : Json :=
  .obj [("author", .str "z"), ("links", .obj [("next", .obj [("title", .null)])]), ("tags", .obj [("f", .null)])]

def revised : Json :=
  .obj [("author", .str "z"), ("links", .obj [("next", .obj [])]), ("tags", .obj [("d", .str "e")])]

theorem draft_sorted : draft.SortedKeys := by
  simp only [draft, SortedKeys, SortedValues, Table.Sorted]
  decide

theorem revision_sorted : revision.SortedKeys := by
  simp only [revision, SortedKeys, SortedValues, Table.Sorted]
  decide

theorem draft_revised : draft.SortedKeys ∧ revision.SortedKeys ∧ draft.mergePatch revision = revised
    ∧ (∀ result, result.SortedKeys → (Merges (some draft) revision result ↔ result = revised))
    ∧ revised.mergePatch revision = revised := by
  have hrevised : draft.mergePatch revision = revised := by decide +kernel
  obtain ⟨-, hmerges, hagain⟩ := mergePatch_exact draft_sorted revision_sorted
  rw [hrevised] at hmerges hagain
  exact ⟨draft_sorted, revision_sorted, hrevised, hmerges, hagain⟩

end Article

end Addons.Json
