import Addons.Object.Applied
import Addons.Proofs.Json.Same
import Addons.Proofs.Table

/-!
# What a value says

A value says something at every path into it (`Json.at?`). The comparison of desired and live values,
`Json.isSubset`, holds exactly if all that the desired one says at any path the live one says there
(`Json.isSubset_iff_within`), where the keys of the objects in the desired one are in order.
-/

namespace Addons.Json

/-- One step into a value. -/
inductive Step where
  | field (name : String)
  | item (index : Nat)

/-- The field or the item of a value. -/
def part? (j : Json) : Step → Option Json
  | .field k => j.get? k
  | .item i => j.arr?.bind fun items => items[i]?

/-- The value at a path. -/
def at? (j : Json) : List Step → Option Json
  | [] => some j
  | s :: path => (j.part? s).bind fun v => v.at? path

/-- A value has what another says of it, its fields and items apart. -/
def agrees : Json → Json → Bool
  | .obj _, .obj _ => true
  | .arr a, .arr b => a.length = b.length
  | a, b => a.same b

/-- All that the first value says at any path, the second says there. -/
def Within (want live : Json) : Prop :=
  ∀ path w, want.at? path = some w → ∃ v, live.at? path = some v ∧ w.agrees v

variable {want live w : Json} {s : Step}

theorem agrees_refl (j : Json) : j.agrees j := by
  cases j with
  | obj fields => rfl
  | arr items => exact decide_eq_true rfl
  | null => rfl
  | bool b => exact same_refl (.bool b)
  | num n => exact same_refl (.num n)
  | str s => exact same_refl (.str s)

theorem within_refl (j : Json) : j.Within j := fun _ w h => ⟨w, h, agrees_refl w⟩

theorem Within.agrees (h : want.Within live) : want.agrees live := by
  obtain ⟨v, hv, hagrees⟩ := h [] want rfl
  obtain rfl := Option.some.inj hv
  exact hagrees

theorem Within.part? (h : want.Within live) (hw : want.part? s = some w) :
    ∃ v, live.part? s = some v ∧ w.Within v := by
  obtain ⟨v, hv, -⟩ := h [s] w (Option.bind_eq_some_iff.2 ⟨w, hw, rfl⟩)
  obtain ⟨v', hv', -⟩ := Option.bind_eq_some_iff.1 hv
  refine ⟨v', hv', fun path w' hw' => ?_⟩
  obtain ⟨u, hu, hagrees⟩ := h (s :: path) w' (Option.bind_eq_some_iff.2 ⟨w, hw, hw'⟩)
  obtain ⟨v'', hv'', hu⟩ := Option.bind_eq_some_iff.1 hu
  obtain rfl := Option.some.inj (hv'.symm.trans hv'')
  exact ⟨u, hu, hagrees⟩

/-! ## Subsets are within -/

theorem isSubsetItems_iff {ws hs : List Json} :
    isSubsetItems ws hs ↔ List.Forall₂ (fun w h => w.isSubset h) ws hs := by
  induction ws generalizing hs with
  | nil => cases hs <;> simp [isSubsetItems]
  | cons w ws ih =>
    cases hs with
    | nil => simp [isSubsetItems]
    | cons h hs => simp [isSubsetItems, ih]

theorem isSubsetFields_iff {fields : List (String × Json)} {live : Fields} :
    isSubsetFields fields live ↔ ∀ e ∈ fields, ∃ v, Table.find? live e.1 = some v ∧ e.2.isSubset v := by
  induction fields with
  | nil => simp [isSubsetFields]
  | cons e fields ih =>
    obtain ⟨k, w⟩ := e
    rw [isSubsetFields, Bool.and_eq_true, ih, List.forall_mem_cons]
    cases Table.find? live k with
    | none => simp
    | some h => simp

theorem agrees_of_isSubset (h : want.isSubset live) : want.agrees live := by
  cases want with
  | obj fields =>
    cases live with
    | obj _ => rfl
    | _ => exact h
  | arr items =>
    cases live with
    | arr _ => exact decide_eq_true (isSubsetItems_iff.1 h).length_eq
    | _ => exact h
  | _ => cases live <;> exact h

/-- The parts of a value that is a subset are subsets. -/
theorem isSubset_part? (h : want.isSubset live) (hw : want.part? s = some w) :
    ∃ v, live.part? s = some v ∧ w.isSubset v := by
  cases want with
  | obj fields =>
    cases s with
    | item i => cases hw
    | field k =>
      cases live with
      | obj live => exact isSubsetFields_iff.1 h (k, w) (Table.mem_of_find? hw)
      | _ => cases h
  | arr items =>
    cases s with
    | field k => cases hw
    | item i =>
      cases live with
      | arr live =>
        have hall := isSubsetItems_iff.1 h
        have hi : items[i]? = some w := hw
        obtain ⟨hlt, rfl⟩ := List.getElem?_eq_some_iff.1 hi
        have hlt' : i < live.length := hall.length_eq ▸ hlt
        exact ⟨live[i], List.getElem?_eq_getElem hlt', hall.get hlt hlt'⟩
      | _ => cases h
  | _ => cases s <;> cases hw

theorem within_of_isSubset (h : want.isSubset live) : want.Within live := by
  intro path w hw
  induction path generalizing want live with
  | nil =>
    obtain rfl := Option.some.inj hw
    exact ⟨live, rfl, agrees_of_isSubset h⟩
  | cons s path ih =>
    obtain ⟨w', hw', hrest⟩ := Option.bind_eq_some_iff.1 hw
    obtain ⟨v', hv', hsub⟩ := isSubset_part? h hw'
    obtain ⟨v, hv, hagrees⟩ := ih hsub hrest
    exact ⟨v, Option.bind_eq_some_iff.2 ⟨v', hv', hv⟩, hagrees⟩

/-! ## And the other way -/

mutual

theorem isSubset_of_within : ∀ {want live : Json}, want.SortedKeys → want.Within live → want.isSubset live
  | .null, live, _, h => by cases live <;> exact h.agrees
  | .bool _, live, _, h => by cases live <;> exact h.agrees
  | .num _, live, _, h => by cases live <;> exact h.agrees
  | .str _, live, _, h => by cases live <;> exact h.agrees
  | .arr ws, .arr hs, hsorted, h => by
    have hlength : ws.length = hs.length := of_decide_eq_true h.agrees
    refine isSubsetItems_of_within hsorted hlength fun i w hw => ?_
    exact h.part? (s := .item i) hw
  | .obj fields, .obj live, hsorted, h => by
    refine isSubsetFields_of_within hsorted.2 fun e he => ?_
    exact h.part? (s := .field e.1) (Table.find?_of_mem hsorted.1.nodup_keys he)
  | .arr _, .null, _, h | .arr _, .bool _, _, h | .arr _, .num _, _, h | .arr _, .str _, _, h
  | .arr _, .obj _, _, h | .obj _, .null, _, h | .obj _, .bool _, _, h | .obj _, .num _, _, h
  | .obj _, .str _, _, h | .obj _, .arr _, _, h => h.agrees

theorem isSubsetItems_of_within : ∀ {ws hs : List Json}, SortedItems ws → ws.length = hs.length →
    (∀ (i : Nat) (w : Json), ws[i]? = some w → ∃ v, hs[i]? = some v ∧ w.Within v) → isSubsetItems ws hs
  | [], [], _, _, _ => rfl
  | w :: ws, v :: hs, hsorted, hlength, h => by
    rw [isSubsetItems, Bool.and_eq_true]
    obtain ⟨v', hv', hwithin⟩ := h 0 w rfl
    obtain rfl := Option.some.inj hv'
    refine ⟨isSubset_of_within hsorted.1 hwithin, ?_⟩
    exact isSubsetItems_of_within hsorted.2 (Nat.succ.inj hlength) fun i => h (i + 1)

theorem isSubsetFields_of_within : ∀ {fields : List (String × Json)} {live : Fields}, SortedValues fields →
    (∀ e ∈ fields, ∃ v, Table.find? live e.1 = some v ∧ e.2.Within v) → isSubsetFields fields live
  | [], _, _, _ => rfl
  | (k, w) :: fields, live, hsorted, h => by
    obtain ⟨⟨v, hv, hwithin⟩, hrest⟩ := List.forall_mem_cons.1 h
    rw [isSubsetFields, hv, Bool.and_eq_true]
    exact ⟨isSubset_of_within hsorted.1 hwithin, isSubsetFields_of_within hsorted.2 hrest⟩

end

/-- The comparison holds exactly if nothing that the first value says is missing from the second or different
there. -/
theorem isSubset_iff_within (hs : want.SortedKeys) : want.isSubset live ↔ want.Within live :=
  ⟨within_of_isSubset, isSubset_of_within hs⟩

end Addons.Json
