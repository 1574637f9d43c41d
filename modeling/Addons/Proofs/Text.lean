import Addons.Text
import Mathlib.Data.List.Basic

/-!
# Texts split and trimmed

A text that was put together from parts with a character between them comes apart into them if none of them has that
character (`Text.splitAll_intercalate`). Trimming leaves a text as it is exactly if no white space is around it
(`Text.trim_eq_self_iff`), and what is trimmed once stays so (`Text.unpadded_trim`).
-/

namespace Addons.Text

variable {c : Char} {a : List Char}

/-! ## Splitting -/

theorem splitFirst?_append (h : c ∉ a) (b : List Char) : splitFirst? c (a ++ c :: b) = some (a, b) := by
  induction a with
  | nil => rw [List.nil_append, splitFirst?, if_pos rfl]
  | cons d a ih =>
    obtain ⟨hne, h⟩ := List.ne_and_not_mem_of_not_mem_cons h
    rw [List.cons_append, splitFirst?, if_neg (Ne.symm hne), ih h]
    rfl

theorem splitAll_of_not_mem (h : c ∉ a) : splitAll c a = [a] := by
  induction a with
  | nil => rfl
  | cons d a ih =>
    obtain ⟨hne, h⟩ := List.ne_and_not_mem_of_not_mem_cons h
    rw [splitAll, if_neg (Ne.symm hne), ih h]

theorem splitAll_append (h : c ∉ a) (b : List Char) : splitAll c (a ++ c :: b) = a :: splitAll c b := by
  induction a with
  | nil => rw [List.nil_append, splitAll, if_pos rfl]
  | cons d a ih =>
    obtain ⟨hne, h⟩ := List.ne_and_not_mem_of_not_mem_cons h
    rw [List.cons_append, splitAll, if_neg (Ne.symm hne), ih h]

/-- A text that was put together from parts comes apart into them. -/
theorem splitAll_intercalate {parts : List (List Char)} (hne : parts ≠ []) (h : ∀ p ∈ parts, c ∉ p) :
    splitAll c ([c].intercalate parts) = parts := by
  induction parts with
  | nil => exact absurd rfl hne
  | cons p parts ih =>
    obtain ⟨hp, hparts⟩ := List.forall_mem_cons.1 h
    cases parts with
    | nil => rw [List.intercalate_singleton, splitAll_of_not_mem hp]
    | cons q parts =>
      rw [List.intercalate_cons_cons, List.append_assoc]
      exact (splitAll_append hp _).trans (congrArg _ (ih (List.cons_ne_nil q parts) hparts))

theorem not_mem_of_mem_splitAll {s p : List Char} (h : p ∈ splitAll c s) : c ∉ p := by
  induction s generalizing p with
  | nil =>
    obtain rfl := List.mem_singleton.1 h
    simp
  | cons d s ih =>
    unfold splitAll at h
    by_cases hd : d = c
    · rw [if_pos hd] at h
      rcases List.mem_cons.1 h with rfl | h
      · simp
      · exact ih h
    · rw [if_neg hd] at h
      split at h
      · rename_i part parts hsplit
        rw [hsplit] at ih
        rcases List.mem_cons.1 h with rfl | h
        · have hpart : c ∉ part := ih List.mem_cons_self
          simp [Ne.symm hd, hpart]
        · exact ih (List.mem_cons_of_mem _ h)
      · obtain rfl := List.mem_singleton.1 h
        simp [Ne.symm hd]

/-! ## White space around a text -/

/-- A text neither begins nor ends with white space. -/
def Unpadded (s : String) : Prop :=
  (∀ c ∈ s.toList.head?, ¬isBlank c) ∧ ∀ c ∈ s.toList.getLast?, ¬isBlank c

theorem trimStart_cons (h : ¬isBlank c) (a : List Char) : trimStart (c :: a) = c :: a :=
  List.dropWhile_cons_of_neg h

theorem trimStart_of_head (h : ∀ c ∈ a.head?, ¬isBlank c) : trimStart a = a := by
  cases a with
  | nil => rfl
  | cons d a => exact trimStart_cons (h d rfl) a

theorem head_trimStart (a : List Char) : ∀ c ∈ (trimStart a).head?, ¬isBlank c := by
  intro c hc
  have hnot := List.head?_dropWhile_not isBlank a
  unfold trimStart at hc
  rw [Option.mem_def.1 hc] at hnot
  simpa using hnot

/-- White space is trimmed off the end as it is off the start of the reverse. -/
theorem trimEnd_eq (a : List Char) : trimEnd a = (trimStart a.reverse).reverse := rfl

theorem trimEnd_of_getLast (h : ∀ c ∈ a.getLast?, ¬isBlank c) : trimEnd a = a := by
  rw [trimEnd_eq, trimStart_of_head (by simpa using h), List.reverse_reverse]

theorem getLast_trimEnd (a : List Char) : ∀ c ∈ (trimEnd a).getLast?, ¬isBlank c := by
  rw [trimEnd_eq, List.getLast?_reverse]
  exact head_trimStart a.reverse

theorem exists_trimEnd_append (a : List Char) : ∃ rest, trimEnd a ++ rest = a := by
  have hsuffix : trimStart a.reverse <:+ a.reverse := List.dropWhile_suffix isBlank
  have hbegins := List.reverse_prefix.2 hsuffix
  rwa [List.reverse_reverse] at hbegins

theorem toList_trim (s : String) : (trim s).toList = trimEnd (trimStart s.toList) := String.toList_ofList

theorem unpadded_trim (s : String) : Unpadded (trim s) := by
  unfold Unpadded
  rw [toList_trim]
  refine ⟨fun c hc => head_trimStart s.toList c ?_, getLast_trimEnd _⟩
  -- what is left at the end of a text begins as the text does
  obtain ⟨rest, hrest⟩ := exists_trimEnd_append (trimStart s.toList)
  rw [← hrest, List.head?_append, Option.mem_def.1 hc]
  rfl

theorem trim_eq_self_iff {s : String} : trim s = s ↔ Unpadded s := by
  constructor
  · intro h
    rw [← h]
    exact unpadded_trim s
  · intro h
    apply String.toList_injective
    rw [toList_trim, trimStart_of_head h.1, trimEnd_of_getLast h.2]

theorem mem_of_mem_trim {s : String} (h : c ∈ (trim s).toList) : c ∈ s.toList := by
  obtain ⟨rest, hrest⟩ := exists_trimEnd_append (trimStart s.toList)
  have hmem : c ∈ trimStart s.toList := by
    rw [← hrest]
    exact List.mem_append_left rest (toList_trim s ▸ h)
  exact (List.dropWhile_suffix isBlank).subset hmem

end Addons.Text
