import Addons.Object.Metadata
import Addons.Proofs.Text

/-!
# What a selector of labels selects

The selector of a label map is read back as that map exactly if it can spell each of its labels
(`Selector.terms_ofLabels_iff`): the commas and the equals sign of a selector are not in them where they would
be taken for its own, and no white space is around them (`Selector.Spelled`). It then selects the objects with all of
the labels (`Selector.selects_ofLabels`).
-/

namespace Addons

namespace Selector

/-- A text that is read back from a selector as it is: it has no comma, and no white space around it. -/
structure Plain (s : String) : Prop where
  comma : ',' ∉ s.toList
  trim : Text.trim s = s

/-- A label that a selector can spell. Its value may have an equals sign, since a term is split at the first one. -/
structure Spelled (label : String × String) : Prop where
  name_equals : '=' ∉ label.1.toList
  name_comma : ',' ∉ label.1.toList
  value_comma : ',' ∉ label.2.toList
  name_unpadded : Text.Unpadded label.1
  value_unpadded : Text.Unpadded label.2

theorem Spelled.of_plain {name value : String} (hequals : '=' ∉ name.toList) (hname : Plain name)
    (hvalue : Plain value) : Spelled (name, value) :=
  ⟨hequals, hname.comma, hvalue.comma, Text.trim_eq_self_iff.1 hname.trim, Text.trim_eq_self_iff.1 hvalue.trim⟩

variable {labels : Table String String}

/-- The terms of the selector of a label map are its labels. -/
theorem terms_ofLabels (h : ∀ l ∈ labels, Spelled l) : terms (ofLabels labels) = labels := by
  by_cases hne : labels = []
  · -- the empty selector has one part, which is no term
    subst hne
    rfl
  have hsplit : Text.splitAll ',' (ofLabels labels).toList
      = labels.map fun l => l.1.toList ++ '=' :: l.2.toList := by
    have hlist : (ofLabels labels).toList
        = [','].intercalate (labels.map fun l => l.1.toList ++ '=' :: l.2.toList) := by
      unfold ofLabels
      rw [String.toList_intercalate, List.map_map]
      refine congrArg (List.intercalate _) (List.map_congr_left fun l _ => ?_)
      show (l.1 ++ "=" ++ l.2).toList = _
      rw [String.toList_append, String.toList_append, List.append_assoc]
      rfl
    rw [hlist]
    refine Text.splitAll_intercalate (fun h => hne (List.map_eq_nil_iff.1 h)) fun p hp => ?_
    obtain ⟨l, hl, rfl⟩ := List.mem_map.1 hp
    simp only [List.mem_append, List.mem_cons, not_or]
    exact ⟨(h l hl).name_comma, by decide, (h l hl).value_comma⟩
  unfold terms
  rw [hsplit, List.filterMap_map]
  refine (List.filterMap_congr fun l hl => ?_).trans List.filterMap_some
  show ((Text.splitFirst? '=' (l.1.toList ++ '=' :: l.2.toList)).map fun p =>
    (Text.trim (String.ofList p.1), Text.trim (String.ofList p.2))) = some l
  rw [Text.splitFirst?_append (h l hl).name_equals, Option.map_some, String.ofList_toList, String.ofList_toList,
    Text.trim_eq_self_iff.2 (h l hl).name_unpadded, Text.trim_eq_self_iff.2 (h l hl).value_unpadded]

/-- All terms of a selector, whatever it is, can be spelled. -/
theorem spelled_of_mem_terms {selector : String} {t : String × String} (h : t ∈ terms selector) : Spelled t := by
  obtain ⟨term, hterm, h⟩ := List.mem_filterMap.1 h
  obtain ⟨⟨name, value⟩, hsplit, rfl⟩ := Option.map_eq_some_iff.1 h
  obtain ⟨rfl, hequals⟩ := Text.splitFirst?_eq_some hsplit
  have hcomma := Text.not_mem_of_mem_splitAll hterm
  simp only [List.mem_append, List.mem_cons, not_or] at hcomma
  have hkept : ∀ {c : Char} {part : List Char}, c ∉ part → c ∉ (Text.trim (String.ofList part)).toList := by
    intro c part hpart hc
    have hmem := Text.mem_of_mem_trim hc
    rw [String.toList_ofList] at hmem
    exact hpart hmem
  exact ⟨hkept hequals, hkept hcomma.1, hkept hcomma.2.2, Text.unpadded_trim _, Text.unpadded_trim _⟩

/-- A label map is read back from its selector exactly if the selector can spell each label. -/
theorem terms_ofLabels_iff : terms (ofLabels labels) = labels ↔ ∀ l ∈ labels, Spelled l := by
  refine ⟨fun h l hl => ?_, terms_ofLabels⟩
  rw [← h] at hl
  exact spelled_of_mem_terms hl

/-- A label map selects the objects that carry all of it. -/
theorem selects_ofLabels {m : Metadata} (h : ∀ l ∈ labels, Spelled l) :
    selects (ofLabels labels) m ↔ ∀ l ∈ labels, m.label? l.1 = some l.2 := by
  unfold selects
  rw [terms_ofLabels h, List.all_eq_true]
  exact forall₂_congr fun l _ => decide_eq_true_iff

end Selector

end Addons
