import Addons.Component.Bundle
import Addons.Proofs.Json.Merged
import Addons.Proofs.Json.Same
import Addons.Proofs.Object.Identity
import Addons.Proofs.Table
import Mathlib.Data.List.Basic

/-!
# Reading a render again

What is written of a component is read once more from its render, and lists are flattened and kinds looked for a
second time. A render comes out of that as it was exactly if each of its documents has a kind and is no list
(`Manifest.reread_iff`): an item of a list need not have a kind and may be a list itself, and a patch may change a
kind, and neither is looked at before the render is written.
-/

namespace Addons

/-- A document that stands for itself in a stream: it has a kind, and is no list. -/
def Json.IsPlain (doc : Json) : Prop := ∃ kind, doc.getStr? "kind" = some kind ∧ kind ≠ "List"

namespace Manifest

/-- The reader gives back the documents of a stream as they were written. -/
def ReadsBack (docs : List Json) : Prop :=
  docs ≠ [] → (Yaml.documents (print docs)).map (fun d => d.bind Yaml.Document.toJson?) = docs.map some

/-- The size of documents taken together. -/
noncomputable def totalSize : List Json → Nat
  | [] => 0
  | doc :: docs => sizeOf doc + totalSize docs

variable {i : Nat} {doc : Json} {docs items out : List Json} {stream : List (Option Yaml.Document)}

theorem totalSize_cons (doc : Json) (docs : List Json) : totalSize (doc :: docs) = sizeOf doc + totalSize docs := rfl

theorem totalSize_append (docs items : List Json) : totalSize (docs ++ items) = totalSize docs + totalSize items := by
  induction docs with
  | nil => exact (Nat.zero_add _).symm
  | cons d docs ih => rw [List.cons_append, totalSize_cons, totalSize_cons, ih, Nat.add_assoc]

theorem totalSize_filter_le (p : Json → Bool) (docs : List Json) : totalSize (docs.filter p) ≤ totalSize docs := by
  induction docs with
  | nil => exact Nat.le_refl _
  | cons d docs ih =>
    rw [List.filter_cons, totalSize_cons]
    split
    · exact Nat.add_le_add_left ih _
    · exact Nat.le_trans ih (Nat.le_add_left _ _)

theorem totalSize_le_sizeOf (docs : List Json) : totalSize docs ≤ sizeOf docs := by
  induction docs with
  | nil => exact Nat.zero_le _
  | cons d docs ih =>
    rw [totalSize_cons, List.cons.sizeOf_spec]
    omega

/-- The items of a field are less than the object. -/
theorem totalSize_items_lt {fields : Json.Fields} {k : String}
    (h : Table.find? fields k = some (.arr items)) : totalSize items < sizeOf (Json.obj fields) := by
  have hentry := List.sizeOf_lt_of_mem (Table.mem_of_find? h)
  have hitems := totalSize_le_sizeOf items
  rw [Prod.mk.sizeOf_spec, Json.arr.sizeOf_spec] at hentry
  rw [Json.obj.sizeOf_spec]
  omega

theorem sizeOf_pos (doc : Json) : 0 < sizeOf doc := by
  cases doc with
  | null => decide
  | bool | num | str | arr | obj => exact Nat.lt_of_lt_of_le Nat.zero_lt_one (Nat.le_add_right 1 _)

/-! ## One document -/

theorem itemsOf_of_plain (h : doc.IsPlain) : itemsOf i doc = .ok [doc] := by
  obtain ⟨kind, hkind, hlist⟩ := h
  cases doc with
  | null | bool | num | str | arr => cases hkind
  | obj fields =>
    unfold itemsOf
    dsimp only
    rw [hkind]
    exact if_neg hlist

/-- A document contributes itself, or less than it is. -/
theorem itemsOf_cases (h : itemsOf i doc = .ok items) :
    (doc.IsPlain ∧ items = [doc]) ∨ totalSize items < sizeOf doc := by
  cases doc with
  | bool | num | str | arr => cases h
  | null =>
    obtain rfl := Except.ok.inj h
    exact .inr (sizeOf_pos _)
  | obj fields =>
    unfold itemsOf at h
    dsimp only at h
    cases hkind : (Json.obj fields).getStr? "kind" with
    | none =>
      rw [hkind] at h
      cases h
    | some kind =>
      rw [hkind] at h
      dsimp only at h
      by_cases hlist : kind = "List"
      · rw [if_pos hlist] at h
        obtain rfl := Except.ok.inj h
        refine .inr (Nat.lt_of_le_of_lt (totalSize_filter_le _ _) ?_)
        show totalSize (((Table.find? fields "items").bind Json.arr?).getD []) < _
        cases hitems : Table.find? fields "items" with
        | none => exact sizeOf_pos _
        | some v =>
          cases v with
          | arr items => exact totalSize_items_lt hitems
          | null | bool | num | str | obj => exact sizeOf_pos _
      · rw [if_neg hlist] at h
        exact .inl ⟨⟨kind, hkind, hlist⟩, (Except.ok.inj h).symm⟩

/-! ## A stream -/

/-- Plain documents that are read back are collected as they are. -/
theorem collect_of_plain (hread : stream.map (fun d => d.bind Yaml.Document.toJson?) = docs.map some)
    (h : ∀ doc ∈ docs, doc.IsPlain) : collect i stream = .ok docs := by
  induction stream generalizing docs i with
  | nil =>
    obtain rfl : docs = [] := by simpa using hread.symm
    rfl
  | cons d stream ih =>
    cases docs with
    | nil => cases hread
    | cons doc docs =>
      obtain ⟨hd, hread⟩ := List.cons.inj hread
      obtain ⟨hdoc, h⟩ := List.forall_mem_cons.1 h
      unfold collect
      dsimp only at hd ⊢
      rw [hd]
      dsimp only
      rw [itemsOf_of_plain hdoc, ih hread h]
      rfl

/-- What is collected of documents that are read back is no more than they are, and less if one of them is not
plain. -/
theorem totalSize_of_collect (hread : stream.map (fun d => d.bind Yaml.Document.toJson?) = docs.map some)
    (h : collect i stream = .ok out) :
    totalSize out ≤ totalSize docs ∧ ((∃ doc ∈ docs, ¬doc.IsPlain) → totalSize out < totalSize docs) := by
  induction stream generalizing docs i out with
  | nil =>
    obtain rfl : docs = [] := by simpa using hread.symm
    obtain rfl := Except.ok.inj h
    exact ⟨Nat.le_refl _, fun ⟨_, hmem, _⟩ => absurd hmem List.not_mem_nil⟩
  | cons d stream ih =>
    cases docs with
    | nil => cases hread
    | cons doc docs =>
      obtain ⟨hd, hread⟩ := List.cons.inj hread
      unfold collect at h
      dsimp only at hd h
      rw [hd] at h
      dsimp only at h
      obtain ⟨items, hitems, h⟩ := of_bind_eq_ok h
      obtain ⟨rest, hrest, h⟩ := of_bind_eq_ok h
      obtain rfl := Except.ok.inj h
      obtain ⟨hle, hlt⟩ := ih hread hrest
      rw [totalSize_append, totalSize_cons]
      rcases itemsOf_cases hitems with ⟨hplain, rfl⟩ | hsmall
      · refine ⟨Nat.add_le_add_left hle _, ?_⟩
        rintro ⟨doc', hmem, hnot⟩
        obtain rfl | hmem := List.mem_cons.1 hmem
        · exact absurd hplain hnot
        · exact Nat.add_lt_add_left (hlt ⟨doc', hmem, hnot⟩) _
      · have hless := Nat.add_lt_add_of_lt_of_le hsmall hle
        exact ⟨Nat.le_of_lt hless, fun _ => hless⟩

/-- A render is read again as it was exactly if each of its documents has a kind and is no list. -/
theorem parseDocuments_print_iff (hread : ReadsBack docs) :
    parseDocuments (print docs) = .ok docs ↔ ∀ doc ∈ docs, doc.IsPlain := by
  by_cases hempty : docs = []
  · subst hempty
    exact iff_of_true (by decide +kernel) fun _ hmem => absurd hmem List.not_mem_nil
  · have hread := hread hempty
    unfold parseDocuments
    refine ⟨fun h doc hdoc => Classical.byContradiction fun hnot => ?_, collect_of_plain hread⟩
    have hless := (totalSize_of_collect hread h).2 ⟨doc, hdoc, hnot⟩
    exact Nat.lt_irrefl _ hless

/-! ## Overlays -/

theorem getStr?_eq_some_iff {k text : String} :
    doc.getStr? k = some text ↔ ∃ fields, doc = .obj fields ∧ Table.find? fields k = some (.str text) := by
  constructor
  · intro h
    obtain ⟨v, hv, htext⟩ := Option.bind_eq_some_iff.1 h
    cases v with
    | null | bool | num | arr | obj => cases htext
    | str s =>
      obtain rfl := Option.some.inj htext
      cases doc with
      | null | bool | num | str | arr => cases hv
      | obj fields => exact ⟨fields, rfl, hv⟩
  · rintro ⟨fields, rfl, h⟩
    exact Option.bind_eq_some_iff.2 ⟨_, h, rfl⟩

theorem plain_mergePatch {patch : Json.Fields} (h : doc.IsPlain) (hpatch : Table.find? patch "kind" = none) :
    (doc.mergePatch (.obj patch)).IsPlain := by
  obtain ⟨kind, hkind, hlist⟩ := h
  obtain ⟨fields, rfl, hfound⟩ := getStr?_eq_some_iff.1 hkind
  refine ⟨kind, getStr?_eq_some_iff.2 ⟨_, by rw [Json.mergePatch], ?_⟩, hlist⟩
  exact (Json.find?_mergeFields_of_unnamed hpatch fields).trans hfound

/-- Rewriting images leaves text alone that is no image. -/
theorem find?_rewriteFields {images : List ImageSubstitution} {fields : Json.Fields} {k text : String}
    (h : Table.find? fields k = some (.str text)) :
    Table.find? (ImageSubstitution.rewriteFields images fields) k = some (.str text) := by
  induction fields with
  | nil => cases h
  | cons e fields ih =>
    obtain ⟨k', v⟩ := e
    have hcons : ∃ v', ImageSubstitution.rewriteFields images ((k', v) :: fields)
        = (k', v') :: ImageSubstitution.rewriteFields images fields ∧ (v = .str text → v' = .str text) := by
      cases v with
      | arr items => exact ⟨_, rfl, nofun⟩
      | str s => exact ⟨_, rfl, id⟩
      | null | bool | num | obj => exact ⟨_, rfl, nofun⟩
    obtain ⟨v', hcons, hv⟩ := hcons
    rw [hcons]
    rw [Table.find?_cons] at h ⊢
    by_cases hk : k = k'
    · rw [if_pos hk] at h ⊢
      rw [hv (Option.some.inj h)]
    · rw [if_neg hk] at h ⊢
      exact ih h

theorem plain_rewrite (h : doc.IsPlain) (images : List ImageSubstitution) :
    (ImageSubstitution.rewrite images doc).IsPlain := by
  obtain ⟨kind, hkind, hlist⟩ := h
  obtain ⟨fields, rfl, hfound⟩ := getStr?_eq_some_iff.1 hkind
  exact ⟨kind, getStr?_eq_some_iff.2 ⟨_, by rw [ImageSubstitution.rewrite], find?_rewriteFields hfound⟩, hlist⟩

/-- A plain document stays plain if no patch names its kind. -/
theorem plain_overlay {patches : List Patch} (h : doc.IsPlain)
    (hpatches : ∀ p ∈ patches, ∃ fields, p.body = .obj fields ∧ Table.find? fields "kind" = none)
    (images : List ImageSubstitution) : (overlay patches images doc).IsPlain := by
  have hpatched : (Patch.applyAll patches doc).IsPlain := by
    unfold Patch.applyAll
    have hselected : ∀ p ∈ patches.filter fun p => p.target.selects doc, ∃ fields, p.body = .obj fields
        ∧ Table.find? fields "kind" = none := fun p hp => hpatches p (List.mem_filter.1 hp).1
    generalize patches.filter (fun p => p.target.selects doc) = selected at hselected
    induction selected generalizing doc with
    | nil => exact h
    | cons p selected ih =>
      obtain ⟨⟨fields, hbody, hkind⟩, hselected⟩ := List.forall_mem_cons.1 hselected
      rw [List.foldl_cons, hbody]
      exact ih (plain_mergePatch h hkind) hselected
  unfold overlay
  split
  · exact hpatched
  · exact plain_rewrite hpatched images

theorem renderDocuments_eq_ok_iff {source : String} {patches : List Patch} {images : List ImageSubstitution} :
    renderDocuments source patches images = .ok docs ↔ (∀ p ∈ patches, p.body.isObj) ∧
      ∃ parsed, parseDocuments source = .ok parsed ∧ docs = parsed.map (overlay patches images) := by
  unfold renderDocuments
  generalize overlay patches images = f
  generalize parseDocuments source = read
  induction patches with
  | nil =>
    constructor
    · intro h
      obtain ⟨_, -, h⟩ := of_bind_eq_ok h
      obtain ⟨parsed, hparsed, h⟩ := of_bind_eq_ok h
      exact ⟨fun _ hp => absurd hp List.not_mem_nil, parsed, hparsed, (Except.ok.inj h).symm⟩
    · rintro ⟨-, parsed, rfl, rfl⟩
      rfl
  | cons p patches ih =>
    rw [List.forall_mem_cons]
    simp only [List.forIn_cons]
    cases hp : p.body.isObj with
    | false => exact iff_of_false nofun fun h => nomatch h.1.1
    | true => exact ih.trans (and_congr_left fun _ => (and_iff_right rfl).symm)

/-! ## Renders -/

theorem ofUtf8_toUTF8 (text : String) : Text.ofUtf8 text.toUTF8 = .ok text := by
  have hvalid : String.fromUTF8? text.toUTF8 = some text := dif_pos text.isValidUTF8
  unfold Text.ofUtf8
  rw [hvalid]

attribute [local irreducible] parseDocuments

/-- A render whose documents are read back comes out of a second reading as it was exactly if each of them has a
kind and is no list. Then rendering it again changes nothing, and what is prepared for writing is what the overlays
left. All of it holds if the documents of the source have kinds and are no lists, and no patch names a kind. -/
theorem reread_iff {source : String} {patches : List Patch} {images : List ImageSubstitution}
    (h : renderDocuments source patches images = .ok docs) (hread : ReadsBack docs) :
    render source patches images = .ok (print docs)
      ∧ (parseDocuments (print docs) = .ok docs ↔ ∀ doc ∈ docs, doc.IsPlain)
      ∧ ((∀ doc ∈ docs, doc.IsPlain) → render (print docs) [] [] = .ok (print docs)
        ∧ ∀ ns name, Bundle.prepare (print docs).toUTF8 ns name
          = docs.mapM fun doc => Prepared.ofDocument doc ns (Bundle.labels name))
      ∧ ∃ parsed, parseDocuments source = .ok parsed ∧ docs = parsed.map (overlay patches images)
        ∧ ((∀ doc ∈ parsed, doc.IsPlain) → (∀ p ∈ patches, p.body.get? "kind" = none) →
          ∀ doc ∈ docs, doc.IsPlain) := by
  have hiff := parseDocuments_print_iff hread
  obtain ⟨hbodies, parsed, hparsed, rfl⟩ := renderDocuments_eq_ok_iff.1 h
  refine ⟨by unfold render; rw [h]; rfl, hiff, fun hplain => ?_, parsed, hparsed, rfl, fun hplain hkinds => ?_⟩
  · have hparse := hiff.2 hplain
    refine ⟨?_, fun ns name => ?_⟩
    · have hsame : renderDocuments (print (parsed.map (overlay patches images))) [] []
          = .ok (parsed.map (overlay patches images)) :=
        renderDocuments_eq_ok_iff.2 ⟨fun _ hp => absurd hp List.not_mem_nil, _, hparse, (List.map_id _).symm⟩
      unfold render
      rw [hsame]
      rfl
    · unfold Bundle.prepare
      rw [ofUtf8_toUTF8]
      show (Except.mapError Error.content (parseDocuments _) >>= _) = _
      rw [hparse]
      rfl
  · rw [List.forall_mem_map]
    refine fun doc hdoc => plain_overlay (hplain doc hdoc) (fun p hp => ?_) images
    have hkind := hkinds p hp
    have hobj := hbodies p hp
    cases hbody : p.body with
    | null | bool | num | str | arr =>
      rw [hbody] at hobj
      cases hobj
    | obj fields =>
      rw [hbody] at hkind
      exact ⟨fields, rfl, hkind⟩

section Sample

def source : String :=
  "apiVersion: v1\nkind: List\nitems:\n- apiVersion: v1\n  kind: ConfigMap\n  metadata:\n    name: a\n---\n"
    ++ "apiVersion: v1\nkind: Pod\nmetadata:\n  name: b\nspec:\n  containers:\n  - image: app:1\n"

def levelTwo : Patch := ⟨⟨"ConfigMap", none, none⟩, .obj [("data", .obj [("level", .str "two")])]⟩

def newTag : ImageSubstitution := ⟨"app", none, some "2", none⟩

/-- What is written of the source, patched and with another image. -/
def overlaid : List Json :=
  [.obj [("apiVersion", .str "v1"), ("data", .obj [("level", .str "two")]), ("kind", .str "ConfigMap"),
      ("metadata", .obj [("name", .str "a")])],
    .obj [("apiVersion", .str "v1"), ("kind", .str "Pod"), ("metadata", .obj [("name", .str "b")]),
      ("spec", .obj [("containers", .arr [.obj [("image", .str "app:2")]])])]]

theorem overlaid_reread : renderDocuments source [levelTwo] [newTag] = .ok overlaid ∧ ReadsBack overlaid
    ∧ parseDocuments (print overlaid) = .ok overlaid ∧ render (print overlaid) [] [] = .ok (print overlaid) := by
  have hrender : renderDocuments source [levelTwo] [newTag] = .ok overlaid := by decide +kernel
  have hread : ReadsBack overlaid := fun _ => by decide +kernel
  obtain ⟨-, hiff, hagain, -⟩ := reread_iff hrender hread
  have hplain : ∀ doc ∈ overlaid, doc.IsPlain := by
    refine List.forall_mem_cons.2 ⟨⟨"ConfigMap", by decide, by decide⟩, List.forall_mem_cons.2 ⟨?_, ?_⟩⟩
    · exact ⟨"Pod", by decide, by decide⟩
    · exact fun _ hdoc => absurd hdoc List.not_mem_nil
  exact ⟨hrender, hread, hiff.2 hplain, (hagain hplain).1⟩

/-- A list of an item without a kind. -/
def kindlessSource : String := "apiVersion: v1\nkind: List\nitems:\n- apiVersion: v1\n  metadata:\n    name: a\n"

def kindless : Json := .obj [("apiVersion", .str "v1"), ("metadata", .obj [("name", .str "a")])]

/-- A list in a list. -/
def nestedSource : String :=
  "apiVersion: v1\nkind: List\nitems:\n- apiVersion: v1\n  kind: List\n  items:\n  - apiVersion: v1\n"
    ++ "    kind: ConfigMap\n    metadata:\n      name: a\n"

def configMap : Json :=
  .obj [("apiVersion", .str "v1"), ("kind", .str "ConfigMap"), ("metadata", .obj [("name", .str "a")])]

def nested : Json := .obj [("apiVersion", .str "v1"), ("items", .arr [configMap]), ("kind", .str "List")]

/-- An item without a kind is rendered and refused when it is read again. A list in a list is rendered as it is, and
read again as its items, which the patch for them has not reached. -/
theorem items_not_reread :
    (renderDocuments kindlessSource [] [] = .ok [kindless] ∧ ReadsBack [kindless]
        ∧ parseDocuments (print [kindless]) = .error (.invalidDocument 0 "document has no kind"))
      ∧ renderDocuments nestedSource [levelTwo] [] = .ok [nested] ∧ ReadsBack [nested]
        ∧ parseDocuments (print [nested]) = .ok [configMap] ∧ configMap ≠ nested := by
  refine ⟨⟨by decide +kernel, fun _ => by decide +kernel, by decide +kernel⟩, by decide +kernel,
    fun _ => by decide +kernel, by decide +kernel, by decide +kernel⟩

end Sample

end Manifest

end Addons
