import Addons.Manifest.Image
import Addons.Proofs.Object.Ordered

/-!
# Which images are rewritten

Rewriting the images of a document changes the texts in one kind of place, the image of an item in a list of
containers (`ImagePath`), each of them once, by the first substitution of its name (`Substituted`). What the
document has at any other path stays (`Json.outline`), and there is only one such document
(`ImageSubstitution.rewrite_exact`).

What a value plays for the walk is said by its `Role`, which one step into the value makes the role of the part
(`Role.part?_rewrite`) and a path that of what is found there.
-/

namespace Addons

/-! ## Outlines -/

namespace Json

/-- A value without its fields and items, of which only the names and the number are left. -/
def outline : Json → Json
  | .arr items => .arr (items.map fun _ => .null)
  | .obj fields => .obj (fields.map fun e => (e.1, .null))
  | j => j

/-- The outline of what is found at a path. -/
def outlineAt? (j : Json) (path : List Step) : Option Json := (j.at? path).map outline

variable {a b : Json} {fields fields' : Fields}

theorem outlineAt?_cons (j : Json) (s : Step) (path : List Step) :
    j.outlineAt? (s :: path) = (j.part? s).bind fun v => v.outlineAt? path := Option.map_bind ..

theorem sortedKeys_at? {j v : Json} {path : List Step} (h : j.SortedKeys) (hv : j.at? path = some v) :
    v.SortedKeys := by
  induction path generalizing j with
  | nil =>
    obtain rfl := Option.some.inj hv
    exact h
  | cons s path ih =>
    obtain ⟨part, hpart, hv⟩ := Option.bind_eq_some_iff.1 hv
    refine ih ?_ hv
    cases j with
    | arr items =>
      cases s with
      | field k => cases hpart
      | item i => exact sortedItems_iff.1 h part (List.mem_of_getElem? hpart)
    | obj fields =>
      cases s with
      | field k => exact sortedKeys_of_find? h hpart
      | item i => cases hpart
    | _ => cases s <;> cases hpart

theorem find?_map (f : String → Json → Json) (fields : Fields) (k : String) :
    Table.find? (fields.map fun e => (e.1, f e.1 e.2)) k = (Table.find? fields k).map (f k) := by
  unfold Table.find?
  induction fields with
  | nil => rfl
  | cons e fields ih =>
    rw [List.map_cons, List.lookup_cons, List.lookup_cons]
    by_cases hk : k = e.1
    · rw [beq_iff_eq.2 hk, hk]
      rfl
    · rw [beq_eq_false_iff_ne.2 hk]
      exact ih

theorem sorted_map (f : String → Json → Json) (h : Table.Sorted fields) :
    Table.Sorted (fields.map fun e => (e.1, f e.1 e.2)) :=
  List.pairwise_map.2 h

/-- Objects have the same outline if they have fields of the same names. -/
theorem outline_obj (h : Table.Sorted fields) (h' : Table.Sorted fields')
    (hnames : ∀ k, (Table.find? fields k).isSome = (Table.find? fields' k).isSome) :
    (obj fields).outline = (obj fields').outline := by
  refine congrArg obj ((sorted_map (fun _ _ => null) h).ext (sorted_map (fun _ _ => null) h') fun k => ?_)
  rw [find?_map (fun _ _ => null), find?_map (fun _ _ => null)]
  specialize hnames k
  cases hk : Table.find? fields k <;> cases hk' : Table.find? fields' k <;> simp_all

theorem isSome_of_outline (h : (obj fields).outline = (obj fields').outline) (k : String) :
    (Table.find? fields k).isSome = (Table.find? fields' k).isSome := by
  have hfind := congrArg (fun t => (Table.find? t k).isSome) (Json.obj.inj h)
  simpa only [find?_map (fun _ _ => .null), Option.isSome_map] using hfind

/-- What holds of the outlines at all paths holds of those of a part. -/
theorem outlineAt?_part {s : Step} {v w : Json} (h : ∀ path, a.outlineAt? path = b.outlineAt? path)
    (hv : a.part? s = some v) (hw : b.part? s = some w) (path : List Step) :
    v.outlineAt? path = w.outlineAt? path := by
  have hpath := h (s :: path)
  rwa [outlineAt?_cons, outlineAt?_cons, hv, hw] at hpath

mutual

/-- A value is what its outlines say. -/
theorem eq_of_outlineAt? : ∀ {a b : Json}, a.SortedKeys → b.SortedKeys →
    (∀ path, a.outlineAt? path = b.outlineAt? path) → a = b
  | .null, b, _, _, h | .bool _, b, _, _, h | .num _, b, _, _, h | .str _, b, _, _, h => by
    have houtline := Option.some.inj (h [])
    cases b <;> first | exact houtline | cases houtline
  | .arr items, b, ha, hb, h => by
    have houtline := Option.some.inj (h [])
    cases b with
    | arr items' =>
      have hlength : items.length = items'.length := by
        simpa using congrArg List.length (Json.arr.inj houtline)
      refine congrArg arr (List.ext_getElem hlength fun i hi hi' => ?_)
      exact eq_of_item ha (List.getElem_mem hi) (sortedItems_iff.1 hb _ (List.getElem_mem hi'))
        (outlineAt?_part h (s := .item i) (List.getElem?_eq_getElem hi) (List.getElem?_eq_getElem hi'))
    | _ => cases houtline
  | .obj fields, b, ha, hb, h => by
    have houtline := Option.some.inj (h [])
    cases b with
    | obj fields' =>
      refine congrArg obj (ha.1.ext hb.1 fun k => ?_)
      have hsome := isSome_of_outline houtline k
      cases hv : Table.find? fields k with
      | none => rwa [hv, Option.isSome_none, eq_comm, Option.isSome_eq_false_iff, Option.isNone_iff_eq_none,
          eq_comm] at hsome
      | some v =>
        rw [hv, Option.isSome_some, eq_comm, Option.isSome_iff_exists] at hsome
        obtain ⟨w, hw⟩ := hsome
        rw [hw]
        exact congrArg some (eq_of_field ha.2 (Table.mem_of_find? hv) (sortedKeys_of_find? hb hw)
          (outlineAt?_part h (s := .field k) hv hw))
    | _ => cases houtline

theorem eq_of_item : ∀ {items : List Json} {a b : Json}, SortedItems items → a ∈ items → b.SortedKeys →
    (∀ path, a.outlineAt? path = b.outlineAt? path) → a = b
  | j :: items, a, b, h, ha, hb, hpath => by
    rcases List.mem_cons.1 ha with heq | ha
    · subst a
      exact eq_of_outlineAt? h.1 hb hpath
    · exact eq_of_item h.2 ha hb hpath

theorem eq_of_field : ∀ {fields : List (String × Json)} {e : String × Json} {b : Json}, SortedValues fields →
    e ∈ fields → b.SortedKeys → (∀ path, e.2.outlineAt? path = b.outlineAt? path) → e.2 = b
  | (k, v) :: fields, e, b, h, he, hb, hpath => by
    rcases List.mem_cons.1 he with rfl | he
    · exact eq_of_outlineAt? h.1 hb hpath
    · exact eq_of_field h.2 he hb hpath

end

end Json

namespace ImageSubstitution

open Json (Step)

variable {subs : List ImageSubstitution} {doc j c : Json} {path : List Step} {image text : String}

/-- A text rewritten as an image, and any other value as it is. -/
def replaceText (subs : List ImageSubstitution) : Json → Json
  | .str text => .str ((applyFirst? subs text).getD text)
  | j => j

/-! ## Roles -/

/-- What a value is for the walk. -/
inductive Role where
  | plain
  /-- The value of a field that holds a list of containers. -/
  | list
  /-- An item of such a list. -/
  | container
  /-- The image of a container. -/
  | image
  deriving DecidableEq

namespace Role

/-- The role of a part of a value. -/
def next (role : Role) : Step → Role
  | .field k =>
    if role = .container ∧ k = "image" then .image else if isContainerKey k then .list else .plain
  | .item _ => if role = .list then .container else .plain

/-- What becomes of a value in a role. -/
def rewrite (subs : List ImageSubstitution) (role : Role) (j : Json) : Json :=
  match role, j with
  | .list, .arr items => .arr (rewriteContainers subs items)
  | .container, j => rewriteContainer subs (ImageSubstitution.rewrite subs j)
  | .image, j => replaceText subs (ImageSubstitution.rewrite subs j)
  | _, j => ImageSubstitution.rewrite subs j

end Role

theorem rewriteItems_eq (items : List Json) : rewriteItems subs items = items.map (rewrite subs) := by
  induction items with
  | nil => rfl
  | cons j items ih => rw [rewriteItems, ih, List.map_cons]

theorem rewriteContainers_eq (items : List Json) :
    rewriteContainers subs items = items.map (Role.container.rewrite subs) := by
  induction items with
  | nil => rfl
  | cons j items ih =>
    rw [rewriteContainers, ih, List.map_cons]
    rfl

theorem rewriteFields_eq (fields : List (String × Json)) : rewriteFields subs fields
    = fields.map fun e => (e.1, (Role.plain.next (.field e.1)).rewrite subs e.2) := by
  induction fields with
  | nil => rfl
  | cons e fields ih =>
    obtain ⟨k, v⟩ := e
    rw [List.map_cons, ← ih]
    cases hk : isContainerKey k <;> cases v <;> simp [rewriteFields, Role.next, Role.rewrite, hk, rewrite]

variable (subs) in
theorem part?_rewrite_plain (j : Json) (s : Step) :
    (rewrite subs j).part? s = (j.part? s).map ((Role.plain.next s).rewrite subs) := by
  cases j with
  | arr items =>
    cases s with
    | field k => rfl
    | item i =>
      show (rewriteItems subs items)[i]? = items[i]?.map (rewrite subs)
      rw [rewriteItems_eq, List.getElem?_map]
  | obj fields =>
    cases s with
    | field k =>
      show Table.find? (rewriteFields subs fields) k = _
      rw [rewriteFields_eq]
      exact Json.find?_map (fun k v => (Role.plain.next (.field k)).rewrite subs v) fields k
    | item i => rfl
  | _ => cases s <;> rfl

/-! ## Containers -/

variable (subs) in
/-- A container stays as it is, or has its image replaced. -/
theorem rewriteContainer_cases (c : Json) :
    (rewriteContainer subs c = c ∧ ∀ v, c.get? "image" = some v → replaceText subs v = v)
      ∨ ∃ fields text, c = .obj fields ∧ Table.find? fields "image" = some (.str text)
        ∧ rewriteContainer subs c = .obj (Table.insert "image" (replaceText subs (.str text)) fields) := by
  cases c with
  | obj fields =>
    have hget : (Json.obj fields).getStr? "image" = (Table.find? fields "image").bind Json.str? := rfl
    cases himage : Table.find? fields "image" with
    | none =>
      refine .inl ⟨by simp [rewriteContainer, hget, himage], fun v hv => ?_⟩
      cases himage.symm.trans hv
    | some v =>
      cases v with
      | str text =>
        cases hnew : applyFirst? subs text with
        | none =>
          refine .inl ⟨by simp [rewriteContainer, hget, himage, Json.str?, hnew], fun v hv => ?_⟩
          obtain rfl := Option.some.inj (himage.symm.trans hv)
          simp [replaceText, hnew]
        | some new =>
          refine .inr ⟨fields, text, rfl, himage, ?_⟩
          simp [rewriteContainer, hget, himage, Json.str?, hnew, replaceText]
      | _ =>
        refine .inl ⟨by simp [rewriteContainer, hget, himage, Json.str?], fun v hv => ?_⟩
        obtain rfl := Option.some.inj (himage.symm.trans hv)
        rfl
  | _ => exact .inl ⟨rfl, fun v hv => by cases hv⟩

/-- Of the fields of a container only the image is rewritten. -/
theorem get?_rewriteContainer (c : Json) (k : String) :
    (rewriteContainer subs c).get? k = (c.get? k).map (if k = "image" then replaceText subs else id) := by
  by_cases hk : k = "image"
  · subst hk
    rw [if_pos rfl]
    rcases rewriteContainer_cases subs c with ⟨hc, himage⟩ | ⟨fields, text, rfl, htext, hc⟩
    · rw [hc]
      cases hv : c.get? "image" with
      | none => rfl
      | some v => rw [Option.map_some, himage v hv]
    · rw [hc]
      show Table.find? _ _ = (Table.find? fields "image").map _
      rw [Table.find?_insert_self, htext]
      rfl
  · rw [if_neg hk, Option.map_id_fun, id]
    rcases rewriteContainer_cases subs c with ⟨hc, -⟩ | ⟨fields, text, rfl, -, hc⟩
    · rw [hc]
    · rw [hc]
      exact Table.find?_insert_ne hk _ fields

theorem sortedKeys_rewriteContainer (h : c.SortedKeys) : (rewriteContainer subs c).SortedKeys := by
  rcases rewriteContainer_cases subs c with ⟨hc, -⟩ | ⟨fields, text, rfl, -, hc⟩
  · rwa [hc]
  · rw [hc]
    exact Json.sortedKeys_insert h trivial

theorem outline_rewriteContainer (h : c.SortedKeys) : (rewriteContainer subs c).outline = c.outline := by
  rcases rewriteContainer_cases subs c with ⟨hc, -⟩ | ⟨fields, text, rfl, htext, hc⟩
  · rw [hc]
  · rw [hc]
    refine Json.outline_obj (h.1.insert _ _) h.1 fun k => ?_
    rw [Table.find?_insert]
    by_cases hk : k = "image"
    · rw [if_pos hk, hk, htext]
      rfl
    · rw [if_neg hk]

theorem item_rewriteContainer (c : Json) (i : Nat) :
    (rewriteContainer subs c).part? (.item i) = c.part? (.item i) := by
  rcases rewriteContainer_cases subs c with ⟨hc, -⟩ | ⟨fields, text, rfl, -, hc⟩
  · rw [hc]
  · rw [hc]
    rfl

/-! ## Roles along a path -/

namespace Role

/-- One step into what becomes of a value is what becomes of the part. -/
theorem part?_rewrite (role : Role) (j : Json) (s : Step) :
    (role.rewrite subs j).part? s = (j.part? s).map ((role.next s).rewrite subs) := by
  have hplain := part?_rewrite_plain subs j s
  cases role with
  | plain => exact hplain
  | list =>
    cases j with
    | arr items =>
      cases s with
      | field k => rfl
      | item i =>
        show (rewriteContainers subs items)[i]? = items[i]?.map (container.rewrite subs)
        rw [rewriteContainers_eq, List.getElem?_map]
    | obj fields =>
      cases s with
      | field k => exact hplain.trans (by simp [next])
      | item i => rfl
    | _ => cases s <;> rfl
  | container =>
    cases s with
    | field k =>
      show (rewriteContainer subs (ImageSubstitution.rewrite subs j)).get? k = _
      rw [get?_rewriteContainer]
      show Option.map _ ((ImageSubstitution.rewrite subs j).part? (.field k)) = _
      rw [hplain, Option.map_map]
      by_cases hk : k = "image"
      · subst hk
        rfl
      · simp [next, hk]
    | item i =>
      exact (item_rewriteContainer _ i).trans (hplain.trans (by simp [next]))
  | image =>
    have hsame : (replaceText subs (ImageSubstitution.rewrite subs j)).part? s
        = (ImageSubstitution.rewrite subs j).part? s := by
      cases ImageSubstitution.rewrite subs j with
      | str text => cases s <;> rfl
      | _ => rfl
    refine hsame.trans (hplain.trans ?_)
    cases s <;> simp [next]

/-- What is found at a path is rewritten in the role that the path gives it. -/
theorem at?_rewrite (role : Role) (j : Json) (path : List Step) :
    (role.rewrite subs j).at? path = (j.at? path).map ((path.foldl next role).rewrite subs) := by
  induction path generalizing role j with
  | nil => rfl
  | cons s path ih =>
    show ((role.rewrite subs j).part? s).bind _ = Option.map _ ((j.part? s).bind _)
    rw [part?_rewrite, Option.bind_map, Option.map_bind]
    exact congrArg (Option.bind _) (funext fun v => ih (role.next s) v)

theorem next_eq_list {role : Role} {s : Step} : role.next s = .list ↔ ∃ k, s = .field k ∧ isContainerKey k := by
  cases s with
  | field k =>
    by_cases hk : role = .container ∧ k = "image"
    · obtain ⟨rfl, rfl⟩ := hk
      simp [next, isContainerKey]
    · cases hc : isContainerKey k <;> simp [next, hk, hc]
  | item i => cases role <;> simp [next]

theorem next_eq_container {role : Role} {s : Step} :
    role.next s = .container ↔ role = .list ∧ ∃ i, s = .item i := by
  cases s with
  | field k =>
    by_cases hk : role = .container ∧ k = "image" <;> cases hc : isContainerKey k <;> simp [next, hk, hc]
  | item i => cases role <;> simp [next]

theorem next_eq_image {role : Role} {s : Step} :
    role.next s = .image ↔ role = .container ∧ s = .field "image" := by
  cases s with
  | field k =>
    by_cases hk : role = .container ∧ k = "image"
    · simp [next, hk]
    · cases hc : isContainerKey k <;> simp [next, hk, hc]
  | item i => cases role <;> simp [next]

/-- The role of what is found at a path. -/
def along (path : List Step) : Role := path.foldl next .plain

theorem along_concat (path : List Step) (s : Step) : along (path ++ [s]) = (along path).next s := by
  unfold along
  rw [List.foldl_concat]

/-- Who has a role got it from the last step of a path. -/
theorem exists_last {role : Role} (h : along path = role) (hrole : role ≠ .plain) :
    ∃ above s, path = above ++ [s] ∧ (along above).next s = role := by
  obtain rfl | ⟨above, s, rfl⟩ := List.eq_nil_or_concat path
  · exact absurd h.symm hrole
  · rw [List.concat_eq_append] at h ⊢
    rw [along_concat] at h
    exact ⟨above, s, rfl, h⟩

end Role

/-- A path that ends in the image of an item in a list of containers. -/
def ImagePath (path : List Step) : Prop :=
  ∃ above k i, isContainerKey k ∧ path = above ++ [.field k, .item i, .field "image"]

theorem along_eq_image_iff : Role.along path = .image ↔ ImagePath path := by
  constructor
  · intro himage
    obtain ⟨_, _, rfl, hlast⟩ := Role.exists_last himage (by decide)
    obtain ⟨hcontainer, rfl⟩ := Role.next_eq_image.1 hlast
    obtain ⟨_, _, rfl, hitem⟩ := Role.exists_last hcontainer (by decide)
    obtain ⟨hlist, i, rfl⟩ := Role.next_eq_container.1 hitem
    obtain ⟨above, _, rfl, hfield⟩ := Role.exists_last hlist (by decide)
    obtain ⟨k, rfl, hk⟩ := Role.next_eq_list.1 hfield
    exact ⟨above, k, i, hk, by simp⟩
  · rintro ⟨above, k, i, hk, rfl⟩
    unfold Role.along
    rw [List.foldl_append, List.foldl_cons, Role.next_eq_list.2 ⟨k, rfl, hk⟩]
    rfl

/-! ## Documents -/

mutual

theorem sortedKeys_rewrite : ∀ {j : Json}, j.SortedKeys → (rewrite subs j).SortedKeys
  | .null, h | .bool _, h | .num _, h | .str _, h => h
  | .arr _, h => sortedItems_rewriteItems h
  | .obj fields, h => by
    refine ⟨?_, sortedValues_rewriteFields h.2⟩
    rw [rewriteFields_eq]
    exact Json.sorted_map (fun k v => (Role.plain.next (.field k)).rewrite subs v) h.1

theorem sortedItems_rewriteItems : ∀ {items : List Json}, Json.SortedItems items →
    Json.SortedItems (rewriteItems subs items)
  | [], _ => trivial
  | _ :: _, h => ⟨sortedKeys_rewrite h.1, sortedItems_rewriteItems h.2⟩

theorem sortedItems_rewriteContainers : ∀ {items : List Json}, Json.SortedItems items →
    Json.SortedItems (rewriteContainers subs items)
  | [], _ => trivial
  | _ :: _, h => ⟨sortedKeys_rewriteContainer (sortedKeys_rewrite h.1), sortedItems_rewriteContainers h.2⟩

theorem sortedValues_rewriteFields : ∀ {fields : List (String × Json)}, Json.SortedValues fields →
    Json.SortedValues (rewriteFields subs fields)
  | [], _ => trivial
  | (k, .arr items) :: _, h => by
    refine ⟨?_, sortedValues_rewriteFields h.2⟩
    cases isContainerKey k with
    | true => exact sortedItems_rewriteContainers h.1
    | false => exact sortedItems_rewriteItems h.1
  | (_, .null) :: _, h | (_, .bool _) :: _, h | (_, .num _) :: _, h | (_, .str _) :: _, h
  | (_, .obj _) :: _, h => ⟨sortedKeys_rewrite h.1, sortedValues_rewriteFields h.2⟩

end

variable (subs) in
theorem outline_rewrite (j : Json) : (rewrite subs j).outline = j.outline := by
  cases j with
  | arr items =>
    show Json.arr ((rewriteItems subs items).map _) = _
    rw [rewriteItems_eq, List.map_map]
    rfl
  | obj fields =>
    show Json.obj ((rewriteFields subs fields).map _) = _
    rw [rewriteFields_eq, List.map_map]
    rfl
  | _ => rfl

/-- What is said of a value at its top changes for the image of a container only. -/
theorem Role.outline_rewrite (role : Role) (h : j.SortedKeys) : (role.rewrite subs j).outline
    = if role = .image then (replaceText subs j).outline else j.outline := by
  have hplain := ImageSubstitution.outline_rewrite subs j
  cases role with
  | plain => exact hplain
  | list =>
    cases j with
    | arr items =>
      show Json.arr ((rewriteContainers subs items).map _) = _
      rw [rewriteContainers_eq, List.map_map]
      rfl
    | _ => exact hplain
  | container => exact (outline_rewriteContainer (sortedKeys_rewrite h)).trans hplain
  | image =>
    cases j with
    | str text => rfl
    | _ => exact hplain

/-- An image as the first substitution of its name rewrites it, or as it is if there is none. -/
inductive Substituted (subs : List ImageSubstitution) (image : String) : String → Prop
  | first {before after : List ImageSubstitution} {sub : ImageSubstitution} {new : String} :
      subs = before ++ sub :: after → (∀ s ∈ before, s.rewritten? image = none) →
      sub.rewritten? image = some new → Substituted subs image new
  | none : (∀ s ∈ subs, s.rewritten? image = none) → Substituted subs image image

theorem substituted_iff {new : String} :
    Substituted subs image new ↔ new = (applyFirst? subs image).getD image := by
  constructor
  · rintro (⟨rfl, hbefore, hnew⟩ | hnone)
    · rw [applyFirst?, List.findSome?_append, List.findSome?_eq_none_iff.2 hbefore, Option.none_or,
        List.findSome?_cons_of_isSome (by rw [hnew]; rfl), hnew]
      rfl
    · rw [applyFirst?, List.findSome?_eq_none_iff.2 hnone]
      rfl
  · rintro rfl
    cases hfirst : applyFirst? subs image with
    | none => exact .none (List.findSome?_eq_none_iff.1 hfirst)
    | some new =>
      obtain ⟨before, sub, after, hsubs, hnew, hbefore⟩ := List.findSome?_eq_some_iff.1 hfirst
      exact .first hsubs hbefore hnew

/-- A text is the image of an item in a list of containers. -/
structure ImageAt (doc : Json) (path : List Step) (image : String) : Prop where
  place : ImagePath path
  text : doc.at? path = some (.str image)

/-- A document with the images of its containers rewritten, and nothing else. -/
structure Rewritten (subs : List ImageSubstitution) (doc result : Json) : Prop where
  images : ∀ path image, ImageAt doc path image →
    ∃ new, result.at? path = some (.str new) ∧ Substituted subs image new
  others : ∀ path, (∀ image, ¬ImageAt doc path image) → result.outlineAt? path = doc.outlineAt? path

theorem at?_rewrite (doc : Json) (path : List Step) :
    (rewrite subs doc).at? path = (doc.at? path).map ((Role.along path).rewrite subs) :=
  Role.at?_rewrite .plain doc path

theorem rewritten_rewrite (hdoc : doc.SortedKeys) : Rewritten subs doc (rewrite subs doc) where
  images path image h := by
    rw [at?_rewrite, h.text, along_eq_image_iff.2 h.place]
    exact ⟨_, rfl, substituted_iff.2 rfl⟩
  others path h := by
    unfold Json.outlineAt?
    rw [at?_rewrite, Option.map_map]
    cases hv : doc.at? path with
    | none => rfl
    | some v =>
      refine congrArg some (((Role.along path).outline_rewrite (Json.sortedKeys_at? hdoc hv)).trans ?_)
      by_cases himage : Role.along path = .image
      · rw [if_pos himage]
        cases v with
        | str image => exact absurd ⟨along_eq_image_iff.1 himage, hv⟩ (h image)
        | _ => rfl
      · rw [if_neg himage]

/-- The outlines of a document are settled by what becomes of its images. -/
theorem Rewritten.unique {result result' : Json} (h : Rewritten subs doc result)
    (h' : Rewritten subs doc result') (hs : result.SortedKeys) (hs' : result'.SortedKeys) : result = result' := by
  refine Json.eq_of_outlineAt? hs hs' fun path => ?_
  by_cases himage : ∃ image, ImageAt doc path image
  · obtain ⟨image, himage⟩ := himage
    obtain ⟨new, hnew, hsub⟩ := h.images path image himage
    obtain ⟨new', hnew', hsub'⟩ := h'.images path image himage
    unfold Json.outlineAt?
    rw [hnew, hnew', substituted_iff.1 hsub, substituted_iff.1 hsub']
  · rw [h.others path (not_exists.1 himage), h'.others path (not_exists.1 himage)]

/-- It does not matter whether a container is rewritten before what is in it or after. -/
theorem rewrite_rewriteContainer (hc : c.SortedKeys) :
    rewrite subs (rewriteContainer subs c) = rewriteContainer subs (rewrite subs c) := by
  cases c with
  | obj fields =>
    have hobj : ∀ fields, ∃ fields', rewriteContainer subs (.obj fields) = .obj fields' := fun fields => by
      rcases rewriteContainer_cases subs (.obj fields) with ⟨hsame, -⟩ | ⟨_, _, -, -, hinsert⟩
      · exact ⟨_, hsame⟩
      · exact ⟨_, hinsert⟩
    obtain ⟨first, hfirst⟩ := hobj fields
    obtain ⟨last, hlast⟩ := hobj (rewriteFields subs fields)
    have hsorted : (rewrite subs (rewriteContainer subs (.obj fields))).SortedKeys :=
      sortedKeys_rewrite (sortedKeys_rewriteContainer hc)
    have hsorted' : (rewriteContainer subs (rewrite subs (.obj fields))).SortedKeys :=
      sortedKeys_rewriteContainer (sortedKeys_rewrite hc)
    have hget : ∀ k, (rewrite subs (rewriteContainer subs (.obj fields))).get? k
        = (rewriteContainer subs (rewrite subs (.obj fields))).get? k := fun k => by
      have hstep : ∀ j : Json, (rewrite subs j).get? k
          = (j.get? k).map ((Role.plain.next (.field k)).rewrite subs) :=
        fun j => part?_rewrite_plain subs j (.field k)
      rw [hstep, get?_rewriteContainer, get?_rewriteContainer, hstep, Option.map_map, Option.map_map]
      refine congrArg (Option.map · _) (funext fun v => ?_)
      by_cases hk : k = "image"
      · subst hk
        cases v <;> rfl
      · rw [if_neg hk]
        rfl
    rw [hfirst] at hsorted hget ⊢
    rw [show rewrite subs (.obj fields) = .obj (rewriteFields subs fields) from rfl, hlast] at hsorted' hget ⊢
    exact congrArg Json.obj (hsorted.1.ext hsorted'.1 hget)
  | _ => rfl

/-- Rewriting a document replaces the images of its containers, each by what the first substitution of its name
makes of it, and leaves all else as it is; no other document does. What a container was given is not touched
again on the way through its fields. -/
theorem rewrite_exact (hdoc : doc.SortedKeys) :
    (rewrite subs doc).SortedKeys
      ∧ (∀ result, result.SortedKeys → (Rewritten subs doc result ↔ result = rewrite subs doc))
      ∧ ∀ c, c.SortedKeys → rewrite subs (rewriteContainer subs c) = rewriteContainer subs (rewrite subs c) := by
  have hsorted : (rewrite subs doc).SortedKeys := sortedKeys_rewrite hdoc
  refine ⟨hsorted, fun result hresult => ⟨fun h => ?_, ?_⟩, fun c hc => rewrite_rewriteContainer hc⟩
  · exact h.unique (rewritten_rewrite hdoc) hresult hsorted
  · rintro rfl
    exact rewritten_rewrite hdoc

namespace Nested

/-- The first substitution makes images of the second one's name. -/
def renames : List ImageSubstitution :=
  [⟨"app", some "web", none, none⟩, ⟨"web", some "db", none, none⟩]

def pod (outer inner : String) : Json :=
  .obj [("containers", .arr [.obj [("containers", .arr [.obj [("image", .str inner)]]), ("image", .str outer)]]),
    ("image", .str "app:1")]

theorem pod_sorted : (pod "app:1" "web").SortedKeys := by
  simp only [pod, Json.SortedKeys, Json.SortedItems, Json.SortedValues, Table.Sorted]
  decide

/-- Both containers are rewritten once, and the image that is no container's is left alone. -/
theorem pod_rewritten : (pod "app:1" "web").SortedKeys ∧ rewrite renames (pod "app:1" "web") = pod "web:1" "db"
    ∧ ∀ result, result.SortedKeys → (Rewritten renames (pod "app:1" "web") result ↔ result = pod "web:1" "db") := by
  have hrewritten : rewrite renames (pod "app:1" "web") = pod "web:1" "db" := by decide +kernel
  obtain ⟨-, honly, -⟩ := @rewrite_exact renames _ pod_sorted
  rw [hrewritten] at honly
  exact ⟨pod_sorted, hrewritten, honly⟩

end Nested

end ImageSubstitution

end Addons
