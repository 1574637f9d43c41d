import Addons.Manifest.Image
import Addons.Proofs.Text
import Mathlib.Data.List.DropRight

/-!
# Parts of an image reference

A reference comes apart into a name, a tag and a digest in exactly one way (`ImageRef.split_eq_iff`): no part has a
character at which a part after it would begin (`ImageRef.Canonical`), and joined the parts are the reference again.
A substitution edits the parts, and what it makes of them is mostly canonical again, so that it is read back as
it was put together (`ImageSubstitution.rewritten_lossless`).
-/

namespace Addons

namespace ImageRef

/-- What follows the last `/` of a name; all of it if there is none. -/
def lastSegment (name : List Char) : List Char := name.rtakeWhile (· ≠ '/')

/-- Parts that are read back from the reference that they make. -/
structure Canonical (r : ImageRef) : Prop where
  name : '@' ∉ r.name
  tag : ∀ tag ∈ r.tag, '/' ∉ tag ∧ ':' ∉ tag ∧ '@' ∉ tag
  /-- The end of a name without a tag could be taken for one. -/
  untagged : r.tag = none → ':' ∉ lastSegment r.name

variable {r : ImageRef} {name path rest last tag image : List Char}

theorem lastSegment_of_not_mem (h : '/' ∉ name) : lastSegment name = name := by
  refine List.rtakeWhile_eq_self_iff.2 fun c hc => ?_
  simpa using ne_of_mem_of_not_mem hc h

theorem lastSegment_append (path : List Char) (h : '/' ∉ last) : lastSegment (path ++ '/' :: last) = last := by
  have hlast : ∀ c ∈ last.reverse, decide (c ≠ '/') = true := fun c hc => by
    simpa using ne_of_mem_of_not_mem (List.mem_reverse.1 hc) h
  unfold lastSegment List.rtakeWhile
  rw [List.reverse_append, List.reverse_cons, List.append_assoc, List.takeWhile_append_of_pos hlast]
  simp

/-- A name ends in its last segment, which is all of it or follows a `/`. -/
theorem segment_cases (name : List Char) :
    ('/' ∉ name ∧ lastSegment name = name)
      ∨ ∃ path last, '/' ∉ last ∧ name = path ++ '/' :: last ∧ lastSegment name = last := by
  cases h : Text.splitLast? '/' name with
  | none =>
    have hnone := Text.splitLast?_eq_none_iff.1 h
    exact .inl ⟨hnone, lastSegment_of_not_mem hnone⟩
  | some parts =>
    obtain ⟨path, last⟩ := parts
    obtain ⟨rfl, hlast⟩ := Text.splitLast?_eq_some h
    exact .inr ⟨path, last, hlast, rfl, lastSegment_append path hlast⟩

/-! ## Splitting -/

/-- The digest is what follows the first `@`. -/
theorem split_digest (h : '@' ∉ rest) (digest : List Char) :
    split (rest ++ '@' :: digest) = { split rest with digest := some digest } := by
  simp only [split, Text.splitFirst?_append h, Text.splitFirst?_eq_none_iff.2 h]
  split <;> rfl

/-- Where there is no `@`, the last `:` of the last segment is in front of the tag. -/
theorem split_tag (hname : '@' ∉ name) (htag : '/' ∉ tag ∧ ':' ∉ tag ∧ '@' ∉ tag) :
    split (name ++ ':' :: tag) = ⟨name, some tag, none⟩ := by
  obtain ⟨hslash, hcolon, hat⟩ := htag
  have hnone : '@' ∉ name ++ ':' :: tag := by simp [hname, hat]
  obtain ⟨hno, -⟩ | ⟨path, last, hlast, rfl, -⟩ := segment_cases name
  · have hpath : Text.splitLast? '/' (name ++ ':' :: tag) = none :=
      Text.splitLast?_eq_none_iff.2 (by simp [hno, hslash])
    simp only [split, Text.splitFirst?_eq_none_iff.2 hnone, hpath, Text.splitLast?_append name hcolon,
      List.nil_append]
  · have hpath : Text.splitLast? '/' (path ++ '/' :: last ++ ':' :: tag) = some (path, last ++ ':' :: tag) := by
      rw [List.append_assoc]
      exact Text.splitLast?_append path (by simp [hlast, hslash])
    simp only [split, Text.splitFirst?_eq_none_iff.2 hnone, hpath, Text.splitLast?_append last hcolon]
    simp

/-- Where there is no `@` and no `:` in the last segment, there is nothing but a name. -/
theorem split_name (hname : '@' ∉ name) (hsegment : ':' ∉ lastSegment name) : split name = ⟨name, none, none⟩ := by
  obtain ⟨hno, hall⟩ | ⟨path, last, hlast, rfl, hall⟩ := segment_cases name
  · rw [hall] at hsegment
    simp only [split, Text.splitFirst?_eq_none_iff.2 hname, Text.splitLast?_eq_none_iff.2 hno,
      Text.splitLast?_eq_none_iff.2 hsegment]
  · rw [hall] at hsegment
    simp only [split, Text.splitFirst?_eq_none_iff.2 hname, Text.splitLast?_append path hlast,
      Text.splitLast?_eq_none_iff.2 hsegment]

/-- Canonical parts are read back. -/
theorem split_join (h : r.Canonical) : split r.join = r := by
  obtain ⟨name, tag, digest⟩ := r
  obtain ⟨hname, htag, huntagged⟩ := h
  have hrest : '@' ∉ join ⟨name, tag, none⟩ ∧ split (join ⟨name, tag, none⟩) = ⟨name, tag, none⟩ := by
    cases tag with
    | none => simpa [join, hname] using split_name hname (huntagged rfl)
    | some tag =>
      obtain ⟨hslash, hcolon, hat⟩ := htag tag rfl
      simpa [join, hname, hat] using split_tag hname ⟨hslash, hcolon, hat⟩
  cases digest with
  | none => exact hrest.2
  | some digest =>
    have hjoin : join ⟨name, tag, some digest⟩ = join ⟨name, tag, none⟩ ++ '@' :: digest := by simp [join]
    rw [hjoin, split_digest hrest.1, hrest.2]

/-- What a reference without a digest comes apart into. -/
theorem exists_of_undigested (h : '@' ∉ rest) :
    ∃ r : ImageRef, r.Canonical ∧ r.digest = none ∧ r.join = rest := by
  by_cases hsegment : ':' ∈ lastSegment rest
  · obtain ⟨⟨before, tag⟩, hsplit⟩ : ∃ p, Text.splitLast? ':' (lastSegment rest) = some p := by
      refine Option.ne_none_iff_exists'.1 fun hnone => ?_
      exact Text.splitLast?_eq_none_iff.1 hnone hsegment
    obtain ⟨hlast, hcolon⟩ := Text.splitLast?_eq_some hsplit
    have hrest : rest = rest.rdropWhile (· ≠ '/') ++ before ++ ':' :: tag := by
      rw [List.append_assoc, ← hlast]
      exact (List.rdropWhile_append_rtakeWhile).symm
    have hat : '@' ∉ rest.rdropWhile (· ≠ '/') ++ before ∧ '@' ∉ tag := by
      rw [hrest] at h
      simp only [List.mem_append, List.mem_cons, not_or] at h ⊢
      exact ⟨h.1, h.2.2⟩
    have hslash : '/' ∉ tag := fun hmem => by
      have hmem' : '/' ∈ lastSegment rest := by simp [hlast, hmem]
      simpa using List.mem_rtakeWhile_imp hmem'
    refine ⟨⟨_, some tag, none⟩, ⟨hat.1, ?_, fun hnone => nomatch hnone⟩, rfl, ?_⟩
    · rintro _ ⟨rfl⟩
      exact ⟨hslash, hcolon, hat.2⟩
    · simp only [join, List.append_nil]
      exact hrest.symm
  · exact ⟨⟨rest, none, none⟩, ⟨h, (fun _ hnone => nomatch hnone), fun _ => hsegment⟩, rfl, by simp [join]⟩

/-- Every reference is made of canonical parts. -/
theorem exists_canonical (image : List Char) : ∃ r : ImageRef, r.Canonical ∧ r.join = image := by
  cases h : Text.splitFirst? '@' image with
  | none =>
    obtain ⟨r, hr, -, hjoin⟩ := exists_of_undigested (Text.splitFirst?_eq_none_iff.1 h)
    exact ⟨r, hr, hjoin⟩
  | some parts =>
    obtain ⟨rest, digest⟩ := parts
    obtain ⟨rfl, hrest⟩ := Text.splitFirst?_eq_some h
    obtain ⟨r, hr, hnone, rfl⟩ := exists_of_undigested hrest
    refine ⟨{ r with digest := some digest }, ⟨hr.name, hr.tag, hr.untagged⟩, ?_⟩
    simp [join, hnone]

/-- A reference comes apart in one way only. -/
theorem split_eq_iff : split image = r ↔ r.Canonical ∧ r.join = image := by
  constructor
  · rintro rfl
    obtain ⟨r, hr, rfl⟩ := exists_canonical image
    rw [split_join hr]
    exact ⟨hr, rfl⟩
  · rintro ⟨hr, rfl⟩
    exact split_join hr

end ImageRef

namespace ImageSubstitution

variable {sub : ImageSubstitution} {r : ImageRef} {image : String}

/-- What a substitution makes of the parts of a reference that has its name. -/
def edit (sub : ImageSubstitution) (r : ImageRef) : ImageRef :=
  let name := (sub.newName.getD sub.name).toList
  match sub.digest, sub.newTag with
  | some digest, _ => ⟨name, none, some digest.toList⟩
  | none, some tag => ⟨name, some tag.toList, none⟩
  | none, none => { r with name }

theorem rewritten?_of_name (hr : ImageRef.split image.toList = r) (hname : r.name = sub.name.toList) :
    sub.rewritten? image = some (String.ofList (sub.edit r).join) := by
  unfold rewritten?
  rw [hr]
  exact if_pos hname

theorem edit_edit (sub : ImageSubstitution) (r : ImageRef) : sub.edit (sub.edit r) = sub.edit r := by
  unfold edit
  cases sub.digest with
  | some digest => rfl
  | none => cases sub.newTag <;> rfl

theorem name_edit (hnew : sub.newName = none) : (sub.edit r).name = sub.name.toList := by
  unfold edit
  rw [hnew]
  cases sub.digest with
  | some digest => rfl
  | none => cases sub.newTag <;> rfl

/-- A substitution that keeps the name leaves canonical parts. -/
theorem canonical_edit (hr : r.Canonical) (hname : r.name = sub.name.toList) (hnew : sub.newName = none)
    (hsegment : ':' ∉ ImageRef.lastSegment r.name)
    (htag : ∀ tag ∈ sub.newTag, '/' ∉ tag.toList ∧ ':' ∉ tag.toList ∧ '@' ∉ tag.toList) :
    (sub.edit r).Canonical := by
  have hkept : ((sub.newName.getD sub.name).toList : List Char) = r.name := by rw [hnew, hname]; rfl
  unfold edit
  rw [hkept]
  cases sub.digest with
  | some digest => exact ⟨hr.name, (fun _ hnone => nomatch hnone), fun _ => hsegment⟩
  | none =>
    cases hset : sub.newTag with
    | none => exact hr
    | some tag =>
      refine ⟨hr.name, ?_, fun hnone => nomatch hnone⟩
      rintro _ ⟨rfl⟩
      exact htag tag hset

/-- A reference comes apart without loss, and what a substitution of its name makes of it depends on the parts
alone. A new name is put in front of the old tag and digest, and is read back with them if it leaves the parts
canonical. A substitution that sets nothing leaves the reference as it is. One that keeps the name leaves what it
has rewritten once as it is. -/
theorem rewritten_lossless (sub : ImageSubstitution) (image : String) :
    (∀ r, ImageRef.split image.toList = r ↔ r.Canonical ∧ r.join = image.toList)
      ∧ ∀ r, ImageRef.split image.toList = r → r.name = sub.name.toList →
        (∀ name, sub.newName = some name → sub.newTag = none → sub.digest = none →
          ∃ new, sub.rewritten? image = some new ∧ new.toList = ImageRef.join { r with name := name.toList }
            ∧ (ImageRef.split new.toList = { r with name := name.toList }
              ↔ ImageRef.Canonical { r with name := name.toList }))
        ∧ (sub.newName = none → sub.newTag = none → sub.digest = none → sub.rewritten? image = some image)
        ∧ (sub.newName = none → ':' ∉ ImageRef.lastSegment r.name →
          (∀ tag ∈ sub.newTag, '/' ∉ tag.toList ∧ ':' ∉ tag.toList ∧ '@' ∉ tag.toList) →
          ∃ new, sub.rewritten? image = some new ∧ sub.rewritten? new = some new) := by
  refine ⟨fun r => ImageRef.split_eq_iff, fun r hr hname => ?_⟩
  have hrewritten := rewritten?_of_name hr hname
  obtain ⟨hcanonical, hjoin⟩ := ImageRef.split_eq_iff.1 hr
  refine ⟨fun name hnew htag hdigest => ?_, fun hnew htag hdigest => ?_, fun hnew hsegment htag => ?_⟩
  · have hedit : sub.edit r = { r with name := name.toList } := by simp [edit, hnew, htag, hdigest]
    refine ⟨_, hrewritten, by simp [hedit], ?_⟩
    rw [String.toList_ofList, hedit, ImageRef.split_eq_iff]
    exact and_iff_left rfl
  · have hedit : sub.edit r = r := by simp [edit, hnew, htag, hdigest, ← hname]
    rw [hrewritten, hedit, hjoin, String.ofList_toList]
  · have hcanonical' : (sub.edit r).Canonical := canonical_edit hcanonical hname hnew hsegment htag
    have hagain : ImageRef.split (String.ofList (sub.edit r).join).toList = sub.edit r := by
      rw [String.toList_ofList]
      exact ImageRef.split_join hcanonical'
    have hname' : (sub.edit r).name = sub.name.toList := name_edit hnew
    refine ⟨_, hrewritten, ?_⟩
    rw [rewritten?_of_name hagain hname', edit_edit]

namespace Mirrored

/-- A registry with a port, a tag and a digest. -/
def pinned : String := "localhost:5000/app:1.0@sha256:ab"

def parts : ImageRef := ⟨"localhost:5000/app".toList, some "1.0".toList, some "sha256:ab".toList⟩

def renames : ImageSubstitution := ⟨"localhost:5000/app", some "mirror:80/app", none, none⟩

def unset : ImageSubstitution := ⟨"localhost:5000/app", none, none, none⟩

def tagging : ImageSubstitution := ⟨"localhost:5000/app", none, some "2.0", none⟩

theorem split_pinned : ImageRef.split pinned.toList = parts := by decide

/-- The port is no tag: a new name is followed by the old tag and digest, and a new tag takes their place once. -/
theorem image_renamed_and_tagged :
    ImageRef.split pinned.toList = parts ∧ parts.join = pinned.toList
      ∧ renames.rewritten? pinned = some "mirror:80/app:1.0@sha256:ab"
      ∧ ImageRef.split "mirror:80/app:1.0@sha256:ab".toList = { parts with name := "mirror:80/app".toList }
      ∧ unset.rewritten? pinned = some pinned
      ∧ tagging.rewritten? pinned = some "localhost:5000/app:2.0"
      ∧ tagging.rewritten? "localhost:5000/app:2.0" = some "localhost:5000/app:2.0" := by
  obtain ⟨hcanonical, hjoin⟩ := ((rewritten_lossless unset pinned).1 parts).1 split_pinned
  obtain ⟨-, hunset, -⟩ := (rewritten_lossless unset pinned).2 parts split_pinned rfl
  obtain ⟨hrename, -, -⟩ := (rewritten_lossless renames pinned).2 parts split_pinned rfl
  obtain ⟨-, -, htag⟩ := (rewritten_lossless tagging pinned).2 parts split_pinned rfl
  obtain ⟨renamed, hrenamed, htext, hread⟩ := hrename "mirror:80/app" rfl rfl rfl
  obtain rfl : renamed = "mirror:80/app:1.0@sha256:ab" := String.toList_inj.1 (htext.trans (by decide))
  obtain ⟨tagged, htagged, hagain⟩ := htag rfl (by decide) (by rintro _ ⟨rfl⟩; decide)
  obtain rfl : tagged = "localhost:5000/app:2.0" := Option.some.inj (htagged.symm.trans (by decide))
  exact ⟨split_pinned, hjoin, hrenamed, hread.2 ⟨by decide, hcanonical.tag, fun hnone => nomatch hnone⟩,
    hunset rfl rfl rfl, htagged, hagain⟩

end Mirrored

end ImageSubstitution

end Addons
