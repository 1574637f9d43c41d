import Addons.Json.Reader
import Addons.Object.Basic
import Addons.Proofs.Json.Subset
import Mathlib.Data.String.Basic

/-!
# Objects in order

The tables of an object that is read from a text are in the order of their keys (`Object.ordered_of_parse?`). An
object in order is applied to itself, and to what it makes of any live object (`Object.isApplied_adopt`).
-/

namespace Addons

namespace Json

theorem sortedItems_iff {items : List Json} : SortedItems items ↔ ∀ j ∈ items, j.SortedKeys := by
  induction items with
  | nil => exact iff_of_true trivial fun j h => nomatch h
  | cons j items ih => rw [SortedItems, ih, List.forall_mem_cons]

theorem sortedValues_iff {fields : List (String × Json)} :
    SortedValues fields ↔ ∀ e ∈ fields, e.2.SortedKeys := by
  induction fields with
  | nil => exact iff_of_true trivial fun e h => nomatch h
  | cons e fields ih => rw [SortedValues, ih, List.forall_mem_cons]

theorem sortedKeys_obj {fields : Fields} :
    (obj fields).SortedKeys ↔ fields.Sorted ∧ ∀ e ∈ fields, e.2.SortedKeys := by
  rw [SortedKeys, sortedValues_iff]

theorem sortedKeys_insert {fields : Fields} {k : String} {v : Json} (h : (obj fields).SortedKeys)
    (hv : v.SortedKeys) : (obj (Table.insert k v fields)).SortedKeys := by
  rw [sortedKeys_obj] at h ⊢
  refine ⟨h.1.insert k v, fun e he => ?_⟩
  rcases Table.mem_insert he with rfl | he
  · exact hv
  · exact h.2 e he

/-! ## Reading -/

namespace Reader

/-- What is read is in order, if that is which was read before of the same value. -/
theorem sorted_of_read (fuel : Nat) :
    (∀ cs j rest, value fuel cs = some (j, rest) → j.SortedKeys)
      ∧ (∀ acc cs j rest, SortedItems acc → items fuel acc cs = some (j, rest) → j.SortedKeys)
      ∧ ∀ acc cs j rest, (obj acc).SortedKeys → members fuel acc cs = some (j, rest) → j.SortedKeys := by
  induction fuel with
  | zero => exact ⟨(fun _ _ _ h => nomatch h), (fun _ _ _ _ _ h => nomatch h), fun _ _ _ _ _ h => nomatch h⟩
  | succ fuel ih =>
    obtain ⟨ihvalue, ihitems, ihmembers⟩ := ih
    refine ⟨fun cs j rest h => ?_, fun acc cs j rest hacc h => ?_, fun acc cs j rest hacc h => ?_⟩
    · unfold value at h
      split at h
      · cases h
        trivial
      · cases h
        trivial
      · cases h
        trivial
      · obtain ⟨_, -, h⟩ := Option.map_eq_some_iff.1 h
        cases h
        trivial
      · split at h
        · cases h
          trivial
        · exact ihitems [] _ _ _ trivial h
      · split at h
        · cases h
          exact ⟨.nil, trivial⟩
        · exact ihmembers [] _ _ _ ⟨.nil, trivial⟩ h
      · obtain ⟨_, -, h⟩ := Option.map_eq_some_iff.1 h
        cases h
        trivial
    · unfold items at h
      obtain ⟨⟨v, after⟩, hv, h⟩ := Option.bind_eq_some_iff.1 h
      have hsorted : SortedItems (v :: acc) := ⟨ihvalue _ _ _ hv, hacc⟩
      dsimp only at h
      split at h
      · exact ihitems _ _ _ _ hsorted h
      · cases h
        rw [SortedKeys, sortedItems_iff]
        exact fun j hj => sortedItems_iff.1 hsorted j (List.mem_reverse.1 hj)
      · cases h
    · unfold members at h
      split at h
      · obtain ⟨⟨k, afterKey⟩, -, h⟩ := Option.bind_eq_some_iff.1 h
        dsimp only at h
        split at h
        · obtain ⟨⟨v, after⟩, hv, h⟩ := Option.bind_eq_some_iff.1 h
          have hsorted := sortedKeys_insert (k := k) hacc (ihvalue _ _ _ hv)
          dsimp only at h
          split at h
          · exact ihmembers _ _ _ _ hsorted h
          · cases h
            exact hsorted
          · cases h
        · cases h
      · cases h

end Reader

/-- A value that is read from a text is in order. -/
theorem sorted_of_parse? {text : String} {j : Json} (h : parse? text = some j) : j.SortedKeys := by
  unfold parse? at h
  dsimp only at h
  split at h
  · rename_i v rest hv
    split at h
    · cases h
      exact (Reader.sorted_of_read _).1 _ _ _ hv
    · cases h
  · cases h

/-- A map of texts has the keys of the object that it is read from. -/
theorem sorted_of_strings? {j : Json} {t : Table String String} (hj : j.SortedKeys) (h : j.strings? = some t) :
    t.Sorted := by
  cases j with
  | obj fields =>
    have hkeys : t.map Prod.fst = fields.map Prod.fst := by
      replace h : fields.mapM (fun e => e.2.str?.map fun s => (e.1, s)) = some t := h
      clear hj
      induction fields generalizing t with
      | nil =>
        cases h
        rfl
      | cons e fields ih =>
        rw [List.mapM_cons] at h
        obtain ⟨e', he', h⟩ := Option.bind_eq_some_iff.1 h
        obtain ⟨t, ht, h⟩ := Option.bind_eq_some_iff.1 h
        obtain ⟨s, -, rfl⟩ := Option.map_eq_some_iff.1 he'
        obtain rfl := Option.some.inj h
        rw [List.map_cons, List.map_cons, ih ht]
    have hsorted : (fields.map Prod.fst).Pairwise (· < ·) := List.pairwise_map.2 hj.1
    rw [← hkeys] at hsorted
    exact List.pairwise_map.1 hsorted
  | _ => cases h

theorem sortedKeys_erase {fields : Fields} (h : (obj fields).SortedKeys) (k : String) :
    (obj (Table.erase fields k)).SortedKeys := by
  rw [sortedKeys_obj] at h ⊢
  exact ⟨h.1.erase k, fun e he => h.2 e (List.mem_filter.1 he).1⟩

theorem sortedKeys_of_find? {fields : Fields} {k : String} {v : Json} (h : (obj fields).SortedKeys)
    (hv : Table.find? fields k = some v) : v.SortedKeys :=
  (sortedKeys_obj.1 h).2 _ (Table.mem_of_find? hv)

end Json

/-- A map of texts that is an optional field is in order. -/
theorem Record.sorted_of_optional? {r : Record} {name : String} {t : Table String String}
    (hr : (Json.obj r.fields).SortedKeys) (h : r.optional? name Json.strings? = some (some t)) : t.Sorted := by
  unfold optional? at h
  split at h
  · cases h
  · rename_i j _ hj
    obtain ⟨t', ht', h⟩ := Option.map_eq_some_iff.1 h
    obtain rfl := Option.some.inj h
    exact Json.sorted_of_strings? (Json.sortedKeys_of_find? hr hj) ht'
  · cases h

theorem Metadata.sorted_of_ofJson? {j : Json} {d : Metadata} (hj : j.SortedKeys) (h : ofJson? j = some d) :
    (∀ t, d.labels = some t → t.Sorted) ∧ ∀ t, d.annotations = some t → t.Sorted := by
  unfold ofJson? at h
  obtain ⟨r, hr, h⟩ := Option.bind_eq_some_iff.1 h
  have hsorted : (Json.obj r.fields).SortedKeys := by
    cases j with
    | obj fields =>
      obtain rfl := Option.some.inj hr
      exact hj
    | _ => cases hr
  obtain ⟨annotations, hannotations, h⟩ := Option.bind_eq_some_iff.1 h
  -- six fields between the two
  iterate 6 obtain ⟨_, -, h⟩ := Option.bind_eq_some_iff.1 h
  obtain ⟨labels, hlabels, h⟩ := Option.bind_eq_some_iff.1 h
  iterate 7 obtain ⟨_, -, h⟩ := Option.bind_eq_some_iff.1 h
  obtain rfl := Option.some.inj h
  refine ⟨?_, ?_⟩
  · rintro t rfl
    exact Record.sorted_of_optional? hsorted hlabels
  · rintro t rfl
    exact Record.sorted_of_optional? hsorted hannotations

theorem isSubsetStrings_of_find? {want live : Option (Table String String)}
    (hwant : ∀ t, want = some t → t.Sorted)
    (h : ∀ t, want = some t → ∀ e v, t.find? e = some v → (live.getD []).find? e = some v) :
    isSubsetStrings want live := by
  unfold isSubsetStrings
  rw [List.all_eq_true]
  intro e he
  cases want with
  | none => cases he
  | some t =>
    exact decide_eq_true (h t rfl e.1 e.2 ((hwant t rfl).mem_iff.1 he))

namespace Object

/-- The tables of an object are in the order of their keys, as a table is that was read or filled entry by
entry. -/
structure Ordered (o : Object) : Prop where
  data : (Json.obj o.data).SortedKeys
  labels : ∀ t, o.metadata.labels = some t → t.Sorted
  annotations : ∀ t, o.metadata.annotations = some t → t.Sorted

theorem sorted_takeType {fields : Json.Fields} (h : (Json.obj fields).SortedKeys) :
    (Json.obj (takeType fields).2).SortedKeys := by
  have hrest := Json.sortedKeys_erase (Json.sortedKeys_erase h "apiVersion") "kind"
  unfold takeType
  split
  · dsimp only
    split <;> exact hrest
  · exact Json.sortedKeys_erase h "apiVersion"
  · exact Json.sortedKeys_erase h "kind"

theorem ordered_of_ofJson? {j : Json} {o : Object} (hj : j.SortedKeys) (h : ofJson? j = some o) :
    o.Ordered := by
  cases j with
  | obj fields =>
    have hdata := sorted_takeType (Json.sortedKeys_erase hj "metadata")
    unfold ofJson? at h
    dsimp only at h
    split at h
    · rename_i d hd
      obtain ⟨metadata, hmetadata, h⟩ := Option.bind_eq_some_iff.1 h
      obtain rfl := Option.some.inj h
      obtain ⟨hlabels, hannotations⟩ := Metadata.sorted_of_ofJson? (Json.sortedKeys_of_find? hj hd) hmetadata
      exact ⟨hdata, hlabels, hannotations⟩
    · obtain rfl := Option.some.inj h
      refine ⟨hdata, ?_, ?_⟩
      · rintro t ⟨⟩
      · rintro t ⟨⟩
  | _ => cases h

/-- An object that is read from a text is in order. -/
theorem ordered_of_parse? {text : String} {j : Json} {o : Object} (hj : Json.parse? text = some j)
    (h : ofDocument j = .ok o) : o.Ordered :=
  ordered_of_ofJson? (Json.sorted_of_parse? hj) (ofDocument_eq_ok_iff.1 h)

/-! ## What is applied -/

variable {desired live : Object}

/-- What has the data and the labels of an object, and its annotations among others, has it applied. -/
theorem isApplied_of (h : desired.Ordered) (hdata : live.data = desired.data)
    (hlabels : live.metadata.labels = desired.metadata.labels)
    (hannotations : ∀ t, desired.metadata.annotations = some t → ∀ e v, t.find? e = some v →
      (live.metadata.annotations.getD []).find? e = some v) : desired.isApplied live := by
  unfold isApplied
  rw [Bool.and_eq_true, Bool.and_eq_true]
  refine ⟨⟨?_, ?_⟩, isSubsetStrings_of_find? h.annotations hannotations⟩
  · rw [Json.isSubsetFields_iff, hdata]
    intro e he
    have he := (List.mem_filter.1 he).1
    exact ⟨e.2, Table.find?_of_mem h.data.1.nodup_keys he,
      Json.isSubset_of_within ((Json.sortedKeys_obj.1 h.data).2 e he) (Json.within_refl e.2)⟩
  · refine isSubsetStrings_of_find? h.labels fun t ht e v hv => ?_
    rw [hlabels, ht]
    exact hv

theorem isApplied_self (h : desired.Ordered) : desired.isApplied desired :=
  isApplied_of h rfl rfl fun t ht e v hv => by rwa [ht]

/-- A desired object is applied once it has replaced a live one. -/
theorem isApplied_adopt (h : desired.Ordered) (live : Object) : desired.isApplied (desired.adopt live) := by
  refine isApplied_of h rfl rfl fun t ht e v hv => ?_
  unfold adopt
  cases live.metadata.annotations with
  | none =>
    dsimp only
    rwa [ht]
  | some kept =>
    dsimp only
    have hkeys := (h.annotations t ht).nodup_keys
    rw [ht, Option.getD_some, Option.getD_some, Table.find?_union, Table.lookup_reverse hkeys]
    rw [show t.lookup e = some v from hv]
    rfl

end Object

end Addons
