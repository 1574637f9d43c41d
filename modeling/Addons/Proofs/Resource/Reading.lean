import Addons.Proofs.Table
import Addons.Resource.Record

/-!
# What is read back

A resource that was written to an object is read back with the name, the namespace and, for a manifest record,
the fingerprints and the tracked objects that it was written with (`ResourceKind.ofObject_eq_ok`,
`Metadata.ofJson?_toJson`, `RecordSpec.ofJson?_toJson`). Nothing is said of the other fields, of which some are
not written as they are: times are in whole seconds.
-/

namespace Addons

/-! ## Fields -/

section Fields

variable {fields : List (String × Option Json)}

/-- The fields that are present. -/
theorem lookup_filterMap (fields : List (String × Option Json)) (h : (fields.map Prod.fst).Nodup)
    (k : String) :
    (fields.filterMap fun e => e.2.map fun v => (e.1, v)).lookup k = (fields.lookup k).join := by
  induction fields with
  | nil => rfl
  | cons e es ih =>
    obtain ⟨l, v⟩ := e
    rw [List.map_cons, List.nodup_cons] at h
    rw [List.lookup_cons]
    cases v with
    | none =>
      rw [List.filterMap_cons_none rfl, ih h.2]
      by_cases hk : k = l
      · have hnone : es.lookup k = none := by
          rw [List.lookup_eq_none_iff]
          intro f hf
          refine bne_iff_ne.2 fun hkf => h.1 ?_
          show l ∈ es.map Prod.fst
          rw [← hk, hkf]
          exact List.mem_map_of_mem hf
        rw [hnone, hk, beq_self_eq_true]
        rfl
      · rw [beq_eq_false_iff_ne.2 hk]
    | some v =>
      show List.lookup k ((l, v) :: _) = _
      rw [List.lookup_cons, ih h.2]
      cases k == l <;> rfl

theorem nodup_present (h : (fields.map Prod.fst).Nodup) :
    ((fields.filterMap fun e => e.2.map fun v => (e.1, v)).map Prod.fst).Nodup := by
  refine List.Nodup.sublist ?_ h
  induction fields with
  | nil => exact List.Sublist.slnil
  | cons e es ih =>
    obtain ⟨l, v⟩ := e
    rw [List.map_cons, List.nodup_cons] at h
    cases v with
    | none => exact (ih h.2).cons l
    | some v => exact (ih h.2).cons_cons l

/-- What is found in an object made from fields, of which some are absent. -/
theorem find?_present (h : (fields.map Prod.fst).Nodup) (k : String) :
    Table.find? (Table.ofList (fields.filterMap fun e => e.2.map fun v => (e.1, v))) k
      = (fields.lookup k).join := by
  rw [Table.find?_ofList_of_nodup (nodup_present h), lookup_filterMap fields h]

/-- A structure that was written as fields is read from these fields. -/
theorem field?_of_read? {names : List String} {r : Record}
    (hr : Record.read? names (Json.ofFields? fields) = some r) (h : (fields.map Prod.fst).Nodup)
    (k : String) : r.field? k = (fields.lookup k).join := by
  obtain rfl := Option.some.inj hr
  exact find?_present h k

theorem field?_of_named? {r : Record} (hr : Record.named? (Json.ofFields? fields) = some r)
    (h : (fields.map Prod.fst).Nodup) (k : String) : r.field? k = (fields.lookup k).join := by
  obtain rfl := Option.some.inj hr
  exact find?_present h k

end Fields

namespace Record

variable {r : Record} {k s : String}

theorem default?_str (h : r.field? k = some (.str s)) (d : String) : r.default? k Json.str? d = some s := by
  unfold default?
  rw [h]
  rfl

theorem required?_str (h : r.field? k = some (.str s)) : r.required? k Json.str? = some s := by
  unfold required?
  rw [h]
  rfl

theorem optional?_str {s : Option String} (h : r.field? k = s.map Json.str) :
    r.optional? k Json.str? = some s := by
  unfold optional?
  rw [h]
  cases s <;> rfl

theorem optional?_congr {α : Type} {r' : Record} {read : Json → Option α} (h : r.field? k = r'.field? k) :
    r.optional? k read = r'.optional? k read := by
  unfold optional?
  rw [h]

end Record

/-! ## Lists -/

section Lists

variable {α : Type} {read : Json → Option α} {write : α → Json}

/-- A list is read back item by item. -/
theorem Json.array?_mapped {f : α → α} {l : List α} (h : ∀ a ∈ l, read (write a) = some (f a)) :
    Json.array? read (.arr (l.map write)) = some (l.map f) := by
  show (l.map write).mapM read = some (l.map f)
  induction l with
  | nil => rfl
  | cons a l ih =>
    rw [List.map_cons, List.mapM_cons, h a List.mem_cons_self, ih fun b hb => h b (List.mem_cons_of_mem a hb)]
    rfl

theorem Json.array?_map (h : ∀ a, read (write a) = some a) (l : List α) :
    Json.array? read (.arr (l.map write)) = some l := by
  have hread := Json.array?_mapped (f := id) fun a (_ : a ∈ l) => h a
  rwa [List.map_id] at hread

end Lists

/-! ## Records and their metadata -/

theorem Metadata.ofJson?_toJson {m m' : Metadata} (h : Metadata.ofJson? m.toJson = some m') :
    m'.name = m.name ∧ m'.ns = m.ns ∧ m'.resourceVersion = m.resourceVersion := by
  unfold Metadata.ofJson? Metadata.toJson at h
  obtain ⟨r, hr, h⟩ := Option.bind_eq_some_iff.1 h
  -- nine fields before the name, one between the namespace and the version, and two after it
  iterate 9 obtain ⟨_, -, h⟩ := Option.bind_eq_some_iff.1 h
  obtain ⟨name, hname, h⟩ := Option.bind_eq_some_iff.1 h
  obtain ⟨ns, hns, h⟩ := Option.bind_eq_some_iff.1 h
  obtain ⟨_, -, h⟩ := Option.bind_eq_some_iff.1 h
  obtain ⟨version, hversion, h⟩ := Option.bind_eq_some_iff.1 h
  iterate 2 obtain ⟨_, -, h⟩ := Option.bind_eq_some_iff.1 h
  obtain rfl := Option.some.inj h
  have hfield := field?_of_named? hr (by simp)
  have hn : r.optional? "name" Json.str? = some m.name := Record.optional?_str (hfield "name")
  have hs : r.optional? "namespace" Json.str? = some m.ns := Record.optional?_str (hfield "namespace")
  have hv : r.optional? "resourceVersion" Json.str? = some m.resourceVersion :=
    Record.optional?_str (hfield "resourceVersion")
  exact ⟨Option.some.inj (hname.symm.trans hn), Option.some.inj (hns.symm.trans hs),
    Option.some.inj (hversion.symm.trans hv)⟩

theorem Tracked.ofJson?_toJson (t : Tracked) : Tracked.ofJson? t.toJson = some t := by
  have hread : Record.read? Tracked.fieldNames t.toJson = some ⟨_, false⟩ := rfl
  have hfield := field?_of_read? hread (show Tracked.fieldNames.Nodup by decide)
  unfold Tracked.ofJson? Tracked.toJson
  simp only [Option.bind_eq_bind, Option.bind_eq_some_iff]
  exact ⟨_, rfl, _, Record.required?_str (hfield "apiVersion"), _, Record.required?_str (hfield "kind"), _,
    Record.required?_str (hfield "name"), _, Record.optional?_str (hfield "namespace"), _,
    Record.default?_str (hfield "group") "", rfl⟩

theorem RecordSpec.ofJson?_toJson {s s' : RecordSpec} (h : RecordSpec.ofJson? s.toJson = some s') :
    s'.checksum = s.checksum ∧ s'.newChecksum = s.newChecksum ∧ s'.objects = s.objects := by
  unfold RecordSpec.ofJson? RecordSpec.toJson at h
  simp only [Option.bind_eq_bind, Option.bind_eq_some_iff] at h
  obtain ⟨r, hr, _, -, checksum, hchecksum, pending, hpending, objects, hobjects, _, -, _, -, _, -, _, -,
    h⟩ := h
  obtain rfl := Option.some.inj h
  have hfield := field?_of_read? hr (show RecordSpec.fieldNames.Nodup by decide)
  have hc : r.default? "checksum" Json.str? "" = some s.checksum :=
    Record.default?_str (hfield "checksum") ""
  have hn : r.default? "newChecksum" Json.str? "" = some s.newChecksum :=
    Record.default?_str (hfield "newChecksum") ""
  have ho : r.default? "objects" (Json.array? Tracked.ofJson?) [] = some s.objects := by
    unfold Record.default?
    rw [hfield "objects"]
    exact Json.array?_map Tracked.ofJson?_toJson s.objects
  exact ⟨Option.some.inj (hchecksum.symm.trans hc), Option.some.inj (hpending.symm.trans hn),
    Option.some.inj (hobjects.symm.trans ho)⟩

/-! ## Resources -/

namespace Resource

variable {σ τ : Type} {r : Resource σ τ} {ns name : String}

theorem namespaceOf_eq_ok (h : r.metadata.ns = some ns) (kind : String) : r.namespaceOf kind = .ok ns := by
  unfold namespaceOf
  rw [h]

theorem name_eq (h : r.metadata.name = some name) : r.name = name := by
  unfold Resource.name
  rw [h]
  rfl

end Resource

namespace ResourceKind

variable {σ τ : Type} {k : ResourceKind σ τ} {o : Object} {r : Resource σ τ}

/-- A resource is read from the metadata and the specification of its object. -/
theorem ofObject_eq_ok (h : k.ofObject o = .ok r) :
    Metadata.ofJson? o.metadata.toJson = some r.metadata
      ∧ ∃ j, Table.find? o.data "spec" = some j ∧ k.readSpec j = some r.spec := by
  unfold ofObject at h
  cases hr : k.ofJson? o.toJson with
  | none =>
    rw [hr] at h
    cases h
  | some r' =>
    rw [hr] at h
    obtain rfl := Except.ok.inj h
    unfold ofJson? at hr
    simp only [Option.bind_eq_bind, Option.bind_eq_some_iff] at hr
    obtain ⟨f, hf, metadata, hmetadata, spec, hspec, _, -, hr⟩ := hr
    obtain rfl := Option.some.inj hr
    obtain rfl := Option.some.inj hf
    refine ⟨?_, ?_⟩
    · unfold Record.required? Record.field? at hmetadata
      rw [Table.find?_insert_self] at hmetadata
      exact hmetadata
    · unfold Record.required? Record.field? at hspec
      rw [Table.find?_insert_ne (by decide)] at hspec
      cases ht : o.type with
      | none =>
        rw [ht] at hspec
        exact Option.bind_eq_some_iff.1 hspec
      | some t =>
        rw [ht] at hspec
        dsimp only at hspec
        rw [Table.find?_insert_ne (by decide), Table.find?_insert_ne (by decide)] at hspec
        exact Option.bind_eq_some_iff.1 hspec

theorem key_toObject {name : String} (hn : r.metadata.name = some name) :
    (k.toObject r).key = .ok ⟨k.type, r.metadata.ns, name⟩ := by
  unfold Object.key toObject
  dsimp only [Metadata.truncateTimes]
  rw [hn]

theorem find?_toObject (k : ResourceKind σ τ) (r : Resource σ τ) :
    Table.find? (k.toObject r).data "spec" = some (k.writeSpec r.spec) := by
  show Table.find? (Table.ofList _) "spec" = _
  rw [Table.find?_ofList_of_nodup (by cases r.status <;> simp)]
  exact List.lookup_cons_self

end ResourceKind

end Addons
