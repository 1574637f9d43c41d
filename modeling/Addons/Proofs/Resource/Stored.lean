import Addons.Proofs.Resource.Lasting

/-!
# Stored resources

A resource that is written to an object is read back from it, the times of its metadata cut to whole seconds
(`ResourceKind.ofObject_toObject`), and so are the specifications and statuses of all kinds, as they are
(`state_survives`). Reading takes only what can be written again.
-/

namespace Addons

variable {m : Metadata} {j : Json}

/-! ## Metadata -/

theorem Json.strings?_ofStrings (t : Table String String) : Json.strings? (Json.ofStrings t) = some t := by
  show (t.map fun e => (e.1, Json.str e.2)).mapM (fun e => e.2.str?.map fun s => (e.1, s)) = some t
  induction t with
  | nil => rfl
  | cons e t ih =>
    rw [List.map_cons, List.mapM_cons, ih]
    rfl

/-- A time is read back in whole seconds. -/
theorem Json.instant?_ofInstant {t : Instant} (h : t.Regular) :
    Json.instant? (Json.ofInstant t) = some t.truncate := by
  have htext : (Json.ofInstant t).str? = some t.textSeconds := rfl
  rw [Json.instant?, htext, Option.bind_some, Instant.parse?_textSeconds h.inCalendar h.leap]

section Fields

variable {r : Record} {k : String}

theorem Record.optional?_bool {b : Option Bool} (h : r.field? k = b.map Json.bool) :
    r.optional? k Json.bool? = some b :=
  Lasting.bool.optional (fun _ _ => trivial) nofun h

theorem Record.optional?_time {t : Option Instant} (ht : ∀ a ∈ t, a.Regular)
    (h : r.field? k = t.map Json.ofInstant) : r.optional? k Json.instant? = some (t.map Instant.truncate) :=
  Record.optional?_mapped (fun a ha => Json.instant?_ofInstant (ht a ha)) (fun _ _ => nofun) h

theorem Record.optional?_any {j : Option Json} (hj : ∀ a ∈ j, a ≠ .null) (h : r.field? k = j) :
    r.optional? k some = some j := by
  have hread := Record.optional?_mapped (f := id) (o := j) (fun _ _ => rfl) hj (h.trans Option.map_id'.symm)
  rwa [Option.map_id, id] at hread

theorem Record.optional?_strings {t : Option (Table String String)} (h : r.field? k = t.map Json.ofStrings) :
    r.optional? k Json.strings? = some t :=
  (Lasting.of_forall Json.strings?_ofStrings).optional (fun _ _ => trivial) nofun h

end Fields

theorem OwnerReference.ofJson?_toJson (o : OwnerReference) : OwnerReference.ofJson? o.toJson = some o := by
  have hfield := field?_of_named? (r := ⟨_, false⟩) (show Record.named? o.toJson = _ from rfl) (by simp)
  have hstr {r : Record} {k s : String} (h : r.field? k = some (Json.str s)) :
      r.optional? k Json.str? = some (some s) := Record.optional?_str (s := some s) h
  unfold OwnerReference.ofJson? OwnerReference.toJson
  simp only [Option.bind_eq_bind, Option.bind_eq_some_iff]
  exact ⟨_, rfl, _, hstr (hfield "apiVersion"), _, Record.optional?_bool (hfield "blockOwnerDeletion"), _,
    Record.optional?_bool (hfield "controller"), _, hstr (hfield "kind"), _, hstr (hfield "name"), _,
    hstr (hfield "uid"), rfl⟩

/-- The time can be written, and the fields are not null. -/
structure ManagedFields.Storable (e : ManagedFields) : Prop where
  time : ∀ t ∈ e.time, t.Regular
  fields : ∀ f ∈ e.fields, f ≠ .null

def ManagedFields.truncateTime (e : ManagedFields) : ManagedFields := { e with time := e.time.map Instant.truncate }

theorem ManagedFields.ofJson?_toJson {e : ManagedFields} (h : e.Storable) :
    ManagedFields.ofJson? e.toJson = some e.truncateTime := by
  have hfield := field?_of_named? (r := ⟨_, false⟩) (show Record.named? e.toJson = _ from rfl) (by simp)
  unfold ManagedFields.ofJson? ManagedFields.toJson
  simp only [Option.bind_eq_bind, Option.bind_eq_some_iff]
  exact ⟨_, rfl, _, Record.optional?_str (hfield "apiVersion"), _, Record.optional?_str (hfield "fieldsType"), _,
    Record.optional?_any h.fields (hfield "fieldsV1"), _, Record.optional?_str (hfield "manager"), _,
    Record.optional?_str (hfield "operation"), _,
    Record.optional?_str (hfield "subresource"), _, Record.optional?_time h.time (hfield "time"), rfl⟩

theorem ManagedFields.storable_of_ofJson? {e : ManagedFields} (h : ManagedFields.ofJson? j = some e) :
    e.Storable := by
  unfold ManagedFields.ofJson? at h
  simp only [Option.bind_eq_bind, Option.bind_eq_some_iff] at h
  obtain ⟨r, -, _, -, _, -, fields, hfields, _, -, _, -, _, -, time, htime, h⟩ := h
  obtain rfl := Option.some.inj h
  exact ⟨Lasting.instant.fit_of_optional htime,
    Record.forall_of_optional? (fun hnull hf => Option.some.inj hf ▸ hnull) hfields⟩

/-- Times can be written, and numbers fit 64 bits. -/
structure Metadata.Storable (m : Metadata) : Prop where
  creation : ∀ t ∈ m.creationTimestamp, t.Regular
  gracePeriod : ∀ i ∈ m.deletionGracePeriodSeconds, -2 ^ 63 ≤ i ∧ i < 2 ^ 63
  deletion : ∀ t ∈ m.deletionTimestamp, t.Regular
  generation : ∀ i ∈ m.generation, -2 ^ 63 ≤ i ∧ i < 2 ^ 63
  managed : ∀ l ∈ m.managedFields, ∀ e ∈ l, e.Storable

theorem Metadata.ofJson?_toJson_eq (h : m.Storable) : Metadata.ofJson? m.toJson = some m.truncateTimes := by
  have hfield := field?_of_named? (r := ⟨_, false⟩) (show Record.named? m.toJson = _ from rfl) (by simp)
  have hmanaged := Record.optional?_mapped (f := fun l => l.map ManagedFields.truncateTime)
    (fun l hl => Json.array?_mapped fun e he => ManagedFields.ofJson?_toJson (h.managed l hl e he))
    (fun _ _ => nofun) (hfield "managedFields")
  have howners := (Lasting.of_forall OwnerReference.ofJson?_toJson).array.optional (fun _ _ _ _ => trivial) nofun
    (hfield "ownerReferences")
  unfold Metadata.ofJson? Metadata.toJson
  refine (Instant.bind_of_eq_some rfl).trans ?_
  refine (Instant.bind_of_eq_some (Record.optional?_strings (hfield "annotations"))).trans ?_
  refine (Instant.bind_of_eq_some (Record.optional?_time h.creation (hfield "creationTimestamp"))).trans ?_
  refine (Instant.bind_of_eq_some
    (Lasting.int64.optional h.gracePeriod nofun (hfield "deletionGracePeriodSeconds"))).trans ?_
  refine (Instant.bind_of_eq_some (Record.optional?_time h.deletion (hfield "deletionTimestamp"))).trans ?_
  refine (Instant.bind_of_eq_some
    (Lasting.str.array.optional (fun _ _ _ _ => trivial) nofun (hfield "finalizers"))).trans ?_
  refine (Instant.bind_of_eq_some (Record.optional?_str (hfield "generateName"))).trans ?_
  refine (Instant.bind_of_eq_some (Lasting.int64.optional h.generation nofun (hfield "generation"))).trans ?_
  refine (Instant.bind_of_eq_some (Record.optional?_strings (hfield "labels"))).trans ?_
  refine (Instant.bind_of_eq_some hmanaged).trans ?_
  refine (Instant.bind_of_eq_some (Record.optional?_str (hfield "name"))).trans ?_
  refine (Instant.bind_of_eq_some (Record.optional?_str (hfield "namespace"))).trans ?_
  refine (Instant.bind_of_eq_some howners).trans ?_
  refine (Instant.bind_of_eq_some (Record.optional?_str (hfield "resourceVersion"))).trans ?_
  refine (Instant.bind_of_eq_some (Record.optional?_str (hfield "selfLink"))).trans ?_
  exact Instant.bind_of_eq_some (Record.optional?_str (hfield "uid"))

theorem Metadata.storable_of_ofJson? (h : Metadata.ofJson? j = some m) : m.Storable := by
  unfold Metadata.ofJson? at h
  obtain ⟨r, -, h⟩ := Option.bind_eq_some_iff.1 h
  obtain ⟨_, -, h⟩ := Option.bind_eq_some_iff.1 h
  obtain ⟨creation, hcreation, h⟩ := Option.bind_eq_some_iff.1 h
  obtain ⟨grace, hgrace, h⟩ := Option.bind_eq_some_iff.1 h
  obtain ⟨deletion, hdeletion, h⟩ := Option.bind_eq_some_iff.1 h
  iterate 2 obtain ⟨_, -, h⟩ := Option.bind_eq_some_iff.1 h
  obtain ⟨generation, hgeneration, h⟩ := Option.bind_eq_some_iff.1 h
  obtain ⟨_, -, h⟩ := Option.bind_eq_some_iff.1 h
  obtain ⟨managed, hmanaged, h⟩ := Option.bind_eq_some_iff.1 h
  iterate 6 obtain ⟨_, -, h⟩ := Option.bind_eq_some_iff.1 h
  obtain rfl := Option.some.inj h
  exact ⟨Lasting.instant.fit_of_optional hcreation, Lasting.int64.fit_of_optional hgrace,
    Lasting.instant.fit_of_optional hdeletion, Lasting.int64.fit_of_optional hgeneration,
    Record.forall_of_optional? (fun _ hl => Json.forall_of_array? ManagedFields.storable_of_ofJson? hl) hmanaged⟩

/-! ## Resources -/

theorem Instant.textSeconds_truncate (t : Instant) : t.truncate.textSeconds = t.textSeconds := by
  have hleap : t.truncate.isLeap = t.isLeap := by
    unfold truncate isLeap billion
    split <;> simp_all
  unfold textSeconds dateTimeText
  rw [hleap]
  rfl

/-- Times are written in whole seconds. -/
theorem Metadata.toJson_truncateTimes (m : Metadata) : m.truncateTimes.toJson = m.toJson := by
  have htime : Json.ofInstant ∘ Instant.truncate = Json.ofInstant := by
    funext t
    exact congrArg Json.str t.textSeconds_truncate
  have hmanaged : ManagedFields.toJson ∘ ManagedFields.truncateTime = ManagedFields.toJson := by
    funext e
    unfold Function.comp ManagedFields.toJson ManagedFields.truncateTime
    rw [Option.map_map, htime]
  have hitems : (fun l : List ManagedFields => Json.arr (l.map ManagedFields.toJson))
      ∘ (fun l : List ManagedFields => l.map ManagedFields.truncateTime)
      = fun l => Json.arr (l.map ManagedFields.toJson) := by
    funext l
    rw [Function.comp_apply, List.map_map, hmanaged]
  have hfields : m.truncateTimes.managedFields = m.managedFields.map fun l => l.map ManagedFields.truncateTime := rfl
  unfold Metadata.toJson
  rw [hfields, Option.map_map, hitems]
  unfold truncateTimes
  simp only [Option.map_map, htime]

namespace ResourceKind

variable {σ τ : Type} {k : ResourceKind σ τ} {o : Object} {r : Resource σ τ}

/-- A resource is read from the metadata, the specification and the status of its object. -/
theorem ofObject_eq_ok_iff : k.ofObject o = .ok r ↔
    Metadata.ofJson? o.metadata.toJson = some r.metadata
      ∧ Record.required? ⟨o.data, false⟩ "spec" k.readSpec = some r.spec
      ∧ Record.optional? ⟨o.data, false⟩ "status" k.readStatus = some r.status := by
  obtain ⟨fields, hfields, hmetadata, hspec, hstatus⟩ : ∃ fields, o.toJson = .obj fields
      ∧ Table.find? fields "metadata" = some o.metadata.toJson
      ∧ Table.find? fields "spec" = Table.find? o.data "spec"
      ∧ Table.find? fields "status" = Table.find? o.data "status" := by
    refine ⟨_, rfl, Table.find?_insert_self _ _ _, ?_, ?_⟩ <;>
    · rw [Table.find?_insert_ne (by decide)]
      cases o.type with
      | none => rfl
      | some t =>
        dsimp only
        rw [Table.find?_insert_ne (by decide), Table.find?_insert_ne (by decide)]
  have hread : k.ofJson? o.toJson = ((Metadata.ofJson? o.metadata.toJson).bind fun metadata =>
      (Record.required? ⟨o.data, false⟩ "spec" k.readSpec).bind fun spec =>
      (Record.optional? ⟨o.data, false⟩ "status" k.readStatus).bind fun status =>
      some ⟨metadata, spec, status⟩) := by
    rw [hfields]
    unfold ofJson? Record.required? Record.nullable? Record.optional? Record.field?
    simp only [Record.read?, Option.bind_eq_bind, Option.bind_some, hmetadata, hspec, hstatus, Option.pure_def]
    rfl
  have hok : k.ofObject o = .ok r ↔ k.ofJson? o.toJson = some r := by
    unfold ofObject
    cases k.ofJson? o.toJson with
    | none => exact ⟨nofun, nofun⟩
    | some r' => exact ⟨fun h => congrArg some (Except.ok.inj h), fun h => congrArg Except.ok (Option.some.inj h)⟩
  rw [hok, hread]
  simp only [Option.bind_eq_some_iff]
  constructor
  · rintro ⟨metadata, hm, spec, hs, status, ht, heq⟩
    obtain rfl := Option.some.inj heq
    exact ⟨hm, hs, ht⟩
  · rintro ⟨hm, hs, ht⟩
    exact ⟨_, hm, _, hs, _, ht, rfl⟩

variable {Fit : σ → Prop} {Known : τ → Prop}

/-- The specifications and the statuses of a kind last. -/
structure Lasts (k : ResourceKind σ τ) (Fit : σ → Prop) (Known : τ → Prop) : Prop where
  spec : Lasting k.readSpec k.writeSpec Fit
  status : Lasting k.readStatus k.writeStatus Known
  /-- A status is not written as null, which is none. -/
  notNull : ∀ t, k.writeStatus t ≠ .null

/-- A resource that can be written. -/
structure Storable (r : Resource σ τ) (Fit : σ → Prop) (Known : τ → Prop) : Prop where
  metadata : r.metadata.Storable
  spec : Fit r.spec
  status : ∀ t ∈ r.status, Known t

/-- A resource is read back from its object with the times of its metadata in whole seconds. -/
theorem ofObject_toObject (hk : k.Lasts Fit Known) (hr : Storable r Fit Known) :
    k.ofObject (k.toObject r) = .ok { r with metadata := r.metadata.truncateTimes } := by
  have hfind (name : String) : Record.field? ⟨(k.toObject r).data, false⟩ name
      = (("spec", k.writeSpec r.spec) :: r.status.toList.map fun s => ("status", k.writeStatus s)).lookup name :=
    Table.find?_ofList_of_nodup (by cases r.status <;> simp) name
  have hstatus : Record.field? ⟨(k.toObject r).data, false⟩ "status" = r.status.map k.writeStatus := by
    rw [hfind]
    cases r.status <;> rfl
  refine ofObject_eq_ok_iff.2 ⟨?_, hk.spec.required hr.spec (hfind "spec"),
    hk.status.optional hr.status hk.notNull hstatus⟩
  show Metadata.ofJson? r.metadata.truncateTimes.toJson = _
  rw [Metadata.toJson_truncateTimes, Metadata.ofJson?_toJson_eq hr.metadata]

/-- What is read of an object can be written. -/
theorem storable_of_ofObject (hk : k.Lasts Fit Known) (h : k.ofObject o = .ok r) : Storable r Fit Known := by
  obtain ⟨hm, hs, ht⟩ := ofObject_eq_ok_iff.1 h
  exact ⟨Metadata.storable_of_ofJson? hm, hk.spec.fit_of_required hs, hk.status.fit_of_optional ht⟩

/-- Nothing of a kind is lost by writing it. -/
structure Survives (k : ResourceKind σ τ) (Fit : σ → Prop) (Known : τ → Prop) : Prop where
  spec : ∀ s, Fit s → k.readSpec (k.writeSpec s) = some s
  spec_again : ∀ j s, k.readSpec j = some s → k.readSpec (k.writeSpec s) = some s
  status : ∀ t, Known t → k.readStatus (k.writeStatus t) = some t
  status_again : ∀ j t, k.readStatus j = some t → k.readStatus (k.writeStatus t) = some t
  object : ∀ r, Storable r Fit Known →
    k.ofObject (k.toObject r) = .ok { r with metadata := r.metadata.truncateTimes }
  object_again : ∀ o r, k.ofObject o = .ok r →
    k.ofObject (k.toObject r) = .ok { r with metadata := r.metadata.truncateTimes }

theorem Lasts.survives (hk : k.Lasts Fit Known) : k.Survives Fit Known where
  spec := hk.spec.read_write
  spec_again _ _ h := hk.spec.read_write_of_read h
  status := hk.status.read_write
  status_again _ _ h := hk.status.read_write_of_read h
  object _ hr := ofObject_toObject hk hr
  object_again _ _ h := ofObject_toObject hk (storable_of_ofObject hk h)

end ResourceKind

/-- The state of all kinds survives: a specification or status whose spans fit 64 bits of seconds and whose times
can be written is read back as it is, whatever is read is read again after it is written, and so are whole
resources, but for the parts of a second in their metadata. -/
theorem state_survives :
    manifestRecords.Survives RecordSpec.Storable (fun _ => True)
      ∧ helmAddons.Survives HelmSpec.Storable Status.Storable
      ∧ manifestAddons.Survives ManifestSpec.Storable Status.Storable
      ∧ issuerAddons.Survives (fun _ => True) Status.Storable
      ∧ addonSets.Survives SetSpec.Storable SetStatus.Storable := by
  have hrecords : manifestRecords.Lasts RecordSpec.Storable fun _ => True :=
    ⟨RecordSpec.lasting, ⟨nofun, nofun⟩, nofun⟩
  have hhelm : helmAddons.Lasts HelmSpec.Storable Status.Storable := ⟨HelmSpec.lasting, Status.lasting, nofun⟩
  have hmanifests : manifestAddons.Lasts ManifestSpec.Storable Status.Storable :=
    ⟨ManifestSpec.lasting, Status.lasting, nofun⟩
  have hissuers : issuerAddons.Lasts (fun _ => True) Status.Storable :=
    ⟨IssuerSpec.lasting, Status.lasting, nofun⟩
  have hsets : addonSets.Lasts SetSpec.Storable SetStatus.Storable := ⟨SetSpec.lasting, SetStatus.lasting, nofun⟩
  exact ⟨hrecords.survives, hhelm.survives, hmanifests.survives, hissuers.survives, hsets.survives⟩

section

/-- A record with a patch, a substitution, an object of the cluster and a timeout of parts of a second. -/
def sampleRecord : RecordSpec :=
  { url := "https://example.com/crds.yaml", checksum := "1f", newChecksum := "2e"
    objects := [⟨"v1", "Namespace", "crds", none, ""⟩]
    patches := [⟨⟨"Deployment", some "web", none⟩, .obj [("spec", .obj [("replicas", .null)])]⟩]
    images := [⟨"nginx", none, some "1.27", none⟩]
    failurePolicy := .retry, timeout := some ⟨90000000001⟩ }

/-- A status of a time with a fraction. -/
def sampleStatus : Status := ⟨.degraded, ⟨1735689599, 250000000⟩, "", "no endpoints"⟩

theorem state_survives_sample :
    (sampleRecord.Storable ∧ RecordSpec.ofJson? sampleRecord.toJson = some sampleRecord)
      ∧ sampleStatus.Storable ∧ Status.ofJson? sampleStatus.toJson = some sampleStatus := by
  have hrecord : sampleRecord.Storable := by
    rintro t ⟨⟩
    decide
  have hstatus : sampleStatus.Storable := ⟨by decide, by decide, by decide⟩
  exact ⟨⟨hrecord, state_survives.1.spec _ hrecord⟩, hstatus, state_survives.2.1.status _ hstatus⟩

end

end Addons
