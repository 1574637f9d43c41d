import Addons.Proofs.Resource.Reading
import Addons.Proofs.Time.Spans
import Addons.Resource.Composite

/-!
# Specifications and statuses last

What is stored of a specification or a status is read back as it was written, and what is read can be stored
again. A pair of a reader and a writer that keeps values is `Lasting`; there is one lemma for each way that a
field is left out or defaulted, and a structure is put together from its fields.
-/

namespace Addons

section Mapped

variable {α : Type} {read : Json → Option α} {write : α → Json} {f : α → α}

/-- A field that is left out where it has no value, as long as no value is written as null. -/
theorem Record.optional?_mapped {r : Record} {k : String} {o : Option α}
    (h : ∀ a ∈ o, read (write a) = some (f a)) (hnull : ∀ a ∈ o, write a ≠ .null)
    (hk : r.field? k = o.map write) : r.optional? k read = some (o.map f) := by
  unfold Record.optional?
  rw [hk]
  cases o with
  | none => rfl
  | some a =>
    rw [Option.map_some]
    split
    · rename_i hj
      exact absurd (Option.some.inj hj) (hnull a rfl)
    · rename_i j hj
      rw [← Option.some.inj hj, h a rfl]
      rfl
    · rename_i hj
      cases hj

variable {Fit : α → Prop}

/-- What is read of a list is read of its items. -/
theorem Json.forall_of_array? (h : ∀ {j a}, read j = some a → Fit a) {j : Json} {l : List α}
    (hl : Json.array? read j = some l) : ∀ a ∈ l, Fit a := by
  unfold Json.array? at hl
  split at hl
  · rename_i items
    induction items generalizing l with
    | nil =>
      obtain rfl := Option.some.inj hl
      exact fun a ha => absurd ha List.not_mem_nil
    | cons j items ih =>
      rw [List.mapM_cons] at hl
      obtain ⟨a, ha, hl⟩ := Option.bind_eq_some_iff.1 hl
      obtain ⟨as, has, hl⟩ := Option.bind_eq_some_iff.1 hl
      obtain rfl := Option.some.inj hl
      intro b hb
      rcases List.mem_cons.1 hb with rfl | hb
      · exact h ha
      · exact ih has b hb
  · cases hl

theorem Record.forall_of_optional? (h : ∀ {j a}, j ≠ .null → read j = some a → Fit a) {r : Record} {k : String}
    {o : Option α} (ho : r.optional? k read = some o) : ∀ a ∈ o, Fit a := by
  rintro a rfl
  unfold Record.optional? at ho
  split at ho
  · cases ho
  · rename_i hnull _
    obtain ⟨b, hb, heq⟩ := Option.map_eq_some_iff.1 ho
    obtain rfl := Option.some.inj heq
    exact h hnull hb
  · cases ho

end Mapped

/-- What is written of a fit value is read back, and only fit values are read. -/
structure Lasting {α : Type} (read : Json → Option α) (write : α → Json) (Fit : α → Prop) : Prop where
  read_write : ∀ a, Fit a → read (write a) = some a
  fit_of_read : ∀ {j a}, read j = some a → Fit a

namespace Lasting

variable {α : Type} {read : Json → Option α} {write : α → Json} {Fit : α → Prop}

/-- What was read is written and read again as the same value. -/
theorem read_write_of_read (h : Lasting read write Fit) {j : Json} {a : α} (ha : read j = some a) :
    read (write a) = some a :=
  h.read_write a (h.fit_of_read ha)

/-- Whatever is always read back lasts. -/
theorem of_forall (h : ∀ a, read (write a) = some a) : Lasting read write fun _ => True :=
  ⟨fun a _ => h a, fun _ => trivial⟩

theorem str : Lasting Json.str? Json.str fun _ => True := of_forall fun _ => rfl

theorem bool : Lasting Json.bool? Json.bool fun _ => True := of_forall fun _ => rfl

/-- A value of any form. -/
theorem any : Lasting some (fun j => j) fun _ => True := of_forall fun _ => rfl

theorem span : Lasting Json.span? (fun s => .str s.text) Span.Fits where
  read_write s hs := by
    have htext : (Json.str s.text).str? = some s.text := rfl
    rw [Json.span?, htext, Option.bind_some, Span.parse?_text hs]
  fit_of_read h := by
    obtain ⟨text, -, hparse⟩ := Option.bind_eq_some_iff.1 h
    exact Span.fits_of_parse? hparse

theorem instant : Lasting Json.instant? (fun t => .str t.textFull) Instant.Regular where
  read_write t ht := by
    have htext : (Json.str t.textFull).str? = some t.textFull := rfl
    rw [Json.instant?, htext, Option.bind_some, Instant.parse?_textFull ht]
  fit_of_read h := by
    obtain ⟨text, -, hparse⟩ := Option.bind_eq_some_iff.1 h
    exact Instant.regular_of_parse? hparse

theorem intIn (low high : Int) : Lasting (Json.intIn? low high) Json.ofInt fun i => low ≤ i ∧ i ≤ high where
  read_write i hi := if_pos hi
  fit_of_read {j i} h := by
    unfold Json.intIn? at h
    split at h
    · split at h
      · rename_i hi
        exact Option.some.inj h ▸ hi
      · cases h
    · cases h

theorem int64 : Lasting Json.int64? Json.ofInt fun i => -2 ^ 63 ≤ i ∧ i < 2 ^ 63 := by
  have hlow : (-(Nat.pow 2 63 : Nat) : Int) = -2 ^ 63 := rfl
  have hhigh (i : Int) : i ≤ (Nat.pow 2 63 - 1 : Nat) ↔ i < 2 ^ 63 := by
    rw [show ((Nat.pow 2 63 - 1 : Nat) : Int) = 2 ^ 63 - 1 from rfl]
    exact Int.le_sub_one_iff
  have hint : Json.int64? = Json.intIn? (-(Nat.pow 2 63 : Nat)) (Nat.pow 2 63 - 1 : Nat) := rfl
  rw [hint]
  generalize ((Nat.pow 2 63 - 1 : Nat) : Int) = high at hhigh
  rw [hlow]
  refine ⟨fun i hi => (intIn _ high).read_write i ⟨hi.1, (hhigh i).2 hi.2⟩, fun {j i} h => ?_⟩
  obtain ⟨h1, h2⟩ := (intIn _ high).fit_of_read h
  exact ⟨h1, (hhigh i).1 h2⟩

theorem word64 : Lasting Json.word64? Json.ofNat fun n => n < 2 ^ 64 := by
  have hbound (n : Nat) : (n : Int) ≤ (Nat.pow 2 64 - 1 : Nat) ↔ n < 2 ^ 64 := by
    rw [Int.ofNat_le]
    exact Nat.le_sub_one_iff_lt (Nat.pow_pos (by decide))
  have hword : Json.word64? = fun j => (Json.intIn? 0 (Nat.pow 2 64 - 1 : Nat) j).map Int.toNat := rfl
  rw [hword]
  generalize ((Nat.pow 2 64 - 1 : Nat) : Int) = high at hbound
  refine ⟨fun n hn => ?_, fun {j n} h => ?_⟩
  · have hread := (intIn 0 high).read_write n ⟨Int.natCast_nonneg n, (hbound n).2 hn⟩
    show (Json.intIn? 0 high (Json.ofInt n)).map Int.toNat = some n
    rw [hread]
    rfl
  · obtain ⟨i, hi, rfl⟩ := Option.map_eq_some_iff.1 h
    obtain ⟨hlow, hhigh⟩ := (intIn 0 high).fit_of_read hi
    refine (hbound i.toNat).1 ?_
    rwa [Int.toNat_of_nonneg hlow]

/-- A list lasts if its items do. -/
theorem array (h : Lasting read write Fit) :
    Lasting (Json.array? read) (fun l => .arr (l.map write)) fun l => ∀ a ∈ l, Fit a where
  read_write l hl := by
    have hread := Json.array?_mapped (f := id) fun a ha => h.read_write a (hl a ha)
    rwa [List.map_id] at hread
  fit_of_read hl := Json.forall_of_array? h.fit_of_read hl

/-! ## Fields -/

section Fields

variable {r : Record} {k : String} {a d : α}

theorem required (h : Lasting read write Fit) (ha : Fit a) (hk : r.field? k = some (write a)) :
    r.required? k read = some a := by
  unfold Record.required?
  rw [hk]
  exact h.read_write a ha

theorem fit_of_required (h : Lasting read write Fit) (ha : r.required? k read = some a) : Fit a := by
  obtain ⟨j, -, hj⟩ := Option.bind_eq_some_iff.1 ha
  exact h.fit_of_read hj

/-- A field that is left out only where it has its default. -/
theorem default (h : Lasting read write Fit) (ha : Fit a) {skip : Bool} (hd : skip = true → a = d)
    (hk : r.field? k = if skip then none else some (write a)) : r.default? k read d = some a := by
  unfold Record.default?
  rw [hk]
  cases skip with
  | true => exact congrArg some (hd rfl).symm
  | false => exact h.read_write a ha

/-- A field with a default that is always written. -/
theorem default_written (h : Lasting read write Fit) (ha : Fit a) (hk : r.field? k = some (write a)) :
    r.default? k read d = some a :=
  h.default ha (fun hskip => absurd hskip Bool.false_ne_true) hk

theorem fit_of_default (h : Lasting read write Fit) (hd : Fit d) (ha : r.default? k read d = some a) : Fit a := by
  unfold Record.default? at ha
  split at ha
  · exact h.fit_of_read ha
  · exact Option.some.inj ha ▸ hd

/-- A field that is left out where it has no value, as long as no value is written as null. -/
theorem optional {o : Option α} (h : Lasting read write Fit) (ha : ∀ a ∈ o, Fit a)
    (hnull : ∀ a, write a ≠ .null) (hk : r.field? k = o.map write) : r.optional? k read = some o := by
  have hread := Record.optional?_mapped (f := id) (fun a hm => h.read_write a (ha a hm)) (fun a _ => hnull a) hk
  rwa [Option.map_id, id] at hread

theorem fit_of_optional {o : Option α} (h : Lasting read write Fit) (ho : r.optional? k read = some o) :
    ∀ a ∈ o, Fit a :=
  Record.forall_of_optional? (fun _ ha => h.fit_of_read ha) ho

/-- A list that is left out where it is empty. -/
theorem items {l : List α} (h : Lasting read write Fit) (hl : ∀ a ∈ l, Fit a)
    (hk : r.field? k = Json.ofItems? write l) : r.default? k (Json.array? read) [] = some l :=
  h.array.default hl List.isEmpty_iff.1 hk

end Fields

end Lasting

/-- A structure that was written as fields is read from these fields. -/
theorem field?_of_fields {names : List String} {fields : List (String × Json)} {r : Record}
    (hr : Record.read? names (Json.ofFields fields) = some r) (h : (fields.map Prod.fst).Nodup) (k : String) :
    r.field? k = fields.lookup k := by
  obtain rfl := Option.some.inj hr
  exact Table.find?_ofList_of_nodup h k

/-! ## Parts of specifications -/

theorem FailurePolicy.lasting :
    Lasting (Json.variant? FailurePolicy.ofName?) (fun p => .str p.name) fun _ => True :=
  .of_forall fun p => by cases p <;> rfl

theorem StatusType.lasting :
    Lasting (Json.variant? StatusType.ofName?) (fun t => .str t.name) fun _ => True :=
  .of_forall fun t => by cases t <;> rfl

theorem PatchTarget.lasting : Lasting PatchTarget.ofJson? PatchTarget.toJson fun _ => True := by
  refine .of_forall fun t => ?_
  have hread : Record.read? ["kind", "name", "namespace"] t.toJson = some ⟨_, false⟩ := rfl
  have hfield := field?_of_read? hread (show ["kind", "name", "namespace"].Nodup by decide)
  unfold PatchTarget.ofJson? PatchTarget.toJson
  simp only [Option.bind_eq_bind, Option.bind_eq_some_iff]
  exact ⟨_, rfl, _, Record.required?_str (hfield "kind"), _, Record.optional?_str (hfield "name"), _,
    Record.optional?_str (hfield "namespace"), rfl⟩

theorem Patch.lasting : Lasting Patch.ofJson? Patch.toJson fun _ => True := by
  refine .of_forall fun p => ?_
  have hread : Record.read? ["target", "patch"] p.toJson = some ⟨_, false⟩ := rfl
  have hfield := field?_of_fields hread (show ["target", "patch"].Nodup by decide)
  unfold Patch.ofJson? Patch.toJson
  simp only [Option.bind_eq_bind, Option.bind_eq_some_iff]
  exact ⟨_, rfl, _, PatchTarget.lasting.required trivial (hfield "target"), _,
    Lasting.any.required trivial (hfield "patch"), rfl⟩

theorem ImageSubstitution.lasting :
    Lasting ImageSubstitution.ofJson? ImageSubstitution.toJson fun _ => True := by
  refine .of_forall fun s => ?_
  have hread : Record.read? fieldNames s.toJson = some ⟨_, false⟩ := rfl
  have hfield := field?_of_read? hread (show fieldNames.Nodup by decide)
  unfold ImageSubstitution.ofJson? ImageSubstitution.toJson
  simp only [Option.bind_eq_bind, Option.bind_eq_some_iff]
  exact ⟨_, rfl, _, Record.required?_str (hfield "name"), _, Record.optional?_str (hfield "newName"), _,
    Record.optional?_str (hfield "newTag"), _, Record.optional?_str (hfield "digest"), rfl⟩

theorem Tracked.lasting : Lasting Tracked.ofJson? Tracked.toJson fun _ => True :=
  .of_forall Tracked.ofJson?_toJson

/-- A text that is written is no null. -/
theorem Json.str_ne_null {α : Type} (text : α → String) (a : α) : Json.str (text a) ≠ .null := nofun

/-! ## Specifications -/

/-- Spans that are stored fit. -/
def HelmSpec.Storable (s : HelmSpec) : Prop := s.interval.Fits

theorem HelmSpec.lasting : Lasting HelmSpec.ofJson? HelmSpec.toJson HelmSpec.Storable where
  read_write s hs := by
    have hread : Record.read? fieldNames s.toJson = some ⟨_, false⟩ := rfl
    have hfield := field?_of_read? hread (show fieldNames.Nodup by decide)
    unfold HelmSpec.ofJson? HelmSpec.toJson
    simp only [Option.bind_eq_bind, Option.bind_eq_some_iff]
    have hempty (h : s.version.isEmpty = true) : s.version = "" := String.isEmpty_iff.1 h
    have hnull (h : s.values.isNull = true) : s.values = .null := by
      cases hv : s.values <;> rw [hv] at h <;> first | rfl | cases h
    exact ⟨_, rfl, _, Record.required?_str (hfield "chart"), _, Record.required?_str (hfield "repository"), _,
      Lasting.str.default trivial hempty (hfield "version"), _,
      Lasting.any.default trivial hnull (hfield "values"), _,
      Record.optional?_str (hfield "targetNamespace"), _,
      Lasting.span.default_written hs (hfield "interval"), rfl⟩
  fit_of_read {j s} h := by
    unfold HelmSpec.ofJson? at h
    simp only [Option.bind_eq_bind, Option.bind_eq_some_iff] at h
    obtain ⟨r, -, _, -, _, -, _, -, _, -, _, -, interval, hinterval, h⟩ := h
    obtain rfl := Option.some.inj h
    exact Lasting.span.fit_of_default (by decide) hinterval

def ManifestSpec.Storable (s : ManifestSpec) : Prop := ∀ t ∈ s.timeout, t.Fits

theorem ManifestSpec.lasting : Lasting ManifestSpec.ofJson? ManifestSpec.toJson ManifestSpec.Storable where
  read_write s hs := by
    have hread : Record.read? fieldNames s.toJson = some ⟨_, false⟩ := rfl
    have hfield := field?_of_read? hread (show fieldNames.Nodup by decide)
    unfold ManifestSpec.ofJson? ManifestSpec.toJson
    simp only [Option.bind_eq_bind, Option.bind_eq_some_iff]
    exact ⟨_, rfl, _, Record.required?_str (hfield "url"), _,
      Patch.lasting.items (fun _ _ => trivial) (hfield "patches"), _,
      ImageSubstitution.lasting.items (fun _ _ => trivial) (hfield "images"), _,
      FailurePolicy.lasting.default_written trivial (hfield "failurePolicy"), _,
      Lasting.span.optional hs (Json.str_ne_null _) (hfield "timeout"), rfl⟩
  fit_of_read {j s} h := by
    unfold ManifestSpec.ofJson? at h
    simp only [Option.bind_eq_bind, Option.bind_eq_some_iff] at h
    obtain ⟨r, -, _, -, _, -, _, -, _, -, timeout, htimeout, h⟩ := h
    obtain rfl := Option.some.inj h
    exact Lasting.span.fit_of_optional htimeout

theorem IssuerSpec.lasting : Lasting IssuerSpec.ofJson? IssuerSpec.toJson fun _ => True := by
  refine .of_forall fun s => ?_
  have hread : Record.read? fieldNames s.toJson = some ⟨_, false⟩ := rfl
  have hfield := field?_of_fields hread (show fieldNames.Nodup by decide)
  unfold IssuerSpec.ofJson? IssuerSpec.toJson
  simp only [Option.bind_eq_bind, Option.bind_eq_some_iff]
  exact ⟨_, rfl, _, Lasting.bool.default_written trivial (hfield "clusterScoped"), _,
    Lasting.any.required trivial (hfield "issuer"), rfl⟩

def RecordSpec.Storable (s : RecordSpec) : Prop := ∀ t ∈ s.timeout, t.Fits

theorem RecordSpec.lasting : Lasting RecordSpec.ofJson? RecordSpec.toJson RecordSpec.Storable where
  read_write s hs := by
    have hread : Record.read? fieldNames s.toJson = some ⟨_, false⟩ := rfl
    have hfield := field?_of_read? hread (show fieldNames.Nodup by decide)
    unfold RecordSpec.ofJson? RecordSpec.toJson
    simp only [Option.bind_eq_bind, Option.bind_eq_some_iff]
    exact ⟨_, rfl, _, Record.required?_str (hfield "url"), _, Record.default?_str (hfield "checksum") "", _,
      Record.default?_str (hfield "newChecksum") "", _,
      Tracked.lasting.array.default_written (fun _ _ => trivial) (hfield "objects"), _,
      Patch.lasting.items (fun _ _ => trivial) (hfield "patches"), _,
      ImageSubstitution.lasting.items (fun _ _ => trivial) (hfield "images"), _,
      FailurePolicy.lasting.default_written trivial (hfield "failurePolicy"), _,
      Lasting.span.optional hs (Json.str_ne_null _) (hfield "timeout"), rfl⟩
  fit_of_read {j s} h := by
    unfold RecordSpec.ofJson? at h
    simp only [Option.bind_eq_bind, Option.bind_eq_some_iff] at h
    obtain ⟨r, -, _, -, _, -, _, -, _, -, _, -, _, -, _, -, timeout, htimeout, h⟩ := h
    obtain rfl := Option.some.inj h
    exact Lasting.span.fit_of_optional htimeout

/-! ## Composites -/

/-- An entry lasts if its payload does. -/
theorem Entry.lasting {π : Type} {read : Json → Option π} {write : π → Json} {Fit : π → Prop}
    (h : Lasting read write Fit) : Lasting (Entry.ofJson? read) (Entry.toJson write) fun e => Fit e.spec where
  read_write e he := by
    have hread : Record.read? fieldNames (e.toJson write) = some ⟨_, false⟩ := rfl
    have hfield := field?_of_fields hread (show fieldNames.Nodup by decide)
    unfold Entry.ofJson? Entry.toJson
    simp only [Option.bind_eq_bind, Option.bind_eq_some_iff]
    exact ⟨_, rfl, _, Record.required?_str (hfield "name"), _, Record.default?_str (hfield "namespace") "", _,
      Lasting.bool.default_written trivial (hfield "clusterScoped"), _, h.required he (hfield "spec"), rfl⟩
  fit_of_read {j e} he := by
    unfold Entry.ofJson? at he
    simp only [Option.bind_eq_bind, Option.bind_eq_some_iff] at he
    obtain ⟨r, -, _, -, _, -, _, -, spec, hspec, he⟩ := he
    obtain rfl := Option.some.inj he
    exact h.fit_of_required hspec

theorem IssuerConfig.lasting : Lasting IssuerConfig.ofJson? IssuerConfig.toJson fun _ => True := by
  refine .of_forall fun c => ?_
  have hread : Record.read? ["issuer"] c.toJson = some ⟨_, false⟩ := rfl
  have hfield := field?_of_fields hread (show ["issuer"].Nodup by decide)
  unfold IssuerConfig.ofJson? IssuerConfig.toJson
  simp only [Option.bind_eq_bind, Option.bind_eq_some_iff]
  exact ⟨_, rfl, _, Lasting.any.required trivial (hfield "issuer"), rfl⟩

def SetSpec.Storable (s : SetSpec) : Prop :=
  (∀ e ∈ s.helm, e.spec.Storable) ∧ ∀ e ∈ s.manifests, e.spec.Storable

theorem SetSpec.lasting : Lasting SetSpec.ofJson? SetSpec.toJson SetSpec.Storable where
  read_write s hs := by
    have hread : Record.read? fieldNames s.toJson = some ⟨_, false⟩ := rfl
    have hfield := field?_of_fields hread (show fieldNames.Nodup by decide)
    unfold SetSpec.ofJson? SetSpec.toJson
    simp only [Option.bind_eq_bind, Option.bind_eq_some_iff]
    exact ⟨_, rfl, _, (Entry.lasting HelmSpec.lasting).array.default_written hs.1 (hfield "helm"), _,
      (Entry.lasting ManifestSpec.lasting).array.default_written hs.2 (hfield "manifests"), _,
      (Entry.lasting IssuerConfig.lasting).array.default_written (fun _ _ => trivial) (hfield "issuers"), rfl⟩
  fit_of_read {j s} h := by
    unfold SetSpec.ofJson? at h
    simp only [Option.bind_eq_bind, Option.bind_eq_some_iff] at h
    obtain ⟨r, -, helm, hhelm, manifests, hmanifests, _, -, h⟩ := h
    obtain rfl := Option.some.inj h
    exact ⟨(Entry.lasting HelmSpec.lasting).array.fit_of_default (fun e he => absurd he List.not_mem_nil) hhelm,
      (Entry.lasting ManifestSpec.lasting).array.fit_of_default (fun e he => absurd he List.not_mem_nil)
        hmanifests⟩

/-! ## Statuses -/

/-- The time can be written. -/
def Status.Storable (s : Status) : Prop := s.lastTransitionTime.Regular

theorem Status.lasting : Lasting Status.ofJson? Status.toJson Status.Storable where
  read_write s hs := by
    have hread : Record.read? fieldNames s.toJson = some ⟨_, false⟩ := rfl
    have hfield := field?_of_fields hread (show fieldNames.Nodup by decide)
    unfold Status.ofJson? Status.toJson
    simp only [Option.bind_eq_bind, Option.bind_eq_some_iff]
    exact ⟨_, rfl, _, StatusType.lasting.required trivial (hfield "type"), _,
      Lasting.instant.required hs (hfield "lastTransitionTime"), _, Record.default?_str (hfield "reason") "", _,
      Record.default?_str (hfield "message") "", rfl⟩
  fit_of_read {j s} h := by
    unfold Status.ofJson? at h
    simp only [Option.bind_eq_bind, Option.bind_eq_some_iff] at h
    obtain ⟨r, -, _, -, time, htime, _, -, _, -, h⟩ := h
    obtain rfl := Option.some.inj h
    exact Lasting.instant.fit_of_required htime

/-- The numbers fit 64 bits, and the time can be written. -/
structure SetStatus.Storable (s : SetStatus) : Prop where
  generation : ∀ i ∈ s.observedGeneration, -2 ^ 63 ≤ i ∧ i < 2 ^ 63
  components : s.components < 2 ^ 64
  status : ∀ t ∈ s.status, t.Storable

theorem SetStatus.lasting : Lasting SetStatus.ofJson? SetStatus.toJson SetStatus.Storable where
  read_write s hs := by
    have hread : Record.read? fieldNames s.toJson = some ⟨_, false⟩ := rfl
    have hfield := field?_of_read? hread (show fieldNames.Nodup by decide)
    unfold SetStatus.ofJson? SetStatus.toJson
    simp only [Option.bind_eq_bind, Option.bind_eq_some_iff]
    exact ⟨_, rfl, _, Lasting.int64.optional hs.generation nofun (hfield "observedGeneration"), _,
      Lasting.word64.default_written hs.components (hfield "components"), _,
      Status.lasting.optional hs.status nofun (hfield "status"), rfl⟩
  fit_of_read {j s} h := by
    unfold SetStatus.ofJson? at h
    simp only [Option.bind_eq_bind, Option.bind_eq_some_iff] at h
    obtain ⟨r, -, generation, hgeneration, components, hcomponents, status, hstatus, h⟩ := h
    obtain rfl := Option.some.inj h
    exact ⟨Lasting.int64.fit_of_optional hgeneration, Lasting.word64.fit_of_default (by decide) hcomponents,
      Status.lasting.fit_of_optional hstatus⟩

end Addons
