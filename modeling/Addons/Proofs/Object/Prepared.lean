import Addons.Proofs.Object.Identity
import Addons.Proofs.Object.Ordered
import Addons.Proofs.Resource.Stored

/-!
# Documents prepared again

A prepared document has the identity it is tracked by, its namespace follows its scope, and all else that it says
is kept (`Prepared.Follows`). What is prepared stays so: the object is prepared again under the same key, and to
the same object exactly when its times are in whole seconds (`Prepared.ofDocument_stable`). For this an untyped
object is read back as it was written (`Object.ofJson?_toJson`), and its scope is the one that its namespace now
shows (`Prepared.nsFor_nsFor`).
-/

namespace Addons

/-! ## Whole seconds -/

/-- The start of a second, or of a leap second. -/
def Instant.Whole (t : Instant) : Prop := t.nanos = 0 ∨ t.nanos = billion

theorem Instant.whole_truncate (t : Instant) : t.truncate.Whole := by
  unfold truncate Whole
  dsimp only
  split
  · exact .inr rfl
  · exact .inl rfl

theorem Instant.truncate_eq_self_iff {t : Instant} : t.truncate = t ↔ t.Whole := by
  constructor
  · intro h
    exact h ▸ t.whole_truncate
  · obtain ⟨seconds, nanos⟩ := t
    rintro (rfl | rfl) <;> rfl

theorem Instant.map_truncate_eq_self_iff {t : Option Instant} : t.map truncate = t ↔ ∀ a ∈ t, a.Whole := by
  cases t with
  | none => simp
  | some a => simp [truncate_eq_self_iff]

/-- All times of the metadata are in whole seconds. -/
structure Metadata.Whole (m : Metadata) : Prop where
  creation : ∀ t ∈ m.creationTimestamp, t.Whole
  deletion : ∀ t ∈ m.deletionTimestamp, t.Whole
  managed : ∀ l ∈ m.managedFields, ∀ e ∈ l, ∀ t ∈ e.time, t.Whole

theorem ManagedFields.truncateTime_eq_self_iff {e : ManagedFields} :
    e.truncateTime = e ↔ ∀ t ∈ e.time, t.Whole := by
  rw [← Instant.map_truncate_eq_self_iff]
  exact ⟨fun h => congrArg time h, fun h => congrArg (fun time => { e with time }) h⟩

theorem Metadata.truncateTimes_eq_self_iff {m : Metadata} : m.truncateTimes = m ↔ m.Whole := by
  have hmanaged : m.managedFields.map (fun l => l.map ManagedFields.truncateTime) = m.managedFields
      ↔ ∀ l ∈ m.managedFields, ∀ e ∈ l, ∀ t ∈ e.time, t.Whole := by
    simp only [← ManagedFields.truncateTime_eq_self_iff]
    cases m.managedFields with
    | none => simp
    | some l => simpa using List.map_inj_left (l := l) (g := id)
  constructor
  · intro h
    exact ⟨Instant.map_truncate_eq_self_iff.1 (congrArg creationTimestamp h),
      Instant.map_truncate_eq_self_iff.1 (congrArg deletionTimestamp h),
      hmanaged.1 (congrArg managedFields h)⟩
  · intro h
    unfold truncateTimes
    rw [Instant.map_truncate_eq_self_iff.2 h.creation, Instant.map_truncate_eq_self_iff.2 h.deletion]
    exact congrArg (fun managedFields => { m with managedFields }) (hmanaged.2 h.managed)

theorem Metadata.whole_truncateTimes (m : Metadata) : m.truncateTimes.Whole where
  creation := by simp [truncateTimes, Instant.whole_truncate]
  deletion := by simp [truncateTimes, Instant.whole_truncate]
  managed := by simp [truncateTimes, Instant.whole_truncate]

/-! ## Objects read back -/

namespace Object

variable {j : Json} {o : Object} {fields data : Json.Fields} {t : TypeRef}

theorem of_takeType (h : takeType fields = (some t, data)) :
    Table.find? fields "apiVersion" = some (.str t.apiVersion) ∧ Table.find? fields "kind" = some (.str t.kind)
      ∧ data = (fields.erase "apiVersion").erase "kind" := by
  unfold takeType at h
  split at h
  case h_1 apiVersion hversion =>
    dsimp only at h
    split at h
    case h_1 kind hkind =>
      obtain ⟨ht, rfl⟩ := Prod.mk.inj h
      obtain rfl := Option.some.inj ht
      exact ⟨hversion, hkind, rfl⟩
    case h_2 => cases h
  case h_2 => cases h
  case h_3 => cases h

theorem takeType_eq (hversion : Table.find? fields "apiVersion" = some (.str t.apiVersion))
    (hkind : Table.find? fields "kind" = some (.str t.kind)) :
    takeType fields = (some t, (fields.erase "apiVersion").erase "kind") := by
  unfold takeType
  rw [hversion]
  dsimp only
  rw [hkind]

theorem ofJson?_obj : ofJson? (.obj fields) = (match Table.find? fields "metadata" with
      | some m => Metadata.ofJson? m
      | none => some {}).bind fun metadata =>
    some ⟨(takeType (Table.erase fields "metadata")).1, metadata, (takeType (Table.erase fields "metadata")).2⟩ := by
  unfold ofJson?
  dsimp only
  cases Table.find? fields "metadata" <;> rfl

/-- The fields that the type and the metadata of an object are written to. -/
def reserved : List String := ["apiVersion", "kind", "metadata"]

/-- An object with a type as it is in a document: its type and metadata, and all other fields. -/
structure In (o : Object) (t : TypeRef) (fields : Json.Fields) : Prop where
  type : o.type = some t
  apiVersion : Table.find? fields "apiVersion" = some (.str t.apiVersion)
  kind : Table.find? fields "kind" = some (.str t.kind)
  data : ∀ k, Table.find? o.data k = if k ∈ reserved then none else Table.find? fields k

theorem find?_erase_reserved (fields : Json.Fields) (k : String) :
    Table.find? (((fields.erase "metadata").erase "apiVersion").erase "kind") k
      = if k ∈ reserved then none else Table.find? fields k := by
  rw [Table.find?_erase, Table.find?_erase, Table.find?_erase]
  unfold reserved
  by_cases hkind : k = "kind"
  · simp [hkind]
  · by_cases hversion : k = "apiVersion"
    · simp [hversion]
    · simp [hkind, hversion]

theorem in_of_ofJson? (h : ofJson? j = some o) (ht : o.type = some t) :
    o.metadata.Storable ∧ ∃ fields, j = .obj fields ∧ o.In t fields := by
  cases j with
  | obj fields =>
    rw [ofJson?_obj] at h
    obtain ⟨metadata, hmetadata, h⟩ := Option.bind_eq_some_iff.1 h
    obtain rfl := Option.some.inj h
    have htake : takeType (Table.erase fields "metadata") = (some t, (takeType (Table.erase fields "metadata")).2) :=
      Prod.ext ht rfl
    obtain ⟨hversion, hkind, hdata⟩ := of_takeType htake
    rw [Table.find?_erase_ne (by decide)] at hversion hkind
    refine ⟨?_, fields, rfl, ht, hversion, hkind, fun k => ?_⟩
    · split at hmetadata
      · exact Metadata.storable_of_ofJson? hmetadata
      · obtain rfl := Option.some.inj hmetadata
        constructor <;> simp
    · show Table.find? (takeType (Table.erase fields "metadata")).2 k = _
      rw [hdata, find?_erase_reserved]
  | _ => cases h

/-- What an object with a type is written to. -/
theorem find?_toJson (ht : o.type = some t) : ∃ written : Json.Fields, o.toJson = .obj written ∧ ∀ k,
    Table.find? written k = if k = "metadata" then some o.metadata.toJson
      else if k = "apiVersion" then some (.str t.apiVersion)
      else if k = "kind" then some (.str t.kind)
      else Table.find? o.data k := by
  refine ⟨_, rfl, fun k => ?_⟩
  rw [ht]
  dsimp only
  rw [Table.find?_insert, Table.find?_insert, Table.find?_insert]

/-- An object is written to the fields of its document, but for the metadata. -/
theorem In.find?_toJson (h : o.In t fields) : ∃ written : Json.Fields, o.toJson = .obj written
    ∧ ∀ k, k ≠ "metadata" → Table.find? written k = Table.find? fields k := by
  obtain ⟨written, hwritten, hfind⟩ := Object.find?_toJson h.type
  refine ⟨written, hwritten, fun k hk => ?_⟩
  rw [hfind, if_neg hk]
  split
  case isTrue hversion => rw [hversion, h.apiVersion]
  case isFalse hversion =>
    split
    case isTrue hkind => rw [hkind, h.kind]
    case isFalse hkind => rw [h.data, if_neg (by simp [reserved, hk, hversion, hkind])]

/-- An object with a type is read back with the times of its metadata in whole seconds. -/
theorem ofJson?_toJson (h : o.In t fields) (hdata : o.data.Sorted) (hmetadata : o.metadata.Storable) :
    ofJson? o.toJson = some { o with metadata := o.metadata.truncateTimes } := by
  obtain ⟨written, hwritten, hfind⟩ := Object.find?_toJson h.type
  have hversion : Table.find? (Table.erase written "metadata") "apiVersion" = some (.str t.apiVersion) := by
    rw [Table.find?_erase_ne (by decide), hfind]
    rfl
  have hkind : Table.find? (Table.erase written "metadata") "kind" = some (.str t.kind) := by
    rw [Table.find?_erase_ne (by decide), hfind]
    rfl
  have hsorted : Table.Sorted written := by
    obtain rfl : Table.insert "metadata" o.metadata.toJson (Table.insert "apiVersion" (.str t.apiVersion)
        (Table.insert "kind" (.str t.kind) o.data)) = written := by
      have htoJson : o.toJson = .obj (Table.insert "metadata" o.metadata.toJson
          (Table.insert "apiVersion" (.str t.apiVersion) (Table.insert "kind" (.str t.kind) o.data))) := by
        unfold toJson
        rw [h.type]
      exact Json.obj.inj (htoJson.symm.trans hwritten)
    exact ((hdata.insert _ _).insert _ _).insert _ _
  have hrest : ((Table.erase written "metadata").erase "apiVersion").erase "kind" = o.data := by
    refine (((hsorted.erase _).erase _).erase _).ext hdata fun k => ?_
    rw [find?_erase_reserved, h.data, hfind, h.data]
    by_cases hk : k ∈ reserved
    · rw [if_pos hk, if_pos hk]
    · obtain ⟨hneVersion, hneKind, hneMetadata⟩ : k ≠ "apiVersion" ∧ k ≠ "kind" ∧ k ≠ "metadata" := by
        simpa [reserved] using hk
      rw [if_neg hk, if_neg hneMetadata, if_neg hneVersion, if_neg hneKind, if_neg hk]
  rw [hwritten, ofJson?_obj, hfind, if_pos rfl, takeType_eq hversion hkind, hrest]
  dsimp only
  rw [Metadata.ofJson?_toJson_eq hmetadata, ← h.type]
  rfl

end Object

/-! ## Scopes and labels -/

theorem declaredNs_of_ne {ns : String} (h : ns ≠ "") : declaredNs (some ns) = some ns :=
  declaredNs_eq_some_iff.2 ⟨rfl, h⟩

namespace Prepared

variable {t : TypeRef} {declared : Option String} {defaultNs ns : String}

theorem getD_ne (hdefault : defaultNs ≠ "") : (declaredNs declared).getD defaultNs ≠ "" := by
  cases hd : declaredNs declared with
  | none => exact hdefault
  | some ns => exact (declaredNs_eq_some_iff.1 hd).2

/-- No prepared document is in the namespace without a name. -/
theorem nsFor_ne_empty (hdefault : defaultNs ≠ "") (h : nsFor t declared defaultNs = some ns) : ns ≠ "" := by
  unfold nsFor at h
  split at h
  · exact Option.some.inj h ▸ getD_ne hdefault
  · cases h

/-- The namespace of a prepared document declares the scope that it was prepared for. -/
theorem nsFor_nsFor (hdefault : defaultNs ≠ "") :
    nsFor t (nsFor t declared defaultNs) defaultNs = nsFor t declared defaultNs := by
  cases hk : KnownKind.find? t.group t.kind with
  | some k =>
    rw [nsFor_known hk, nsFor_known hk]
    cases k.scope with
    | namespaced =>
      dsimp only
      rw [declaredNs_of_ne (getD_ne hdefault), Option.getD_some]
    | cluster => rfl
  | none =>
    rw [nsFor_unknown hk]
    cases hns : nsFor t declared defaultNs with
    | none => rfl
    | some ns => exact declaredNs_of_ne (nsFor_ne_empty hdefault hns)

section Labels

variable {own : Option (Table String String)} {labels : Table String String}

/-- Of two labels with one name, the one that is added counts. -/
theorem label?_addLabels (own : Option (Table String String)) (hlabels : labels.Sorted) (l : String) :
    ((addLabels own labels).bind fun t => t.find? l) = (labels.find? l).or (own.bind fun t => t.find? l) := by
  unfold addLabels
  cases labels with
  | nil => rfl
  | cons e labels =>
    show Table.find? (Table.union (own.getD []) (e :: labels)) l = _
    rw [Table.find?_union, Table.lookup_reverse hlabels.nodup_keys]
    cases own <;> rfl

theorem sorted_addLabels (hown : ∀ t, own = some t → t.Sorted) {t : Table String String}
    (h : addLabels own labels = some t) : t.Sorted := by
  unfold addLabels at h
  split at h
  · exact hown t h
  · obtain rfl := Option.some.inj h
    refine Table.Sorted.union ?_ labels
    cases own with
    | none => exact .nil
    | some t => exact hown t rfl

/-- Labels that are there already change nothing. -/
theorem addLabels_addLabels (hown : ∀ t, own = some t → t.Sorted) (hlabels : labels.Sorted) :
    addLabels (addLabels own labels) labels = addLabels own labels := by
  have hsome : ∀ own, labels ≠ [] → ∃ t, addLabels own labels = some t := by
    intro own hne
    unfold addLabels
    rw [if_neg (by simpa using hne)]
    exact ⟨_, rfl⟩
  by_cases hempty : labels = []
  · rw [hempty]
    rfl
  · obtain ⟨t, ht⟩ := hsome own hempty
    obtain ⟨u, hu⟩ := hsome (addLabels own labels) hempty
    have ht' := sorted_addLabels hown ht
    have hu' := sorted_addLabels (fun t' h' => sorted_addLabels hown h') hu
    rw [hu, ht, Option.some.injEq]
    refine hu'.ext ht' fun l => ?_
    have hfirst := label?_addLabels own hlabels l
    have hsecond := label?_addLabels (addLabels own labels) hlabels l
    rw [ht, Option.bind_some] at hfirst
    rw [hu, ht, Option.bind_some, Option.bind_some] at hsecond
    rw [hsecond, hfirst]
    cases labels.find? l <;> rfl

end Labels

/-! ## Prepared documents -/

variable {doc : Json} {labels : Table String String} {p : Prepared} {o : Object} {name : String}

/-- What preparing makes of the object that a document is read as. -/
structure Follows (p : Prepared) (o : Object) (labels : Table String String) : Prop where
  key : p.object.key = .ok p.key
  /-- A known kind of the cluster has no namespace. -/
  cluster : ∀ k, KnownKind.find? p.key.type.group p.key.type.kind = some k → k.scope = .cluster → p.key.ns = none
  /-- A known namespaced kind has one with a name, the declared one if that has a name. -/
  namespaced : ∀ k, KnownKind.find? p.key.type.group p.key.type.kind = some k → k.scope = .namespaced →
    ∃ ns, p.key.ns = some ns ∧ ns ≠ "" ∧ ∀ declared, o.metadata.ns = some declared → declared ≠ "" → ns = declared
  /-- An unknown kind has the declared one, if that has a name. -/
  unknown : KnownKind.find? p.key.type.group p.key.type.kind = none →
    ∀ ns, p.key.ns = some ns ↔ o.metadata.ns = some ns ∧ ns ≠ ""
  labels : ∀ l, p.object.metadata.label? l = (labels.find? l).or (o.metadata.label? l)
  annotations : p.object.metadata.annotations = o.metadata.annotations

theorem follows_prepare (hdefault : defaultNs ≠ "") (hlabels : labels.Sorted) (ht : o.type = some t)
    (hname : o.metadata.name = some name) : (prepare o t name defaultNs labels).Follows o labels where
  key := Object.key_eq_ok ht hname
  cluster k hk hscope := by
    replace hk : KnownKind.find? t.group t.kind = some k := hk
    show nsFor t o.metadata.ns defaultNs = none
    rw [nsFor_known hk, hscope]
  namespaced k hk hscope := by
    replace hk : KnownKind.find? t.group t.kind = some k := hk
    refine ⟨(declaredNs o.metadata.ns).getD defaultNs, ?_, getD_ne hdefault, fun declared hdeclared hne => ?_⟩
    · show nsFor t o.metadata.ns defaultNs = _
      rw [nsFor_known hk, hscope]
    · rw [hdeclared, declaredNs_of_ne hne, Option.getD_some]
  unknown hk ns := by
    replace hk : KnownKind.find? t.group t.kind = none := hk
    show nsFor t o.metadata.ns defaultNs = some ns ↔ _
    rw [nsFor_unknown hk, declaredNs_eq_some_iff]
  labels := label?_addLabels _ hlabels
  annotations := rfl

/-- The prepared object as it is in a document, where times are in whole seconds. -/
def written (p : Prepared) : Prepared :=
  { p with object := { p.object with metadata := p.object.metadata.truncateTimes } }

theorem toJson_written (p : Prepared) : p.written.object.toJson = p.object.toJson := by
  unfold written Object.toJson
  dsimp only
  rw [Metadata.toJson_truncateTimes]

/-- What was prepared and written is prepared to itself. -/
theorem prepare_written (hdefault : defaultNs ≠ "") (hown : ∀ t, o.metadata.labels = some t → t.Sorted)
    (hlabels : labels.Sorted) : prepare (prepare o t name defaultNs labels).written.object t name defaultNs labels
      = (prepare o t name defaultNs labels).written := by
  unfold prepare written Metadata.truncateTimes
  dsimp only
  rw [nsFor_nsFor hdefault, addLabels_addLabels hown hlabels]

theorem in_prepare {fields : Json.Fields} (h : o.In t fields) :
    (prepare o t name defaultNs labels).object.In t fields :=
  ⟨h.1, h.2, h.3, h.4⟩

/-- A prepared object is written to a document that is prepared to it, in whole seconds. -/
theorem ofDocument_toJson (hdefault : defaultNs ≠ "") (hdoc : doc.SortedKeys) (hlabels : labels.Sorted)
    (h : ofDocument doc defaultNs labels = .ok p) : ofDocument p.object.toJson defaultNs labels = .ok p.written := by
  obtain ⟨o, t, name, ho, ht, hname, hne, rfl⟩ := ofDocument_eq_ok_iff.1 h
  have hread := Object.ofDocument_eq_ok_iff.1 ho
  have hordered := Object.ordered_of_ofJson? hdoc hread
  obtain ⟨hstorable, fields, rfl, hin⟩ := Object.in_of_ofJson? hread ht
  -- of the metadata only texts change
  have hstorable' : (prepare o t name defaultNs labels).object.metadata.Storable :=
    ⟨hstorable.1, hstorable.2, hstorable.3, hstorable.4, hstorable.5⟩
  exact ofDocument_eq_ok_iff.2 ⟨(prepare o t name defaultNs labels).written.object, t, name,
    Object.ofDocument_eq_ok_iff.2 (Object.ofJson?_toJson (in_prepare hin) hordered.data.1 hstorable'), ht, hname, hne,
    (prepare_written hdefault hordered.labels hlabels).symm⟩

theorem written_eq_self_iff : p.written = p ↔ p.object.metadata.Whole := by
  rw [← Metadata.truncateTimes_eq_self_iff]
  constructor
  · exact fun h => congrArg (fun p => p.object.metadata) h
  · exact fun h => congrArg (fun metadata => { p with object := { p.object with metadata } }) h

/-- A prepared document has the identity of its object, its scope, the labels that are added over its own, and
all its other fields; and the document that it is written to is prepared under the same key, to an object that is
written alike and is the same one exactly when its times are in whole seconds. -/
theorem ofDocument_stable (hdefault : defaultNs ≠ "") (hdoc : doc.SortedKeys) (hlabels : labels.Sorted)
    (h : ofDocument doc defaultNs labels = .ok p) :
    (∃ o, Object.ofDocument doc = .ok o ∧ p.Follows o labels)
      ∧ (∃ fields written, doc = .obj fields ∧ p.object.toJson = .obj written
        ∧ ∀ k, k ≠ "metadata" → Table.find? written k = Table.find? fields k)
      ∧ ofDocument p.object.toJson defaultNs labels = .ok p.written
      ∧ p.written.key = p.key ∧ p.written.object.toJson = p.object.toJson
      ∧ p.written.object.metadata.Whole
      ∧ (ofDocument p.object.toJson defaultNs labels = .ok p ↔ p.object.metadata.Whole) := by
  have hagain := ofDocument_toJson hdefault hdoc hlabels h
  have hsame : ofDocument p.object.toJson defaultNs labels = .ok p ↔ p.object.metadata.Whole := by
    rw [hagain, Except.ok.injEq, written_eq_self_iff]
  obtain ⟨o, t, name, ho, ht, hname, -, rfl⟩ := ofDocument_eq_ok_iff.1 h
  obtain ⟨-, fields, rfl, hin⟩ := Object.in_of_ofJson? (Object.ofDocument_eq_ok_iff.1 ho) ht
  obtain ⟨written, hwritten, hkept⟩ := (in_prepare hin).find?_toJson
  exact ⟨⟨o, ho, follows_prepare hdefault hlabels ht hname⟩, ⟨fields, written, rfl, hwritten, hkept⟩, hagain, rfl,
    toJson_written _, Metadata.whole_truncateTimes _, hsame⟩

/-- A document of a kind that is not known, in a namespace, with a label of its own and the time it was created. -/
def widget (created : String) : Json :=
  .obj [("apiVersion", .str "example.com/v1"), ("kind", .str "Widget"),
    ("metadata", .obj [("creationTimestamp", .str created),
      ("labels", .obj [("app", .str "web"), ("tier", .str "one")]), ("name", .str "w"), ("namespace", .str "ns1")]),
    ("spec", .obj [("size", .str "small")])]

theorem sortedKeys_widget (created : String) : (widget created).SortedKeys := by
  simp only [widget, Json.SortedKeys, Json.SortedValues, Table.Sorted, List.pairwise_cons, List.mem_cons,
    List.not_mem_nil, or_false, forall_eq_or_imp, forall_eq, IsEmpty.forall_iff, implies_true, List.Pairwise.nil,
    and_true, true_and]
  decide

/-- The widget as it is prepared with another tier. -/
def otherTier (created : Instant) : Prepared where
  object := {
    type := some ⟨"example.com/v1", "Widget"⟩
    metadata := {
      creationTimestamp := some created
      labels := some [("app", "web"), ("tier", "two")]
      name := some "w"
      ns := some "ns1" }
    data := [("spec", .obj [("size", .str "small")])] }
  key := ⟨⟨"example.com/v1", "Widget"⟩, some "ns1", "w"⟩

/-- The widget was created at the start of a year, or half a second later. -/
theorem ofDocument_widget :
    ofDocument (widget "2024-01-01T00:00:00Z") "addons" [("tier", "two")] = .ok (otherTier ⟨1704067200, 0⟩)
      ∧ ofDocument (widget "2024-01-01T00:00:00.5Z") "addons" [("tier", "two")]
        = .ok (otherTier ⟨1704067200, 500000000⟩) :=
  ⟨rfl, rfl⟩

/-- The widget stays in its namespace and its tier is overwritten. Preparing it again changes nothing when it was
created at the start of a second; else it was then created at the start of its second. -/
theorem widget_prepared_again :
    (ofDocument (widget "2024-01-01T00:00:00Z") "addons" [("tier", "two")] = .ok (otherTier ⟨1704067200, 0⟩)
      ∧ ofDocument (otherTier ⟨1704067200, 0⟩).object.toJson "addons" [("tier", "two")]
        = .ok (otherTier ⟨1704067200, 0⟩))
    ∧ ofDocument (widget "2024-01-01T00:00:00.5Z") "addons" [("tier", "two")]
        = .ok (otherTier ⟨1704067200, 500000000⟩)
      ∧ ofDocument (otherTier ⟨1704067200, 500000000⟩).object.toJson "addons" [("tier", "two")]
        = .ok (otherTier ⟨1704067200, 0⟩) := by
  obtain ⟨hwhole, hhalf⟩ := ofDocument_widget
  obtain ⟨-, -, -, -, -, -, hsame⟩ :=
    ofDocument_stable (by decide) (sortedKeys_widget _) (List.pairwise_singleton _ _) hwhole
  obtain ⟨-, -, hcut, -⟩ :=
    ofDocument_stable (by decide) (sortedKeys_widget _) (List.pairwise_singleton _ _) hhalf
  exact ⟨⟨hwhole, hsame.2 ⟨by simp [otherTier, Instant.Whole], by simp [otherTier], by simp [otherTier]⟩⟩, hhalf, hcut⟩

/-- A widget that was created within a second is not prepared again to the same object. -/
theorem half_second_lost : ∃ p again, ofDocument (widget "2024-01-01T00:00:00.5Z") "addons" [("tier", "two")] = .ok p
    ∧ ofDocument p.object.toJson "addons" [("tier", "two")] = .ok again ∧ again.key = p.key
    ∧ again.object.metadata.creationTimestamp ≠ p.object.metadata.creationTimestamp := by
  have hagain := ofDocument_toJson (by decide) (sortedKeys_widget _) (List.pairwise_singleton _ _) ofDocument_widget.2
  exact ⟨_, _, ofDocument_widget.2, hagain, rfl, by decide⟩

end Prepared

end Addons
