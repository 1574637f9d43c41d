import Addons.Object.Applied
import Addons.Object.Prepare
import Addons.Store.Memory

/-!
# Identities and places

Two tracked objects are the same object exactly when the store keeps them in the same place
(`Tracked.slot_eq_iff`). That holds of identities whose group is that of their API version and whose
namespace follows the scope of their kind (`Tracked.Placed`), as those of prepared documents do. What a document is
prepared to is said once, in `Prepared.ofDocument_eq_ok_iff`.
-/

namespace Addons

theorem of_bind_eq_ok {ε α β : Type} {x : Except ε α} {f : α → Except ε β} {b : β}
    (h : x >>= f = .ok b) : ∃ a, x = .ok a ∧ f a = .ok b := by
  cases x with
  | error e => cases h
  | ok a => exact ⟨a, rfl, h⟩

theorem ok_of_toOption {ε α : Type} {x : Except ε α} {a : α} (h : x.toOption = some a) : x = .ok a := by
  cases x with
  | error e => cases h
  | ok a' => exact congrArg Except.ok (Option.some.inj h)

theorem ok_of_any {ε α : Type} {x : Except ε α} {check : α → Bool} (h : x.toOption.any check = true) :
    ∃ a, x = .ok a ∧ check a = true := by
  cases x with
  | error e => cases h
  | ok a => exact ⟨a, rfl, h⟩

/-- No two namespaces are mixed up where an absent one is written as the empty text, unless one of them is empty. -/
theorem getD_empty_inj {a b : Option String} (ha : a ≠ some "") (hb : b ≠ some "") :
    a.getD "" = b.getD "" ↔ a = b := by
  cases a <;> cases b <;> simp_all [eq_comm]

namespace Tracked

variable {t u v : Tracked}

theorem sameIdentity_iff :
    t.sameIdentity u ↔ t.group = u.group ∧ t.kind = u.kind ∧ t.name = u.name ∧ t.ns = u.ns := by
  unfold sameIdentity
  rw [Bool.and_eq_true, Bool.and_eq_true, Bool.and_eq_true, decide_eq_true_iff, decide_eq_true_iff,
    decide_eq_true_iff, decide_eq_true_iff, and_assoc, and_assoc]

theorem sameIdentity_refl (t : Tracked) : t.sameIdentity t := sameIdentity_iff.2 ⟨rfl, rfl, rfl, rfl⟩

theorem sameIdentity_symm (h : t.sameIdentity u) : u.sameIdentity t := by
  obtain ⟨hg, hk, hn, hs⟩ := sameIdentity_iff.1 h
  exact sameIdentity_iff.2 ⟨hg.symm, hk.symm, hn.symm, hs.symm⟩

theorem sameIdentity_comm (t u : Tracked) : t.sameIdentity u = u.sameIdentity t :=
  Bool.eq_iff_iff.2 ⟨sameIdentity_symm, sameIdentity_symm⟩

theorem sameIdentity_trans (h : t.sameIdentity u) (h' : u.sameIdentity v) : t.sameIdentity v := by
  obtain ⟨hg, hk, hn, hs⟩ := sameIdentity_iff.1 h
  obtain ⟨hg', hk', hn', hs'⟩ := sameIdentity_iff.1 h'
  exact sameIdentity_iff.2 ⟨hg.trans hg', hk.trans hk', hn.trans hn', hs.trans hs'⟩

/-- One object has the same identity as all that another has it with. -/
theorem sameIdentity_congr (h : t.sameIdentity u) : t.sameIdentity = u.sameIdentity :=
  funext fun _ => Bool.eq_iff_iff.2
    ⟨sameIdentity_trans (sameIdentity_symm h), sameIdentity_trans h⟩

theorem sameIdentity_congr_right (h : t.sameIdentity u) (v : Tracked) :
    v.sameIdentity t = v.sameIdentity u := by
  rw [sameIdentity_comm v t, sameIdentity_comm v u, sameIdentity_congr h]

/-- Where the object is kept. -/
def slot (t : Tracked) : Slot := (Key.ofTracked t).slot

/-- The group is that of the API version, and the namespace follows the scope of the kind. -/
structure Placed (t : Tracked) : Prop where
  group : t.group = (splitApiVersion t.apiVersion).1
  known : ∀ k, KnownKind.find? t.group t.kind = some k → (t.ns.isSome ↔ k.scope = .namespaced)
  unknown : KnownKind.find? t.group t.kind = none → t.ns ≠ some ""

theorem slot_eq_of_sameIdentity (ht : t.Placed) (hu : u.Placed) (h : t.sameIdentity u) :
    t.slot = u.slot := by
  obtain ⟨hg, hk, hn, hs⟩ := sameIdentity_iff.1 h
  have hgroup : (splitApiVersion t.apiVersion).1 = (splitApiVersion u.apiVersion).1 := by
    rw [← ht.group, ← hu.group, hg]
  show Slot.mk (splitApiVersion t.apiVersion).1 t.kind (t.ns.getD "") t.name
    = Slot.mk (splitApiVersion u.apiVersion).1 u.kind (u.ns.getD "") u.name
  rw [hgroup, hk, hn, hs]

/-- The namespace is not lost where an object is kept: one that is empty, and none, are of different
scopes. -/
theorem ns_eq_of_slot (ht : t.Placed) (hu : u.Placed) (hg : t.group = u.group) (hk : t.kind = u.kind)
    (hs : t.ns.getD "" = u.ns.getD "") : t.ns = u.ns := by
  -- of two kinds that are the same, both are namespaced or none is, unless the kind is not known
  have hsome : t.ns ≠ some "" ∧ u.ns ≠ some "" ∨ (t.ns.isSome ↔ u.ns.isSome) := by
    cases hf : KnownKind.find? t.group t.kind with
    | some k => exact .inr ((ht.known k hf).trans (hu.known k (hg ▸ hk ▸ hf)).symm)
    | none => exact .inl ⟨ht.unknown hf, hu.unknown (hg ▸ hk ▸ hf)⟩
  obtain ⟨htne, hune⟩ | hboth := hsome
  · exact (getD_empty_inj htne hune).1 hs
  · cases hta : t.ns <;> cases hua : u.ns <;> simp_all

/-- Objects are the same exactly if they are kept in the same place. -/
theorem slot_eq_iff (ht : t.Placed) (hu : u.Placed) : t.slot = u.slot ↔ t.sameIdentity u := by
  refine ⟨fun h => ?_, slot_eq_of_sameIdentity ht hu⟩
  obtain ⟨hg, hk, hs, hn⟩ := Slot.mk.inj h
  have hgroup : t.group = u.group := by
    rw [ht.group, hu.group]
    exact hg
  exact sameIdentity_iff.2 ⟨hgroup, hk, hn, ns_eq_of_slot ht hu hgroup hk hs⟩

end Tracked

/-! ## Prepared documents -/

theorem Object.key_eq_ok {o : Object} {t : TypeRef} {name : String} (ht : o.type = some t)
    (hn : o.metadata.name = some name) : o.key = .ok ⟨t, o.metadata.ns, name⟩ := by
  unfold Object.key
  rw [ht]
  dsimp only
  rw [hn]

theorem Object.of_key_eq_ok {o : Object} {k : Key} (h : o.key = .ok k) :
    o.type = some k.type ∧ o.metadata.name = some k.name ∧ o.metadata.ns = k.ns := by
  unfold key at h
  split at h
  · cases h
  · rename_i t ht
    split at h
    · cases h
    · rename_i name hn
      obtain rfl := Except.ok.inj h
      exact ⟨ht, hn, rfl⟩

/-- A live object has the type, the fields and the labels of a prepared one. -/
structure Object.Carries (live : Object) (p : Prepared) : Prop where
  type : live.type = p.object.type
  data : live.data = p.object.data
  labels : live.metadata.labels = p.object.metadata.labels

theorem declaredNs_eq_some_iff {declared : Option String} {ns : String} :
    declaredNs declared = some ns ↔ declared = some ns ∧ ns ≠ "" := by
  unfold declaredNs
  rw [Option.filter_eq_some_iff]
  simp

namespace Prepared

/-- A document as it was prepared: its type and fields are kept, labels are added. -/
structure Of (doc : Json) (labels : Table String String) (p : Prepared) : Prop where
  document : ∃ o, Object.ofDocument doc = .ok o ∧ p.object.type = o.type ∧ p.object.data = o.data
    ∧ p.object.metadata.labels = addLabels o.metadata.labels labels
  key : p.object.key = .ok p.key
  placed : p.tracked.Placed

theorem slot_tracked (p : Prepared) : p.tracked.slot = p.key.slot := rfl

variable {t : TypeRef} {declared : Option String} {doc : Json} {defaultNs : String} {labels : Table String String}
  {p : Prepared}

/-- The namespace of a prepared document, by its kind and the namespace that it declares. -/
def nsFor (t : TypeRef) (declared : Option String) (defaultNs : String) : Option String :=
  match Scope.of t.group t.kind declared with
  | .namespaced => some ((declaredNs declared).getD defaultNs)
  | .cluster => none

theorem nsFor_known {k : KnownKind} (hk : KnownKind.find? t.group t.kind = some k) : nsFor t declared defaultNs =
    match k.scope with
    | .namespaced => some ((declaredNs declared).getD defaultNs)
    | .cluster => none := by
  unfold nsFor Scope.of
  rw [hk]

theorem nsFor_unknown (hk : KnownKind.find? t.group t.kind = none) :
    nsFor t declared defaultNs = declaredNs declared := by
  unfold nsFor Scope.of
  rw [hk]
  cases declaredNs declared <;> rfl

/-- The namespace that a document is given follows the scope of its kind. -/
theorem placed_nsFor (name : String) :
    (Tracked.new t.apiVersion t.kind name (nsFor t declared defaultNs)).Placed := by
  refine ⟨rfl, fun k hk => ?_, fun hk h => ?_⟩
  · show (nsFor t declared defaultNs).isSome ↔ _
    rw [nsFor_known hk]
    cases k.scope <;> simp
  · have hns : declaredNs declared = some "" := (nsFor_unknown hk).symm.trans h
    exact (declaredNs_eq_some_iff.1 hns).2 rfl

/-- An object as it is prepared. -/
def prepare (o : Object) (t : TypeRef) (name defaultNs : String) (labels : Table String String) : Prepared where
  object := { o with metadata := { o.metadata with
    ns := nsFor t o.metadata.ns defaultNs, labels := addLabels o.metadata.labels labels } }
  key := ⟨t, nsFor t o.metadata.ns defaultNs, name⟩

theorem ofDocument_eq_ok_iff : ofDocument doc defaultNs labels = .ok p ↔ ∃ o t name, Object.ofDocument doc = .ok o
    ∧ o.type = some t ∧ o.metadata.name = some name ∧ name ≠ "" ∧ p = prepare o t name defaultNs labels := by
  constructor
  · intro h
    unfold ofDocument at h
    obtain ⟨o, ho, h⟩ := of_bind_eq_ok h
    split at h
    case h_1 => cases h
    case h_2 t ht =>
      split at h
      case h_1 => cases h
      case h_2 name hname =>
        obtain ⟨hname, hne⟩ := Option.filter_eq_some_iff.1 hname
        exact ⟨o, t, name, ho, ht, hname, by simpa using hne, (Except.ok.inj h).symm⟩
  · rintro ⟨o, t, name, ho, ht, hname, hne, rfl⟩
    have hfilter : o.metadata.name.filter (fun s => !s.isEmpty) = some name :=
      Option.filter_eq_some_iff.2 ⟨hname, by simpa using hne⟩
    unfold ofDocument
    rw [ho]
    dsimp only [bind, Except.bind]
    rw [ht]
    dsimp only
    rw [hfilter]
    unfold prepare
    rw [ht]
    rfl

theorem ofDocument_of (h : ofDocument doc defaultNs labels = .ok p) : p.Of doc labels := by
  obtain ⟨o, t, name, ho, ht, hname, -, rfl⟩ := ofDocument_eq_ok_iff.1 h
  exact ⟨⟨o, ho, rfl, rfl, rfl⟩, Object.key_eq_ok ht hname, placed_nsFor name⟩

end Prepared

end Addons
