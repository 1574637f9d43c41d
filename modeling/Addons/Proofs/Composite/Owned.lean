import Addons.Composite.Reconcile
import Addons.Proofs.Json.Same
import Addons.Proofs.Object.Selecting
import Addons.Proofs.Store.Filed

/-!
# The components of an owner

An owner whose name and namespace a selector leaves as they are selects what carries its labels
(`Owner.selects_iff`). A live component stands for an entry when it is what the entry declares
(`Reconcile.StandsFor`), and it is then among the components of the owner.
-/

namespace Addons

theorem Object.anyName_of_key {o : Object} {k : Key} (h : o.key = .ok k) : o.anyName = k.name := by
  unfold anyName
  rw [(of_key_eq_ok h).2.1]
  rfl

namespace Memory.Filed

variable {m : Memory} {s : Slot} {o : Object}

/-- A live object has the name that its slot says. -/
theorem anyName_of_find? (hm : m.Filed) (h : m.objects.find? s = some o) : o.anyName = s.name := by
  obtain ⟨k, hk, rfl⟩ := hm.key_of_find? h
  exact Object.anyName_of_key hk

/-- A live object that says its namespace is in a slot of that namespace. -/
theorem ns_of_find? {ns : String} (hm : m.Filed) (h : m.objects.find? s = some o)
    (hns : o.metadata.ns = some ns) : s.ns = ns := by
  obtain ⟨k, hk, rfl⟩ := hm.key_of_find? h
  show k.ns.getD "" = ns
  rw [← (Object.of_key_eq_ok hk).2.2, hns]
  rfl

end Memory.Filed

namespace Owner

/-- A selector leaves the name and the namespace of an owner as they are. -/
structure Legible (o : Owner) : Prop where
  name : Selector.Plain o.name
  ns : Selector.Plain o.ns

/-- A selector leaves the name and the namespace of an owner as they are, and it has a namespace. -/
structure Plain (o : Owner) : Prop where
  name : Selector.Plain o.name
  ns : Selector.Plain o.ns
  ns_ne : o.ns ≠ ""

theorem Plain.legible {o : Owner} (h : o.Plain) : o.Legible := ⟨h.name, h.ns⟩

theorem labels_eq (o : Owner) :
    o.labels = [(managedByLabel, managedBy), (ownerNameLabel, o.name), (ownerNamespaceLabel, o.ns)] := by
  have h₁ : ¬ownerNameLabel = managedByLabel ∧ ¬ownerNameLabel < managedByLabel := by decide
  have h₂ : ¬ownerNamespaceLabel = managedByLabel ∧ ¬ownerNamespaceLabel < managedByLabel := by decide
  have h₃ : ¬ownerNamespaceLabel = ownerNameLabel ∧ ¬ownerNamespaceLabel < ownerNameLabel := by decide
  simp only [labels, Table.ofList, List.foldl_cons, List.foldl_nil, Table.insert, h₁, h₂, h₃, if_false]

variable {o first second : Owner}

/-- A selector can spell the labels of an owner. -/
theorem Legible.spelled (h : o.Legible) : ∀ l ∈ o.labels, Selector.Spelled l := by
  have hkeys : ∀ key ∈ [managedByLabel, ownerNameLabel, ownerNamespaceLabel],
      '=' ∉ key.toList ∧ Selector.Plain key := by
    simp only [List.forall_mem_cons]
    refine ⟨⟨?_, ⟨?_, ?_⟩⟩, ⟨?_, ⟨?_, ?_⟩⟩, ⟨?_, ⟨?_, ?_⟩⟩, fun _ h => nomatch h⟩ <;> decide
  have hby : Selector.Plain managedBy := ⟨by decide, by decide⟩
  rw [labels_eq]
  simp only [List.forall_mem_cons] at hkeys ⊢
  obtain ⟨⟨e₁, h₁⟩, ⟨e₂, h₂⟩, ⟨e₃, h₃⟩, -⟩ := hkeys
  exact ⟨.of_plain e₁ h₁ hby, .of_plain e₂ h₂ h.name, .of_plain e₃ h₃ h.ns, fun _ h => nomatch h⟩

theorem selects_iff (h : o.Legible) {m : Metadata} :
    Selector.selects o.selector m ↔ ∀ l ∈ o.labels, m.label? l.1 = some l.2 :=
  Selector.selects_ofLabels h.spelled

/-- What carries the labels of two owners shows that they are one. -/
theorem eq_of_labelled {m : Metadata} (h : ∀ l ∈ first.labels, m.label? l.1 = some l.2)
    (h' : ∀ l ∈ second.labels, m.label? l.1 = some l.2) : first = second := by
  rw [labels_eq] at h h'
  simp only [List.forall_mem_cons] at h h'
  obtain ⟨-, hname, hns, -⟩ := h
  obtain ⟨-, hname', hns', -⟩ := h'
  obtain ⟨name, ns⟩ := first
  obtain ⟨name', ns'⟩ := second
  obtain rfl := Option.some.inj (hname.symm.trans hname')
  obtain rfl := Option.some.inj (hns.symm.trans hns')
  rfl

theorem targetNs_ne {π : Type} (h : o.Plain) (e : Entry π) : o.targetNs e ≠ "" := by
  unfold targetNs
  split
  · exact h.ns_ne
  · rename_i hne
    rw [Bool.or_eq_true, not_or, String.isEmpty_iff] at hne
    exact hne.2

end Owner

namespace Reconcile

variable {π σ : Type} (k : ComponentKind π σ) (owner : Owner)

/-- Where the component of an entry is kept. -/
def place (e : Entry π) : Slot := (keyOf k owner e).slot

/-- Where the namespace of an entry is kept. -/
def homeOf (e : Entry π) : Slot := (Session.namespaceKey (owner.targetNs e)).slot

/-- The components of a kind that the selector of an owner asks for. -/
def components (m : Memory) : List Object := m.listing k.resource.type none (some owner.selector)

/-- An object in a slot is a component of the owner. -/
def Owned (s : Slot) (o : Object) : Prop :=
  s.group = k.resource.type.group ∧ s.kind = k.resource.kind
    ∧ ∀ l ∈ owner.labels, o.metadata.label? l.1 = some l.2

/-- A live object is at the place that an entry asks for, has the labels of its owner, and the specification
that the entry declares. -/
structure StandsFor (e : Entry π) (o : Object) : Prop where
  ns : o.metadata.ns = some (owner.targetNs e)
  name : o.metadata.name = some e.name
  labels : ∀ l ∈ owner.labels, o.metadata.label? l.1 = some l.2
  spec : ∃ spec, Table.find? o.data "spec" = some spec ∧ (k.resource.writeSpec (k.specOf e)).same spec

variable {k owner} {e e' : Entry π} {m : Memory} {s : Slot} {o : Object}

theorem place_eq (e : Entry π) :
    place k owner e = ⟨k.resource.type.group, k.resource.kind, owner.targetNs e, e.name⟩ := rfl

/-- A component that has the name and the namespace of an entry is at its place. -/
theorem Owned.eq_place (h : Owned k owner s o) (hname : s.name = e.name) (hns : s.ns = owner.targetNs e) :
    s = place k owner e := by
  rw [place_eq, ← h.1, ← h.2.1, ← hns, ← hname]

theorem place_ne (h : e.name ≠ e'.name) : place k owner e ≠ place k owner e' :=
  fun hp => h (Slot.mk.inj hp).2.2.2

/-- Entries of different names ask for different places. -/
theorem nodup_places {entries : List (Entry π)} (h : (entries.map Entry.name).Nodup) :
    (entries.map (place k owner)).Nodup := by
  refine List.Nodup.of_map Slot.name ?_
  rw [List.map_map]
  exact h

/-- A component is no namespace, whatever its kind is called. -/
theorem ne_namespace {ns : String} (h : s.group = k.resource.type.group) :
    s ≠ (Session.namespaceKey ns).slot := by
  have hgroup : Session.namespaceType.group ≠ (splitApiVersion apiVersion).1 := by decide
  rintro rfl
  have hsame : (Session.namespaceKey ns).type.group = k.resource.type.group := h
  exact hgroup hsame

theorem listed_iff (ho : owner.Legible) :
    Memory.listed k.resource.type none (some owner.selector) s o ↔ Owned k owner s o := by
  unfold Memory.listed Owned
  rw [Option.all_none, Option.all_some, Bool.and_true, Bool.and_eq_true, Bool.and_eq_true,
    decide_eq_true_iff, decide_eq_true_iff, Owner.selects_iff ho, and_assoc]
  rfl

theorem mem_components (ho : owner.Legible) (hm : m.Filed) :
    o ∈ components k owner m ↔ ∃ s, m.objects.find? s = some o ∧ Owned k owner s o :=
  hm.mem_listing.trans (exists_congr fun _ => and_congr_right fun _ => listed_iff ho)

theorem StandsFor.owned (h : StandsFor k owner e o) : Owned k owner (place k owner e) o :=
  ⟨rfl, rfl, h.labels⟩

/-! ## What is written for an entry -/

theorem key_materialize (e : Entry π) : (materialize k owner e).key = .ok (keyOf k owner e) := rfl

theorem label?_of_labels {d : Metadata} (h : d.labels = some owner.labels) :
    ∀ l ∈ owner.labels, d.label? l.1 = some l.2 := by
  intro l hl
  unfold Metadata.label?
  rw [h]
  refine Table.find?_of_mem ?_ hl
  rw [Owner.labels_eq]
  exact (by decide : [managedByLabel, ownerNameLabel, ownerNamespaceLabel].Nodup)

/-- What the store keeps of what an entry declares stands for the entry, whatever else is taken over from an
object that it replaces. -/
theorem standsFor_of_written {desired stored : Object} (hs : stored.unstamped = desired.unstamped)
    (hd : desired = materialize k owner e ∨ ∃ live, desired = (materialize k owner e).adopt live) :
    StandsFor k owner e stored := by
  have hdata : stored.data = [("spec", k.resource.writeSpec (k.specOf e))] := by
    rw [Object.data_of_unstamped hs]
    obtain rfl | ⟨live, rfl⟩ := hd <;> rfl
  have hns : desired.metadata.ns = some (owner.targetNs e) := by
    obtain rfl | ⟨live, rfl⟩ := hd <;> rfl
  have hname : desired.metadata.name = some e.name := by
    obtain rfl | ⟨live, rfl⟩ := hd <;> rfl
  have hlabels : desired.metadata.labels = some owner.labels := by
    obtain rfl | ⟨live, rfl⟩ := hd <;> rfl
  refine ⟨(Object.ns_of_unstamped hs).trans hns, (Object.name_of_unstamped hs).trans hname,
    label?_of_labels ((Object.labels_of_unstamped hs).trans hlabels), _, ?_, Json.same_refl _⟩
  rw [hdata]
  rfl

/-- A declared specification is found to be the live one if there is one and it is the same. -/
theorem sameSpec_some_iff {spec : Json} {live : Option Json} :
    sameSpec (some spec) live ↔ ∃ spec', live = some spec' ∧ spec.same spec' := by
  cases live <;> simp [sameSpec]

/-- A component that is current stands for its entry. -/
theorem standsFor_of_current {live : Object} (hns : live.metadata.ns = some (owner.targetNs e))
    (hname : live.metadata.name = some e.name) (h : isCurrent (materialize k owner e) live) :
    StandsFor k owner e live := by
  unfold isCurrent at h
  rw [Bool.and_eq_true, List.all_eq_true] at h
  exact ⟨hns, hname, fun l hl => of_decide_eq_true (h.1 l hl), sameSpec_some_iff.1 h.2⟩

end Reconcile

end Addons
