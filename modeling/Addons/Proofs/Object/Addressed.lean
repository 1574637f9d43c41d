import Addons.Proofs.Object.Prepared
import Addons.Proofs.Store.Filed

/-!
# Keys and what is tracked of them

A key is tracked without loss, and two keys lead to one object exactly if what is tracked of them has one identity
(`Key.addressed_iff_tracked`), under whatever versions of an API they were written. Both rest on the group that an
API version names: it is what stands before the last slash (`NamesGroup`), and all that derive a group from an API
version go by it (`SharedGroup`).
-/

namespace Addons

/-! ## The group of an API version -/

/-- An API version names a group and a version, which stand before and after its last slash. One without a slash
names a version of the core group. -/
inductive NamesGroup : String → String → String → Prop
  | core {version : String} : '/' ∉ version.toList → NamesGroup version "" version
  | named (group : String) {version : String} : '/' ∉ version.toList →
      NamesGroup (group ++ "/" ++ version) group version

variable {apiVersion group version : String}

theorem toList_slashed (group version : String) :
    (group ++ "/" ++ version).toList = group.toList ++ '/' :: version.toList := by
  simp [String.toList_append]

/-- What an API version is split into is what it names. -/
theorem splitApiVersion_eq_iff :
    splitApiVersion apiVersion = (group, version) ↔ NamesGroup apiVersion group version := by
  constructor
  · intro h
    unfold splitApiVersion at h
    cases hsplit : Text.splitLast? '/' apiVersion.toList with
    | none =>
      rw [hsplit] at h
      obtain ⟨rfl, rfl⟩ := Prod.mk.inj h
      exact .core (Text.splitLast?_eq_none_iff.1 hsplit)
    | some parts =>
      obtain ⟨before, after⟩ := parts
      rw [hsplit] at h
      obtain ⟨rfl, rfl⟩ := Prod.mk.inj h
      obtain ⟨hlist, hafter⟩ := Text.splitLast?_eq_some hsplit
      have hversion : apiVersion = String.ofList before ++ "/" ++ String.ofList after := by
        apply String.toList_injective
        rw [toList_slashed, String.toList_ofList, String.toList_ofList, hlist]
      rw [hversion]
      exact .named _ (by rwa [String.toList_ofList])
  · intro h
    cases h with
    | core hversion => simp [splitApiVersion, Text.splitLast?_eq_none_iff.2 hversion]
    | named _ hversion => simp [splitApiVersion, Text.splitLast?_append _ hversion]

/-- A group and a version are those that all go by that derive them from an API version: its types, what is tracked
of its objects, the slots of its keys, and the scope that its documents are prepared for. -/
structure SharedGroup (apiVersion group version : String) : Prop where
  names : NamesGroup apiVersion group version
  type : ∀ kind, (TypeRef.mk apiVersion kind).group = group ∧ (TypeRef.mk apiVersion kind).version = version
  tracked : ∀ kind name ns, (Tracked.new apiVersion kind name ns).group = group
  slot : ∀ kind ns name, (Key.mk ⟨apiVersion, kind⟩ ns name).slot.group = group
  prepared : ∀ {doc defaultNs labels p}, Prepared.ofDocument doc defaultNs labels = .ok p →
    p.key.type.apiVersion = apiVersion → ∃ o, Object.ofDocument doc = .ok o
      ∧ p.key.ns = match Scope.of group p.key.type.kind o.metadata.ns with
        | .namespaced => some ((declaredNs o.metadata.ns).getD defaultNs)
        | .cluster => none

theorem sharedGroup_of_names (h : NamesGroup apiVersion group version) :
    SharedGroup apiVersion group version := by
  have hsplit := splitApiVersion_eq_iff.2 h
  have hgroup : (splitApiVersion apiVersion).1 = group := by rw [hsplit]
  have hversion : (splitApiVersion apiVersion).2 = version := by rw [hsplit]
  refine ⟨h, fun kind => ⟨hgroup, hversion⟩, fun kind name ns => hgroup, fun kind ns name => hgroup, ?_⟩
  intro doc defaultNs labels p hp hapi
  obtain ⟨o, t, name, ho, -, -, -, rfl⟩ := Prepared.ofDocument_eq_ok_iff.1 hp
  have ht : t.group = group := by
    show (splitApiVersion t.apiVersion).1 = group
    rw [show t.apiVersion = apiVersion from hapi, hgroup]
  refine ⟨o, ho, ?_⟩
  show Prepared.nsFor t o.metadata.ns defaultNs = _
  unfold Prepared.nsFor
  rw [ht]
  rfl

/-- There is one group and one version that an API version stands for, whatever its slashes. -/
theorem existsUnique_sharedGroup (apiVersion : String) :
    ∃! names : String × String, SharedGroup apiVersion names.1 names.2 := by
  refine ⟨splitApiVersion apiVersion, sharedGroup_of_names (splitApiVersion_eq_iff.1 rfl), ?_⟩
  intro names h
  exact (splitApiVersion_eq_iff.2 h.names).symm

/-! ## Keys -/

namespace Key

variable {k l : Key}

theorem ofTracked_tracked (k : Key) : ofTracked k.tracked = k := rfl

theorem slot_eq_iff_sameIdentity (hk : k.ns ≠ some "") (hl : l.ns ≠ some "") :
    k.slot = l.slot ↔ k.tracked.sameIdentity l.tracked := by
  rw [Tracked.sameIdentity_iff]
  show Slot.mk _ _ _ _ = Slot.mk _ _ _ _ ↔ k.type.group = l.type.group ∧ k.type.kind = l.type.kind
    ∧ k.name = l.name ∧ k.ns = l.ns
  rw [Slot.mk.injEq, getD_empty_inj hk hl]
  tauto

/-- An object that has nothing but a key and a version. -/
def bare (k : Key) : Object :=
  ⟨some k.type, { name := some k.name, ns := k.ns, resourceVersion := some (Memory.versionText 1) }, []⟩

/-- A store with one object, which a key leads to. -/
def lone (k : Key) : Memory := { objects := [(k.slot, k.bare)], version := 1, now := default }

theorem filed_lone (k : Key) : k.lone.Filed where
  sorted := List.pairwise_singleton _ _
  slot := by
    intro e he
    obtain rfl := List.mem_singleton.1 he
    exact ⟨k, rfl, rfl⟩
  dated := by
    intro e he
    obtain rfl := List.mem_singleton.1 he
    exact ⟨1, le_rfl, rfl⟩

/-- Two keys lead to the same object in every store exactly if they have one slot. -/
theorem object?_eq_iff_slot : (∀ m : Memory, m.Filed → m.object? k = m.object? l) ↔ k.slot = l.slot := by
  constructor
  · intro h
    have hfound : l.lone.objects.find? k.slot = some l.bare :=
      (h l.lone (filed_lone l)).trans (Table.find?_insert_self l.slot l.bare [])
    have hmem := (filed_lone l).mem_iff.2 hfound
    exact congrArg Prod.fst (List.mem_singleton.1 hmem)
  · intro h m _
    unfold Memory.object?
    rw [h]

/-- What is tracked of keys tells them apart exactly where the store does, and loses nothing of them. -/
theorem addressed_iff_tracked (hk : k.ns ≠ some "") (hl : l.ns ≠ some "") :
    ofTracked k.tracked = k
      ∧ (k.slot = l.slot ↔ k.tracked.sameIdentity l.tracked)
      ∧ ((∀ m : Memory, m.Filed → m.object? k = m.object? l) ↔ k.tracked.sameIdentity l.tracked)
      ∧ ∀ apiVersion, ∃! names : String × String, SharedGroup apiVersion names.1 names.2 :=
  ⟨ofTracked_tracked k, slot_eq_iff_sameIdentity hk hl,
    object?_eq_iff_slot.trans (slot_eq_iff_sameIdentity hk hl), existsUnique_sharedGroup⟩

section Till

def till : Key := ⟨⟨"shop.example.com/floor/v1", "Till"⟩, some "shop", "front"⟩

/-- The same object under another version of its API. -/
def laterTill : Key := ⟨⟨"shop.example.com/floor/v2beta1", "Till"⟩, some "shop", "front"⟩

/-- A version with several slashes belongs to the group before the last of them. -/
theorem tills_tracked_alike :
    till.ns ≠ some "" ∧ laterTill.ns ≠ some "" ∧ till ≠ laterTill
      ∧ ofTracked till.tracked = till ∧ till.slot = laterTill.slot
      ∧ till.tracked.sameIdentity laterTill.tracked ∧ till.tracked ≠ laterTill.tracked
      ∧ till.tracked.group = "shop.example.com/floor" := by
  have hns : till.ns ≠ some "" := by decide
  have hlater : laterTill.ns ≠ some "" := by decide
  obtain ⟨hback, hslot, -, -⟩ := addressed_iff_tracked hns hlater
  have hsame : till.slot = laterTill.slot := by decide
  exact ⟨hns, hlater, by decide, hback, hsame, hslot.1 hsame, by decide, by decide⟩

/-- The namespace without a name is kept where no namespace is, and tracked apart from it. -/
example : (Key.mk till.type none "front").slot = (Key.mk till.type (some "") "front").slot
    ∧ ¬(Key.mk till.type none "front").tracked.sameIdentity (Key.mk till.type (some "") "front").tracked := by
  decide

end Till

end Key

end Addons
