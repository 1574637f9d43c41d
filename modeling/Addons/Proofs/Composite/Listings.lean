import Addons.Proofs.Composite.Owned

/-!
# What a listing by labels answers

A listing with the selector of a label map answers the stored objects of the kind that carry all of the labels, and
no others (`Memory.list_ofLabels`), for every map that the selector can spell. No object is in the listings of two
owners (`Owner.disjoint_listings`).
-/

namespace Addons

variable {m m' : Memory} {t t' : TypeRef} {ns ns' : Option String} {labels : Table String String}

namespace Memory

/-- The stored objects of a group and a kind that carry labels, in one namespace or in all, in the order they are
kept. -/
def carriers (m : Memory) (t : TypeRef) (ns : Option String) (labels : Table String String) : List Object :=
  (m.objects.filter fun e => e.1.group = t.group ∧ e.1.kind = t.kind ∧ (∀ n ∈ ns, n = e.1.ns)
    ∧ ∀ l ∈ labels, e.2.metadata.label? l.1 = some l.2).map Prod.snd

/-- A listing answers the objects that it asks for, unless it is to fail. -/
theorem list_eq (m : Memory) (t : TypeRef) (ns sel : Option String) : (m.list t ns sel).1 =
    if (.list, t.kind) ∈ m.failures then .error (.timeout "injected") else .ok (m.listing t ns sel) := by
  by_cases h : (Verb.list, t.kind) ∈ m.failures <;> simp [list, request, takeFailure, h, listing]

theorem listing_ofLabels (h : ∀ l ∈ labels, Selector.Spelled l) :
    m.listing t ns (some (Selector.ofLabels labels)) = m.carriers t ns labels := by
  unfold listing carriers
  congr 2
  funext e
  rw [Bool.eq_iff_iff, decide_eq_true_iff, listed, Option.all_some, Bool.and_eq_true, Selector.selects_ofLabels h]
  cases ns <;> simp [and_assoc]

theorem list_ofLabels (h : ∀ l ∈ labels, Selector.Spelled l) (hready : (.list, t.kind) ∉ m.failures) :
    (m.list t ns (some (Selector.ofLabels labels))).1 = .ok (m.carriers t ns labels) := by
  rw [list_eq, if_neg hready, listing_ofLabels h]

theorem carriers_of_list {os : List Object} (h : ∀ l ∈ labels, Selector.Spelled l)
    (hlist : (m.list t ns (some (Selector.ofLabels labels))).1 = .ok os) : os = m.carriers t ns labels := by
  rw [list_eq] at hlist
  split at hlist
  · cases hlist
  · rw [← Except.ok.inj hlist, listing_ofLabels h]

theorem label?_of_mem_carriers {o : Object} (h : o ∈ m.carriers t ns labels) :
    ∀ l ∈ labels, o.metadata.label? l.1 = some l.2 := by
  obtain ⟨e, he, rfl⟩ := List.mem_map.1 h
  exact (of_decide_eq_true (List.mem_filter.1 he).2).2.2.2

end Memory

namespace Owner

variable {first second : Owner} {os os' : List Object}

/-- No object is listed for two owners, at whatever times and for whatever kinds. -/
theorem disjoint_listings (hne : first ≠ second) (hfirst : ∀ l ∈ first.labels, Selector.Spelled l)
    (hsecond : ∀ l ∈ second.labels, Selector.Spelled l) (h : (m.list t ns (some first.selector)).1 = .ok os)
    (h' : (m'.list t' ns' (some second.selector)).1 = .ok os') : os.Disjoint os' := by
  intro o ho ho'
  rw [Memory.carriers_of_list hfirst h] at ho
  rw [Memory.carriers_of_list hsecond h'] at ho'
  exact hne (eq_of_labelled (Memory.label?_of_mem_carriers ho) (Memory.label?_of_mem_carriers ho'))

end Owner

namespace Selector

/-- The selector of a label map is read back as the map exactly if it can spell the labels. Then it lists exactly the
stored objects that carry them all, so that owners whose labels it can spell have nothing in common. -/
theorem selector_exact (labels : Table String String) :
    (terms (ofLabels labels) = labels ↔ ∀ l ∈ labels, Spelled l)
      ∧ ((∀ l ∈ labels, Spelled l) → ∀ (m : Memory) (t : TypeRef) (ns : Option String),
        (.list, t.kind) ∉ m.failures → (m.list t ns (some (ofLabels labels))).1 = .ok (m.carriers t ns labels))
      ∧ ∀ first second : Owner, first ≠ second → (∀ l ∈ first.labels, Spelled l) →
        (∀ l ∈ second.labels, Spelled l) → ∀ (m m' : Memory) (t t' : TypeRef) (ns ns' : Option String) (os os'),
          (m.list t ns (some first.selector)).1 = .ok os →
            (m'.list t' ns' (some second.selector)).1 = .ok os' → os.Disjoint os' := by
  refine ⟨terms_ofLabels_iff, fun h m t ns hready => Memory.list_ofLabels h hready, ?_⟩
  intro first second hne hfirst hsecond m m' t t' ns ns' os os' h h'
  exact Owner.disjoint_listings hne hfirst hsecond h h'

section Shop

/-- Its namespace has a character that selectors use. -/
def front : Owner := ⟨"shop", "a=b"⟩

def back : Owner := ⟨"shop", "a"⟩

def tillType : TypeRef := ⟨"shop.example.com/v1", "Till"⟩

def tillOf (owner : Owner) (name : String) : Slot × Object :=
  (⟨"shop.example.com", "Till", "floor", name⟩,
    ⟨some tillType, { name := some name, ns := some "floor", labels := some owner.labels }, []⟩)

def shopFloor : Memory := { objects := [tillOf front "east", tillOf back "north", tillOf front "west"], now := default }

theorem front_spelled : ∀ l ∈ front.labels, Spelled l :=
  Owner.Legible.spelled ⟨⟨by decide, by decide⟩, ⟨by decide, by decide⟩⟩

theorem back_spelled : ∀ l ∈ back.labels, Spelled l :=
  Owner.Legible.spelled ⟨⟨by decide, by decide⟩, ⟨by decide, by decide⟩⟩

theorem owners_list_their_own :
    (∀ l ∈ front.labels, Spelled l) ∧ (∀ l ∈ back.labels, Spelled l) ∧ front ≠ back
      ∧ (.list, tillType.kind) ∉ shopFloor.failures ∧ terms front.selector = front.labels
      ∧ ∃ os os', (shopFloor.list tillType none (some front.selector)).1 = .ok os
        ∧ (shopFloor.list tillType none (some back.selector)).1 = .ok os'
        ∧ os.map Object.anyName = ["east", "west"] ∧ os'.map Object.anyName = ["north"] ∧ os.Disjoint os' := by
  have hready : (.list, tillType.kind) ∉ shopFloor.failures := List.not_mem_nil
  have hne : front ≠ back := by decide
  obtain ⟨hterms, hlist, hdisjoint⟩ := selector_exact front.labels
  obtain ⟨-, hlist', -⟩ := selector_exact back.labels
  have hfront := hlist front_spelled shopFloor tillType none hready
  have hback := hlist' back_spelled shopFloor tillType none hready
  refine ⟨front_spelled, back_spelled, hne, hready, hterms.2 front_spelled, _, _, hfront, hback, by decide,
    by decide, ?_⟩
  exact hdisjoint front back hne front_spelled back_spelled shopFloor shopFloor tillType tillType none none _ _
    hfront hback

/-- A comma in a name is taken for the end of a term. -/
example : terms (ofLabels [("app", "a,b")]) = [("app", "a")] := by decide

end Shop

end Selector

end Addons
