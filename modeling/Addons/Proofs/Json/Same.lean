import Addons.Json.Basic

/-!
# Sameness of values

`Json.same` is an equivalence: every value is the same as itself (`Json.same_refl`), and two that are the
same as a third are the same (`Json.same_of_same`). Equality is finer by the two zeros, and can be decided as well
(`Json.eq_of_equal`).
-/

namespace Addons

theorem Double.same_of_same {x y z : Double} (h : x.same y) (h' : x.same z) : y.same z := by
  unfold same at *
  rw [Bool.or_eq_true, Bool.and_eq_true, decide_eq_true_iff] at *
  obtain rfl | ⟨hx, hy⟩ := h
  · exact h'
  · obtain rfl | ⟨-, hz⟩ := h'
    · exact .inr ⟨hy, hx⟩
    · exact .inr ⟨hy, hz⟩

theorem Number.same_refl (n : Number) : n.same n := by
  cases n with
  | int i => exact decide_eq_true rfl
  | float x =>
    show x.same x
    unfold Double.same
    rw [decide_eq_true rfl]
    rfl

theorem Number.same_of_same {a b c : Number} (h : a.same b) (h' : a.same c) : b.same c := by
  cases a with
  | int i =>
    cases b with
    | float y => cases h
    | int j =>
      cases c with
      | float z => cases h'
      | int k => exact decide_eq_true ((of_decide_eq_true h).symm.trans (of_decide_eq_true h'))
  | float x =>
    cases b with
    | int j => cases h
    | float y =>
      cases c with
      | int k => cases h'
      | float z => exact Double.same_of_same h h'

namespace Json

mutual

theorem same_refl : ∀ a : Json, a.same a
  | .null => rfl
  | .bool b => beq_self_eq_true b
  | .num n => n.same_refl
  | .str s => beq_self_eq_true s
  | .arr items => sameItems_refl items
  | .obj fields => sameFields_refl fields

theorem sameItems_refl : ∀ l : List Json, sameItems l l
  | [] => rfl
  | a :: l => by
    rw [sameItems, same_refl a, sameItems_refl l]
    rfl

theorem sameFields_refl : ∀ l : List (String × Json), sameFields l l
  | [] => rfl
  | (k, a) :: l => by
    rw [sameFields, same_refl a, sameFields_refl l, beq_self_eq_true]
    rfl

end

mutual

/-- Values that are the same as one value are the same. -/
theorem same_of_same : ∀ {a b c : Json}, a.same b → a.same c → b.same c
  | .null, .null, c, _, h => h
  | .bool _, .bool _, c, h, h' => by
    obtain rfl := beq_iff_eq.1 h
    exact h'
  | .num _, .num _, .num _, h, h' => Number.same_of_same h h'
  | .str _, .str _, c, h, h' => by
    obtain rfl := beq_iff_eq.1 h
    exact h'
  | .arr _, .arr _, .arr _, h, h' => sameItems_of_same h h'
  | .obj _, .obj _, .obj _, h, h' => sameFields_of_same h h'

theorem sameItems_of_same : ∀ {a b c : List Json}, sameItems a b → sameItems a c → sameItems b c
  | [], [], [], _, _ => rfl
  | a :: as, b :: bs, c :: cs, h, h' => by
    rw [sameItems, Bool.and_eq_true] at *
    exact ⟨same_of_same h.1 h'.1, sameItems_of_same h.2 h'.2⟩

theorem sameFields_of_same :
    ∀ {a b c : List (String × Json)}, sameFields a b → sameFields a c → sameFields b c
  | [], [], [], _, _ => rfl
  | (i, a) :: as, (j, b) :: bs, (k, c) :: cs, h, h' => by
    rw [sameFields, Bool.and_eq_true, Bool.and_eq_true, beq_iff_eq] at *
    exact ⟨⟨h.1.1.symm.trans h'.1.1, same_of_same h.1.2 h'.1.2⟩, sameFields_of_same h.2 h'.2⟩

end

/-! ## Equality -/

mutual

/-- Equality of values; the two zeros differ. -/
def equal : Json → Json → Bool
  | .null, .null => true
  | .bool a, .bool b => a = b
  | .num a, .num b => a = b
  | .str a, .str b => a = b
  | .arr a, .arr b => equalItems a b
  | .obj a, .obj b => equalFields a b
  | _, _ => false

def equalItems : List Json → List Json → Bool
  | [], [] => true
  | a :: as, b :: bs => equal a b && equalItems as bs
  | _, _ => false

def equalFields : List (String × Json) → List (String × Json) → Bool
  | [], [] => true
  | (k, a) :: as, (l, b) :: bs => k = l && equal a b && equalFields as bs
  | _, _ => false

end

mutual

theorem eq_of_equal : ∀ {a b : Json}, a.equal b → a = b
  | .null, .null, _ => rfl
  | .bool _, .bool _, h => congrArg Json.bool (of_decide_eq_true h)
  | .num _, .num _, h => congrArg Json.num (of_decide_eq_true h)
  | .str _, .str _, h => congrArg Json.str (of_decide_eq_true h)
  | .arr _, .arr _, h => congrArg Json.arr (eqItems_of_equal h)
  | .obj _, .obj _, h => congrArg Json.obj (eqFields_of_equal h)

theorem eqItems_of_equal : ∀ {a b : List Json}, equalItems a b → a = b
  | [], [], _ => rfl
  | _ :: _, _ :: _, h => by
    obtain ⟨h, hrest⟩ := Bool.and_eq_true_iff.1 h
    rw [eq_of_equal h, eqItems_of_equal hrest]

theorem eqFields_of_equal : ∀ {a b : List (String × Json)}, equalFields a b → a = b
  | [], [], _ => rfl
  | (_, _) :: _, (_, _) :: _, h => by
    obtain ⟨h, hrest⟩ := Bool.and_eq_true_iff.1 h
    obtain ⟨hkey, h⟩ := Bool.and_eq_true_iff.1 h
    rw [of_decide_eq_true hkey, eq_of_equal h, eqFields_of_equal hrest]

end

mutual

theorem equal_refl : ∀ a : Json, a.equal a
  | .null => rfl
  | .bool _ | .num _ | .str _ => decide_eq_true rfl
  | .arr items => equalItems_refl items
  | .obj fields => equalFields_refl fields

theorem equalItems_refl : ∀ l : List Json, equalItems l l
  | [] => rfl
  | a :: l => by
    rw [equalItems, equal_refl a, equalItems_refl l]
    rfl

theorem equalFields_refl : ∀ l : List (String × Json), equalFields l l
  | [] => rfl
  | (k, a) :: l => by
    rw [equalFields, equal_refl a, equalFields_refl l, decide_eq_true rfl]
    rfl

end

instance : DecidableEq Json := fun a b => decidable_of_iff (a.equal b) ⟨eq_of_equal, fun h => h ▸ equal_refl a⟩

end Json

end Addons
