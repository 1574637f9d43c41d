import Addons.Proofs.Object.Identity
import Addons.Proofs.Store.Requests
import Mathlib.Data.Prod.Lex
import Mathlib.Data.String.Basic

/-!
# How objects are filed

A store keeps its objects by slots that strictly increase, each object in the slot of its own key and under a
version that has been handed out (`Memory.Filed`). An empty store does, and so does every store that objects
are seeded into or that any session leaves (`Session.Runs.filed`).
-/

namespace Addons

namespace Slot

/-- The parts of a slot, by which slots are ordered. -/
def parts (s : Slot) : String ×ₗ String ×ₗ String ×ₗ String :=
  toLex (s.group, toLex (s.kind, toLex (s.ns, s.name)))

theorem lt_iff_parts {a b : Slot} : a < b ↔ a.parts < b.parts := by
  simp only [parts, Prod.Lex.toLex_lt_toLex]
  rfl

theorem parts_injective : Function.Injective parts := by
  intro a b h
  cases a
  cases b
  simpa [parts] using h

instance : IsTrans Slot (· < ·) :=
  ⟨fun _ _ _ h h' => lt_iff_parts.2 ((lt_iff_parts.1 h).trans (lt_iff_parts.1 h'))⟩

instance : Std.Irrefl fun a b : Slot => a < b := ⟨fun a h => lt_irrefl a.parts (lt_iff_parts.1 h)⟩

instance : Std.Trichotomous fun a b : Slot => a < b := by
  refine ⟨fun a b h h' => parts_injective ?_⟩
  rw [lt_iff_parts] at h h'
  exact le_antisymm (not_lt.1 h') (not_lt.1 h)

end Slot

/-! ## Versions -/

namespace Memory

/-- No two versions have one text. -/
theorem versionText_injective : Function.Injective versionText := by
  intro a b h
  have hdigits := congrArg (fun s : String => Nat.ofDigitChars 10 s.toList 0) h
  unfold versionText at hdigits
  simpa [Nat.toString_eq_ofList_toDigits] using hdigits

variable {m : Memory}

theorem request_le {α : Type} {v : Verb} {kind : String} {go : Memory → Except Error α × Memory}
    (hgo : ∀ m₁ : Memory, m₁.version = m.version → m.version ≤ (go m₁).2.version) :
    m.version ≤ (m.request v kind go).2.version := by
  obtain ⟨m₁, -, hv, hr⟩ | ⟨m₁, -, hv, hr⟩ := Answered.request_cases m v kind go
  · rw [hr, hv]
  · rw [hr]
    exact hgo m₁ hv

theorem get_le (k : Key) : m.version ≤ (m.get k).2.version := by
  refine request_le fun m₁ hv => ?_
  split <;> exact hv.ge

theorem list_le (t : TypeRef) (ns sel : Option String) : m.version ≤ (m.list t ns sel).2.version :=
  request_le fun _ hv => hv.ge

theorem create_le (o : Object) : m.version ≤ (m.create o).2.version := by
  unfold create
  cases o.key with
  | error e => exact le_rfl
  | ok k =>
    refine request_le fun m₁ hv => ?_
    dsimp only
    split <;> dsimp only <;> omega

theorem update_le (o : Object) : m.version ≤ (m.update o).2.version := by
  unfold update
  cases o.key with
  | error e => exact le_rfl
  | ok k =>
    refine request_le fun m₁ hv => ?_
    dsimp only
    split
    · exact hv.ge
    · exact hv.ge
    · split <;> dsimp only <;> omega

theorem delete_le (k : Key) : m.version ≤ (m.delete k).2.version := by
  refine request_le fun m₁ hv => ?_
  split <;> exact hv.ge

theorem setFinalizers_le (k : Key) (names : List String) :
    m.version ≤ (m.setFinalizers k names).2.version := by
  unfold setFinalizers
  cases m.object? k with
  | none => exact le_rfl
  | some o =>
    dsimp only
    split <;> exact Nat.le_succ _

theorem mergeStatus_le (k : Key) (status : Json) : m.version ≤ (m.mergeStatus k status).2.version := by
  unfold mergeStatus
  cases m.object? k with
  | none => exact le_rfl
  | some o => exact Nat.le_succ _

end Memory

theorem Memory.Served.version_le {m m' : Memory} (h : m.Served m') : m.version ≤ m'.version := by
  cases h with
  | get k => exact get_le k
  | list t ns sel => exact list_le t ns sel
  | create o => exact create_le o
  | update o => exact update_le o
  | delete k => exact delete_le k
  | setFinalizers k names => exact setFinalizers_le k names
  | mergeStatus k status => exact mergeStatus_le k status

/-- The versions that a store has handed out stay handed out. -/
theorem Session.Runs.version_le {α : Type} {s : Session α} {m m' : Memory} {es : List Event}
    {a : Except Error α} (h : s.Runs m es a m') : m.version ≤ m'.version := by
  have hreaches := h.reaches
  clear h
  induction hreaches with
  | refl => exact le_rfl
  | tail _ hserved ih => exact ih.trans hserved.version_le

/-! ## The store -/

/-- Every object is in the slot of its key, the slots are in order, and no version is yet to come. -/
structure Memory.Filed (m : Memory) : Prop where
  sorted : m.objects.Sorted
  slot : ∀ e ∈ m.objects, ∃ k, e.2.key = .ok k ∧ k.slot = e.1
  dated : ∀ e ∈ m.objects, ∃ n ≤ m.version, e.2.metadata.resourceVersion = some (versionText n)

namespace Memory.Filed

variable {m m' : Memory} {s : Slot} {o o' : Object} {k : Key}

theorem mem_iff (h : m.Filed) : (s, o) ∈ m.objects ↔ m.objects.find? s = some o := h.sorted.mem_iff

theorem key_of_find? (h : m.Filed) (ho : m.objects.find? s = some o) :
    ∃ k, o.key = .ok k ∧ k.slot = s := h.slot _ (h.mem_iff.2 ho)

theorem mem_listing (h : m.Filed) {t : TypeRef} {ns sel : Option String} :
    o ∈ m.listing t ns sel ↔ ∃ s, m.objects.find? s = some o ∧ listed t ns sel s o := by
  unfold listing
  rw [List.mem_map]
  constructor
  · rintro ⟨⟨s, o⟩, he, rfl⟩
    obtain ⟨hmem, hl⟩ := List.mem_filter.1 he
    exact ⟨s, h.mem_iff.1 hmem, hl⟩
  · rintro ⟨s, ho, hl⟩
    exact ⟨(s, o), List.mem_filter.2 ⟨h.mem_iff.2 ho, hl⟩, rfl⟩

theorem version_of_find? (h : m.Filed) (ho : m.objects.find? s = some o) :
    ∃ n ≤ m.version, o.metadata.resourceVersion = some (versionText n) := h.dated _ (h.mem_iff.2 ho)

/-! ## What keeps a store in order -/

theorem of_objects (h : m.Filed) (hm : m'.objects = m.objects) (hv : m.version ≤ m'.version) :
    m'.Filed := by
  refine ⟨hm ▸ h.sorted, hm ▸ h.slot, fun e he => ?_⟩
  rw [hm] at he
  obtain ⟨n, hn, hversion⟩ := h.dated e he
  exact ⟨n, hn.trans hv, hversion⟩

theorem insert (h : m.Filed) (hk : o.key = .ok k) (hs : k.slot = s)
    (ho : o.metadata.resourceVersion = some (versionText m'.version)) (hv : m.version ≤ m'.version)
    (hm : m'.objects = m.objects.insert s o) : m'.Filed := by
  refine ⟨hm ▸ h.sorted.insert s o, fun e he => ?_, fun e he => ?_⟩
  · rw [hm] at he
    rcases Table.mem_insert he with rfl | he
    · exact ⟨k, hk, hs⟩
    · exact h.slot e he
  · rw [hm] at he
    rcases Table.mem_insert he with rfl | he
    · exact ⟨m'.version, le_rfl, ho⟩
    · obtain ⟨n, hn, hversion⟩ := h.dated e he
      exact ⟨n, hn.trans hv, hversion⟩

theorem erase (h : m.Filed) (hm : m'.objects = m.objects.erase s) (hv : m.version ≤ m'.version) :
    m'.Filed := by
  have hsub : ∀ e ∈ m'.objects, e ∈ m.objects := by
    intro e he
    rw [hm] at he
    exact (List.mem_filter.1 he).1
  refine ⟨hm ▸ h.sorted.erase s, fun e he => h.slot e (hsub e he), fun e he => ?_⟩
  obtain ⟨n, hn, hversion⟩ := h.dated e (hsub e he)
  exact ⟨n, hn.trans hv, hversion⟩

theorem of_nil (h : m.objects = []) : m.Filed := by
  refine ⟨h ▸ List.Pairwise.nil, fun e he => ?_, fun e he => ?_⟩ <;>
  · rw [h] at he
    cases he

theorem seed (h : m.Filed) (hs : m.seed o = .ok (o', m')) : m'.Filed := by
  obtain ⟨k, hk, he⟩ := of_bind_eq_ok hs
  cases he
  exact h.insert hk rfl rfl (Nat.le_succ _) rfl

/-- The store keeps what it is given under the next version. -/
theorem stamped {stored : Object} (h : m.Filed) (hk : o.key = .ok k) (hs : m.Stamped o stored m')
    (hm : m'.objects = m.objects.insert k.slot stored) : m'.Filed :=
  h.insert ((Object.key_of_unstamped hs.unstamped).trans hk) rfl hs.version (by rw [hs.next]; omega) hm

theorem create (h : m.Filed) (o : Object) : (m.create o).2.Filed := by
  obtain ⟨hm, -⟩ | ⟨k, stored, hk, -, hs, hm, -⟩ := Answered.create_served m o
  · exact h.of_objects hm (create_le o)
  · exact h.stamped hk hs hm

theorem update (h : m.Filed) (o : Object) : (m.update o).2.Filed := by
  obtain ⟨hm, -⟩ | ⟨k, live, stored, hk, -, -, hs, hm, -⟩ := Answered.update_served m o
  · exact h.of_objects hm (update_le o)
  · exact h.stamped hk hs hm

theorem delete (h : m.Filed) (k : Key) : (m.delete k).2.Filed := by
  obtain ⟨hm, -⟩ | ⟨hm, -⟩ := Answered.delete_served m k
  · exact h.of_objects hm (delete_le k)
  · exact h.erase hm (delete_le k)

theorem putVersion {k₀ : Key} (h : m.Filed) (hk : o.key = .ok k₀) (hs : k₀.slot = k.slot) (change : Change) :
    (m.putVersion k o change).2.Filed := by
  have hkey : (m.putVersion k o change).1.key = .ok k₀ := hk
  exact h.insert hkey hs rfl (Nat.le_succ _) rfl

theorem setFinalizers (h : m.Filed) (k : Key) (names : List String) :
    (m.setFinalizers k names).2.Filed := by
  unfold Memory.setFinalizers
  cases ho : m.object? k with
  | none => exact h
  | some o =>
    obtain ⟨k₀, hk₀, hs⟩ := h.key_of_find? ho
    have hkey : { o with metadata := { o.metadata with finalizers := some names } }.key = .ok k₀ := hk₀
    have hput := h.putVersion hkey hs (.finalizers k names)
    dsimp only
    split
    · exact hput.erase rfl le_rfl
    · exact hput

theorem mergeStatus (h : m.Filed) (k : Key) (status : Json) : (m.mergeStatus k status).2.Filed := by
  unfold Memory.mergeStatus
  cases ho : m.object? k with
  | none => exact h
  | some o =>
    obtain ⟨k₀, hk₀, hs⟩ := h.key_of_find? ho
    have hkey : ∀ data, { o with data }.key = .ok k₀ := fun _ => hk₀
    exact h.putVersion (hkey _) hs _

theorem get (h : m.Filed) (k : Key) : (m.get k).2.Filed :=
  h.of_objects (Answered.get_served m k).1 (get_le k)

theorem list (h : m.Filed) (t : TypeRef) (ns sel : Option String) : (m.list t ns sel).2.Filed :=
  h.of_objects (Answered.list_served m t ns sel).1 (list_le t ns sel)

end Memory.Filed

theorem Memory.Served.filed {m m' : Memory} (h : m.Served m') (hm : m.Filed) : m'.Filed := by
  cases h with
  | get k => exact hm.get k
  | list t ns sel => exact hm.list t ns sel
  | create o => exact hm.create o
  | update o => exact hm.update o
  | delete k => exact hm.delete k
  | setFinalizers k names => exact hm.setFinalizers k names
  | mergeStatus k status => exact hm.mergeStatus k status

/-- A session leaves a store in order, however it is cut short. -/
theorem Session.Runs.filed {α : Type} {s : Session α} {m m' : Memory} {es : List Event}
    {a : Except Error α} (h : s.Runs m es a m') (hm : m.Filed) : m'.Filed := by
  have hreaches := h.reaches
  clear h
  induction hreaches with
  | refl => exact hm
  | tail _ hserved ih => exact hserved.filed ih

end Addons
