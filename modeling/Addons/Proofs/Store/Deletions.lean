import Addons.Proofs.Store.Contacts
import Mathlib.Data.Finset.Card

/-!
# Deletions in a row

`Memory.Deleted` says of two stores that some keys are gone from the one to the other and nothing else is, and what
the journal notes of it. It is put together from one deletion each (`Memory.Deleted.trans`). `Clearing` says how far
a session has come that deletes some keys one after the other, where any request may fail.
-/

namespace Addons

namespace Memory

/-- How many of some places have an object. -/
def filled (m : Memory) (slots : List Slot) : Nat :=
  (slots.toFinset.filter fun s => (m.objects.find? s).isSome).card

/-- The objects of some keys are gone, and no other. The journal notes them in order: of the keys of a place that
had an object, one. -/
structure Deleted (m : Memory) (gone noted : List Key) (m' : Memory) : Prop where
  objects : m'.objects = m.objects.without (gone.map Key.slot)
  journal : m'.journal = m.journal ++ noted.map Change.delete
  inOrder : noted.Sublist gone
  once : (noted.map Key.slot).Nodup
  there : ∀ s, s ∈ noted.map Key.slot ↔ s ∈ gone.map Key.slot ∧ (m.objects.find? s).isSome

variable {m m₁ m' : Memory} {gone gone' noted noted' : List Key} {k : Key}

theorem Deleted.of_same (hm : m'.objects = m.objects) (hj : m'.journal = m.journal) : m.Deleted [] [] m' where
  objects := by rw [hm, List.map_nil, Table.without_nil]
  journal := by rw [hj, List.map_nil, List.append_nil]
  inOrder := .slnil
  once := List.nodup_nil
  there := by simp

/-- A deletion that does not find its object. -/
theorem Deleted.of_missing (hm : m'.objects = m.objects) (hj : m'.journal = m.journal) (hnone : m.object? k = none) :
    m.Deleted [k] [] m' where
  objects := by
    rw [hm]
    refine (List.filter_eq_self.2 fun e he => ?_).symm
    have hne : e.1 ≠ k.slot := by
      rintro hslot
      have hmiss := List.lookup_eq_none_iff.1 hnone e he
      simp [hslot] at hmiss
    simpa using hne
  journal := by rw [hj, List.map_nil, List.append_nil]
  inOrder := List.nil_sublist _
  once := List.nodup_nil
  there := by
    intro s
    refine ⟨fun hs => absurd hs List.not_mem_nil, ?_⟩
    rintro ⟨hs, hthere⟩
    obtain rfl := List.mem_singleton.1 hs
    rw [show m.objects.find? k.slot = none from hnone] at hthere
    cases hthere

/-- A deletion that finds its object. -/
theorem Deleted.of_erased (hm : m'.objects = m.objects.erase k.slot) (hj : m'.journal = m.journal ++ [.delete k])
    (hsome : m.object? k ≠ none) : m.Deleted [k] [k] m' where
  objects := by rw [hm, Table.erase_eq_without, List.map_singleton]
  journal := by rw [hj, List.map_singleton]
  inOrder := List.Sublist.refl _
  once := List.nodup_singleton _
  there := by
    intro s
    refine ⟨fun hs => ⟨hs, ?_⟩, And.left⟩
    obtain rfl := List.mem_singleton.1 hs
    exact Option.isSome_iff_ne_none.2 hsome

theorem Deleted.find? (h : m.Deleted gone noted m') (s : Slot) :
    m'.objects.find? s = if s ∈ gone.map Key.slot then none else m.objects.find? s := by
  rw [h.objects, Table.find?_without]

theorem Deleted.trans (h : m.Deleted gone noted m₁) (h' : m₁.Deleted gone' noted' m') :
    m.Deleted (gone ++ gone') (noted ++ noted') m' where
  objects := by rw [h'.objects, h.objects, Table.without_without, List.map_append]
  journal := by rw [h'.journal, h.journal, List.map_append, List.append_assoc]
  inOrder := h.inOrder.append h'.inOrder
  once := by
    rw [List.map_append]
    refine h.once.append h'.once fun s hs hs' => ?_
    -- what the first has deleted the second does not find
    have hfound := ((h'.there s).1 hs').2
    rw [h.find?, if_pos ((h.there s).1 hs).1] at hfound
    cases hfound
  there := by
    intro s
    rw [List.map_append, List.map_append, List.mem_append, List.mem_append, h.there, h'.there, h.find?]
    by_cases hs : s ∈ gone.map Key.slot
    · simp [hs]
    · simp [hs]

/-- As many objects were there as the journal notes. -/
theorem Deleted.length_noted (h : m.Deleted gone noted m') : noted.length = m.filled (gone.map Key.slot) := by
  rw [← List.length_map Key.slot, ← List.toFinset_card_of_nodup h.once]
  refine congrArg Finset.card (Finset.ext fun s => ?_)
  rw [List.mem_toFinset, Finset.mem_filter, List.mem_toFinset, h.there]

/-- The store leaves all as it is, or deletes an object that is there and notes it. -/
theorem delete_cases (m : Memory) (k : Key) :
    ((m.delete k).2.objects = m.objects ∧ (m.delete k).2.journal = m.journal
        ∧ ∃ e, (m.delete k).1 = .error e ∧ (e.isNotFound → m.object? k = none))
      ∨ m.object? k ≠ none ∧ (m.delete k).2.objects = m.objects.erase k.slot
        ∧ (m.delete k).2.journal = m.journal ++ [.delete k] ∧ (m.delete k).1 = .ok () := by
  unfold Memory.delete
  by_cases hfails : (.delete, k.type.kind) ∈ m.failures
  · rw [request_failed hfails]
    exact .inl ⟨rfl, rfl, _, rfl, fun h => nomatch h⟩
  · rw [request_eq hfails, show object? { m with counts := m.counts.count .delete } k = m.object? k from rfl]
    cases hlive : m.object? k with
    | none => exact .inl ⟨rfl, rfl, _, rfl, fun _ => rfl⟩
    | some o => exact .inr ⟨Option.some_ne_none o, rfl, rfl, rfl⟩

end Memory

theorem Told.delete {k : Key} {r : Except Error Unit} {c : Contact} (h : Told (·.delete k) r c) :
    (c.left.objects = c.met.objects ∧ c.left.journal = c.met.journal
        ∧ ∃ e, r = .error e ∧ (e.isNotFound → c.met.object? k = none))
      ∨ c.met.object? k ≠ none ∧ c.left.objects = c.met.objects.erase k.slot
        ∧ c.left.journal = c.met.journal ++ [.delete k]
        ∧ (r = .ok () ∨ c.lost = true ∧ ∃ e, e.IsFault ∧ r = .error e) := by
  cases h with
  | served m => exact (m.delete_cases k).imp_right fun ⟨hthere, hm, hj, hr⟩ => ⟨hthere, hm, hj, .inl hr⟩
  | refused m he => exact .inl ⟨rfl, rfl, _, rfl, fun h => by rw [he.1] at h; cases h⟩
  | lost m he =>
    rcases m.delete_cases k with ⟨hm, hj, -⟩ | ⟨hthere, hm, hj, -⟩
    · exact .inl ⟨hm, hj, _, rfl, fun h => by rw [he.1] at h; cases h⟩
    · exact .inr ⟨hthere, hm, hj, .inr ⟨rfl, _, he, rfl⟩⟩

/-- Some keys are deleted one after the other, to the end or up to where a request fails. -/
structure Clearing (m : Memory) (keys : List Key) (cs : List Contact) (told : Option Nat) (m' : Memory)
    (gone noted rest : List Key) : Prop where
  split : keys = gone ++ rest
  deleted : m.Deleted gone noted m'
  /-- Who gets to the end is told how many there were. -/
  done : ∀ n, told = some n → rest = [] ∧ n = noted.length
  /-- Who does not has left something, unless an answer was lost. -/
  cut : told = none → (∀ c ∈ cs, c.lost = false) → rest ≠ []

section Clearing

variable {m m₁ m' : Memory} {keys keys' gone gone' noted noted' rest rest' : List Key} {cs cs' : List Contact}
  {n : Nat} {told : Option Nat}

/-- Who has deleted some keys goes on with others. -/
theorem Clearing.append (h : Clearing m keys cs (some n) m₁ gone noted rest)
    (h' : Clearing m₁ keys' cs' told m' gone' noted' rest') :
    Clearing m (keys ++ keys') (cs ++ cs') (told.map (n + ·)) m' (gone ++ gone') (noted ++ noted') rest' := by
  obtain ⟨rfl, rfl⟩ := h.done n rfl
  refine ⟨?_, h.deleted.trans h'.deleted, ?_, fun hnone hlost => h'.cut (Option.map_eq_none_iff.1 hnone) ?_⟩
  · rw [h.split, h'.split, List.append_nil, List.append_assoc]
  · intro k hk
    obtain ⟨l, hl, rfl⟩ := Option.map_eq_some_iff.1 hk
    obtain ⟨rfl, rfl⟩ := h'.done l hl
    exact ⟨rfl, List.length_append.symm⟩
  · exact fun c hc => hlost c (List.mem_append_right cs hc)

/-- Who is cut short does not get to other keys. -/
theorem Clearing.cut_append (h : Clearing m keys cs none m' gone noted rest) (keys' : List Key) :
    Clearing m (keys ++ keys') cs none m' gone noted (rest ++ keys') where
  split := by rw [h.split, List.append_assoc]
  deleted := h.deleted
  done := fun n h => nomatch h
  cut := fun _ hlost => List.append_ne_nil_of_left_ne_nil (h.cut rfl hlost) keys'

end Clearing

namespace Session

variable {m m' : Memory} {cs : List Contact}

theorem amid_removeIfExists {k : Key} {p : Propagation} {a : Except Error Bool}
    (h : (removeIfExists k p).Amid Eq m cs a m') : ∃ gone noted rest,
      Clearing m [k] cs (a.toOption.map Bool.toNat) m' gone noted rest := by
  obtain ⟨r, c, ds, rfl, htold, rfl, h⟩ := h
  obtain ⟨hm, hj, e, rfl, hnone⟩ | ⟨hthere, hm, hj, rfl | ⟨hlost, e, he, rfl⟩⟩ := htold.delete
  · dsimp only at h
    by_cases he : e.isNotFound
    · rw [if_pos he] at h
      obtain ⟨rfl, rfl, rfl⟩ := h
      refine ⟨[k], [], [], (List.append_nil _).symm, .of_missing hm hj (hnone he), ?_, fun h => nomatch h⟩
      rintro n ⟨rfl⟩
      exact ⟨rfl, rfl⟩
    · rw [if_neg he] at h
      obtain ⟨rfl, rfl, rfl⟩ := h
      exact ⟨[], [], [k], rfl, .of_same hm hj, (fun n h => nomatch h), fun _ _ => List.cons_ne_nil _ _⟩
  · obtain ⟨rfl, rfl, rfl⟩ := h
    refine ⟨[k], [k], [], (List.append_nil _).symm, .of_erased hm hj hthere, ?_, fun h => nomatch h⟩
    rintro n ⟨rfl⟩
    exact ⟨rfl, rfl⟩
  · dsimp only at h
    rw [if_neg (by rw [he.1]; exact Bool.false_ne_true)] at h
    obtain ⟨rfl, rfl, rfl⟩ := h
    refine ⟨[k], [k], [], (List.append_nil _).symm, .of_erased hm hj hthere, (fun n h => nomatch h), fun _ hnot => ?_⟩
    exact absurd (hnot c List.mem_cons_self) (by simp [hlost])

end Session

end Addons
