import Addons.Proofs.Store.Journal
import Addons.Proofs.Store.Versions
import Mathlib.Data.Finset.Image
import Mathlib.Data.Multiset.MapFold

/-!
# The journal replayed

What a request comes to is said once (`Operation.comes`): it fails and leaves all but the counts and the failures
as it was, or it is granted and changes no other place than its own. So the journal of a store tells which places
were filled and emptied (`Memory.requests_replayed`). A note of it has the kind, the namespace and the name of an
object, but not the group of its API: replayed are the keys as far as they are noted, each as often as objects are
called so, and all of a key only where no other differs from it in the group alone (`Replay.twin_deleted_unseen`).
-/

namespace Addons

/-! ## One request -/

namespace Memory

/-- A request that fails uses up no failure, or the first one that is meant for it, and leaves the objects, the
version and the journal. -/
structure Fails (asked : Option (Verb × String)) (m m' : Memory) : Prop where
  objects : m'.objects = m.objects
  version : m'.version = m.version
  journal : m'.journal = m.journal
  failures : m'.failures = m.failures ∨ ∃ f before after, asked = some f ∧ m.failures = before ++ f :: after
    ∧ f ∉ before ∧ m'.failures = before ++ after

/-- What a request does that is granted, about a place if any, and what is noted of it. -/
inductive Turns (m m' : Memory) : Option Slot → List Change → Prop
  | looks {slot : Option Slot} : m'.objects = m.objects → m'.journal = m.journal → Turns m m' slot []
  | creates {k : Key} {stored : Object} : m.object? k = none → m'.objects = m.objects.insert k.slot stored →
      m'.journal = m.journal ++ [.create k] → Turns m m' (some k.slot) [.create k]
  | updates {k : Key} {live stored : Object} : m.object? k = some live →
      m'.objects = m.objects.insert k.slot stored → m'.journal = m.journal ++ [.update k] →
      Turns m m' (some k.slot) [.update k]
  | deletes {k : Key} {live : Object} : m.object? k = some live → m'.objects = m.objects.erase k.slot →
      m'.journal = m.journal ++ [.delete k] → Turns m m' (some k.slot) [.delete k]

/-- A request fails or is granted. -/
inductive Comes {α : Type} (asked : Option (Verb × String)) (slot : Option Slot) (m : Memory) :
    Except Error α → Memory → Prop
  | failed {e : Error} {m' : Memory} : m.Fails asked m' → Comes asked slot m (.error e) m'
  | granted {a : α} {m' : Memory} {cs : List Change} : m.Turns m' slot cs → Comes asked slot m (.ok a) m'

variable {α β : Type} {asked : Option (Verb × String)} {slot : Option Slot} {m m' : Memory} {v : Verb}
  {kind : String} {cs : List Change}

theorem Comes.map {r : Except Error α} (h : Comes asked slot m r m') (f : α → β) :
    Comes asked slot m (r.map f) m' := by
  cases h with
  | failed h => exact .failed h
  | granted h => exact .granted h

theorem object?_counted (m : Memory) (c : Counts) (k : Key) : object? { m with counts := c } k = m.object? k := rfl

/-- A failure that nobody asked for changes the counts only. -/
theorem Fails.counted (asked : Option (Verb × String)) (m : Memory) (c : Counts) :
    m.Fails asked { m with counts := c } := ⟨rfl, rfl, rfl, .inl rfl⟩

/-- A counted request fails as it is to, or comes to what it goes on with. -/
theorem comes_request {go : Memory → Except Error α × Memory}
    (hgo : Comes (some (v, kind)) slot m (go { m with counts := m.counts.count v }).1
      (go { m with counts := m.counts.count v }).2) :
    Comes (some (v, kind)) slot m (m.request v kind go).1 (m.request v kind go).2 := by
  by_cases h : (v, kind) ∈ m.failures
  · obtain ⟨before, after, hbefore, hsplit, herase⟩ := List.exists_erase_eq h
    rw [request_failed h]
    exact .failed ⟨rfl, rfl, rfl, .inr ⟨(v, kind), before, after, rfl, hsplit, hbefore, herase⟩⟩
  · rw [request_eq h]
    exact hgo

theorem comes_get (k : Key) : Comes (some (.get, k.type.kind)) none m (m.get k).1 (m.get k).2 := by
  refine comes_request ?_
  rw [object?_counted]
  cases m.object? k with
  | none => exact .failed (.counted _ m _)
  | some o => exact .granted (.looks rfl rfl)

theorem comes_list (t : TypeRef) (ns sel : Option String) :
    Comes (some (.list, t.kind)) none m (m.list t ns sel).1 (m.list t ns sel).2 :=
  comes_request (.granted (.looks rfl rfl))

theorem comes_create (o : Object) : Comes (o.key.toOption.map fun k => (.create, k.type.kind))
    (o.key.toOption.map Key.slot) m (m.create o).1 (m.create o).2 := by
  unfold create
  cases o.key with
  | error e => exact .failed (.counted _ m m.counts)
  | ok k =>
    refine comes_request ?_
    rw [object?_counted]
    cases hlive : m.object? k with
    | some live => exact .failed (.counted _ m _)
    | none => exact .granted (.creates hlive rfl rfl)

theorem comes_update (o : Object) : Comes (o.key.toOption.map fun k => (.update, k.type.kind))
    (o.key.toOption.map Key.slot) m (m.update o).1 (m.update o).2 := by
  unfold update
  cases o.key with
  | error e => exact .failed (.counted _ m m.counts)
  | ok k =>
    refine comes_request ?_
    rw [object?_counted]
    cases hlive : m.object? k with
    | none => exact .failed (.counted _ m _)
    | some live =>
      cases o.metadata.resourceVersion with
      | none => exact .failed (.counted _ m _)
      | some version =>
        dsimp only
        split
        · exact .failed (.counted _ m _)
        · exact .granted (.updates hlive rfl rfl)

theorem comes_delete (k : Key) :
    Comes (some (.delete, k.type.kind)) (some k.slot) m (m.delete k).1 (m.delete k).2 := by
  refine comes_request ?_
  rw [object?_counted]
  cases hlive : m.object? k with
  | none => exact .failed (.counted _ m _)
  | some o => exact .granted (.deletes hlive rfl rfl)

end Memory

namespace Operation

/-- Which failure is meant for a request. -/
def asks : Operation → Option (Verb × String)
  | create o => o.key.toOption.map fun k => (.create, k.type.kind)
  | update o => o.key.toOption.map fun k => (.update, k.type.kind)
  | delete k => some (.delete, k.type.kind)
  | get k => some (.get, k.type.kind)
  | list t _ _ => some (.list, t.kind)
  | seed _ | failOn _ _ => none

/-- An object is put into the store, past its requests. -/
def IsSeed : Operation → Prop
  | seed _ => True
  | create _ | update _ | delete _ | get _ | list _ _ _ | failOn _ _ => False

instance : DecidablePred IsSeed
  | seed _ => isTrue trivial
  | create _ | update _ | delete _ | get _ | list _ _ _ | failOn _ _ => isFalse id

/-- What a request comes to. -/
theorem comes (op : Operation) (hop : ¬op.IsSeed) (m : Memory) :
    m.Comes op.asks op.slot? (op.serve m).1 (op.serve m).2 := by
  cases op with
  | seed o => exact absurd trivial hop
  | create o => exact (Memory.comes_create o).map _
  | update o => exact (Memory.comes_update o).map _
  | delete k => exact (Memory.comes_delete k).map _
  | get k => exact (Memory.comes_get k).map _
  | list t ns sel => exact Memory.comes_list t ns sel
  | failOn v kind => exact .granted (.looks rfl rfl)

end Operation

/-! ## What the journal tells -/

/-- What the kind, the namespace and the name say of a place; of its group they say nothing. -/
def Slot.called (s : Slot) : String × String × String := (s.kind, s.ns, s.name)

/-- A note of the journal: what was done, and to what. It does not name the group of an API. -/
structure Note where
  verb : Verb
  kind : String
  ns : Option String
  name : String
  deriving DecidableEq, Repr

def Change.note : Change → Note
  | .create k => ⟨.create, k.type.kind, k.ns, k.name⟩
  | .delete k => ⟨.delete, k.type.kind, k.ns, k.name⟩
  | .update k | .finalizers k _ | .status k => ⟨.update, k.type.kind, k.ns, k.name⟩

def Note.called (n : Note) : String × String × String := (n.kind, n.ns.getD "", n.name)

/-- The places that are filled after a change. -/
def Change.onSlots (S : Finset Slot) : Change → Finset Slot
  | .create k => insert k.slot S
  | .delete k => S.erase k.slot
  | .update _ | .finalizers _ _ | .status _ => S

/-- What the filled places are called after a note, each counted. -/
def Note.onCounts (C : Multiset (String × String × String)) (n : Note) : Multiset (String × String × String) :=
  match n.verb with
  | .create => n.called ::ₘ C
  | .delete => C.erase n.called
  | .get | .list | .update => C

/-- What the filled places are called after a note. -/
def Note.onSet (S : Finset (String × String × String)) (n : Note) : Finset (String × String × String) :=
  match n.verb with
  | .create => insert n.called S
  | .delete => S.erase n.called
  | .get | .list | .update => S

/-- No two of some places differ in the group only. -/
def Telling (S : Finset Slot) : Prop := ∀ s ∈ S, ∀ s' ∈ S, s.called = s'.called → s = s'

instance : DecidablePred Telling := fun S =>
  inferInstanceAs (Decidable (∀ s ∈ S, ∀ s' ∈ S, s.called = s'.called → s = s'))

theorem Telling.mono {S T : Finset Slot} (h : Telling T) (hsub : S ⊆ T) : Telling S :=
  fun s hs s' hs' => h s (hsub hs) s' (hsub hs')

theorem image_onSlots {S : Finset Slot} {c : Change} (h : Telling (insert c.key.slot S)) :
    (c.onSlots S).image Slot.called = c.note.onSet (S.image Slot.called) := by
  cases c with
  | create k => exact Finset.image_insert _ _ _
  | delete k =>
    show (S.erase k.slot).image Slot.called = (S.image Slot.called).erase k.slot.called
    ext x
    simp only [Finset.mem_image, Finset.mem_erase]
    constructor
    · rintro ⟨s, ⟨hne, hs⟩, rfl⟩
      refine ⟨fun hsame => hne ?_, s, hs, rfl⟩
      exact h s (Finset.mem_insert_of_mem hs) k.slot (Finset.mem_insert_self _ _) hsame
    · rintro ⟨hne, s, hs, rfl⟩
      exact ⟨s, ⟨fun hsame => hne (congrArg Slot.called hsame), hs⟩, rfl⟩
  | update k => rfl
  | finalizers k names => rfl
  | status k => rfl

theorem onSlots_subset (S : Finset Slot) (c : Change) : c.onSlots S ⊆ insert c.key.slot S := by
  cases c with
  | create k => exact Finset.Subset.refl _
  | delete k => exact (Finset.erase_subset _ _).trans (Finset.subset_insert _ _)
  | update k => exact Finset.subset_insert _ _
  | finalizers k names => exact Finset.subset_insert _ _
  | status k => exact Finset.subset_insert _ _

/-- Where places can be told by what they are called, the notes tell which of them are filled. -/
theorem image_foldl_onSlots {S : Finset Slot} {cs : List Change}
    (h : Telling (S ∪ (cs.map fun c => c.key.slot).toFinset)) :
    (cs.foldl Change.onSlots S).image Slot.called = (cs.map Change.note).foldl Note.onSet (S.image Slot.called) := by
  induction cs generalizing S with
  | nil => rfl
  | cons c cs ih =>
    rw [List.map_cons, List.toFinset_cons] at h
    have hfirst : Telling (insert c.key.slot S) := by
      refine h.mono (Finset.insert_subset ?_ Finset.subset_union_left)
      exact Finset.mem_union_right _ (Finset.mem_insert_self _ _)
    have hrest : Telling (c.onSlots S ∪ (cs.map fun c => c.key.slot).toFinset) := by
      refine h.mono (Finset.union_subset ((onSlots_subset S c).trans ?_) ?_)
      · refine Finset.insert_subset ?_ Finset.subset_union_left
        exact Finset.mem_union_right _ (Finset.mem_insert_self _ _)
      · exact (Finset.subset_insert _ _).trans Finset.subset_union_right
    rw [List.foldl_cons, List.map_cons, List.foldl_cons, ih hrest, image_onSlots hfirst]

namespace Memory

variable {m m₁ m' : Memory} {s : Slot} {slot : Option Slot} {cs cs' : List Change} {ds : List Dealing}

/-- The places that have an object. -/
def keySet (m : Memory) : Finset Slot := m.objects.keys.toFinset

/-- What they are called, each counted. -/
def called (m : Memory) : Multiset (String × String × String) := m.keySet.val.map Slot.called

theorem mem_keySet : s ∈ m.keySet ↔ m.objects.find? s ≠ none := by
  unfold keySet Table.keys Table.find?
  rw [List.mem_toFinset, ne_eq, List.lookup_eq_none_iff]
  simp only [List.mem_map, not_forall, bne_iff_ne, not_not, ne_eq]
  constructor
  · rintro ⟨e, he, rfl⟩
    exact ⟨e, he, rfl⟩
  · rintro ⟨e, he, rfl⟩
    exact ⟨e, he, rfl⟩

theorem keySet_of_insert {o : Object} (h : m'.objects = m.objects.insert s o) : m'.keySet = insert s m.keySet := by
  ext s'
  rw [mem_keySet, Finset.mem_insert, mem_keySet, h, Table.find?_insert]
  by_cases hs : s' = s <;> simp [hs]

theorem keySet_of_erase (h : m'.objects = m.objects.erase s) : m'.keySet = m.keySet.erase s := by
  ext s'
  rw [mem_keySet, Finset.mem_erase, mem_keySet, h, Table.find?_erase]
  by_cases hs : s' = s <;> simp [hs]

/-- An object has its place among those that are filled. -/
theorem slot_mem_keySet {k : Key} {o : Object} (h : m.object? k = some o) : k.slot ∈ m.keySet :=
  mem_keySet.2 (Option.ne_none_iff_exists'.2 ⟨o, h⟩)

theorem called_congr (h : m'.keySet = m.keySet) : m'.called = m.called := by
  unfold called
  rw [h]

/-- The journal has grown by some changes. They say which places are filled now, and the notes of them how often
what is filled is called so. -/
structure Replayed (m : Memory) (cs : List Change) (m' : Memory) : Prop where
  journal : m'.journal = m.journal ++ cs
  keys : m'.keySet = cs.foldl Change.onSlots m.keySet
  counts : m'.called = (cs.map Change.note).foldl Note.onCounts m.called

theorem Replayed.of_same (hobjects : m'.objects = m.objects) (hjournal : m'.journal = m.journal) :
    m.Replayed [] m' := by
  have hkeys : m'.keySet = m.keySet := by
    unfold keySet
    rw [hobjects]
  exact ⟨by rw [hjournal, List.append_nil], hkeys, called_congr hkeys⟩

theorem Replayed.trans (h : m.Replayed cs m₁) (h' : m₁.Replayed cs' m') : m.Replayed (cs ++ cs') m' where
  journal := by rw [h'.journal, h.journal, List.append_assoc]
  keys := by rw [h'.keys, h.keys, List.foldl_append]
  counts := by rw [h'.counts, h.counts, List.map_append, List.foldl_append]

theorem Turns.replayed (h : m.Turns m' slot cs) : m.Replayed cs m' := by
  cases h with
  | looks hobjects hjournal => exact .of_same hobjects hjournal
  | @creates k stored hnone hobjects hjournal =>
    have hkeys := keySet_of_insert hobjects
    have habsent : k.slot ∉ m.keySet := fun hmem => mem_keySet.1 hmem hnone
    refine ⟨hjournal, hkeys, ?_⟩
    unfold called
    rw [hkeys, Finset.insert_val_of_notMem habsent, Multiset.map_cons]
    rfl
  | @updates k live stored hlive hobjects hjournal =>
    have hkeys : m'.keySet = m.keySet := by
      rw [keySet_of_insert hobjects, Finset.insert_eq_of_mem (slot_mem_keySet hlive)]
    exact ⟨hjournal, hkeys, called_congr hkeys⟩
  | @deletes k live hlive hobjects hjournal =>
    have hkeys := keySet_of_erase hobjects
    refine ⟨hjournal, hkeys, ?_⟩
    unfold called
    rw [hkeys, Finset.erase_val, Multiset.map_erase_of_mem _ _ (slot_mem_keySet hlive)]
    rfl

theorem Comes.replayed {α : Type} {asked : Option (Verb × String)} {r : Except Error α}
    (h : Comes asked slot m r m') : ∃ cs, m.Replayed cs m' := by
  cases h with
  | failed h => exact ⟨[], .of_same h.objects h.journal⟩
  | granted h => exact ⟨_, h.replayed⟩

theorem Turns.spares (h : m.Turns m' slot cs) (hs : slot ≠ some s) : m'.objects.find? s = m.objects.find? s := by
  cases h with
  | looks hobjects _ => rw [hobjects]
  | creates _ hobjects _ | updates _ hobjects _ =>
    rw [hobjects]
    exact Table.find?_insert_ne (fun hslot => hs (congrArg some hslot.symm)) _ _
  | deletes _ hobjects _ =>
    rw [hobjects]
    exact Table.find?_erase_ne (fun hslot => hs (congrArg some hslot.symm)) _

theorem History.replayed (h : History m ds m') (hds : ∀ d ∈ ds, ¬d.op.IsSeed) : ∃ cs, m.Replayed cs m' := by
  induction h with
  | nil => exact ⟨[], .of_same rfl rfl⟩
  | @snoc m₁ ds op h ih =>
    obtain ⟨hds, hop⟩ := List.forall_mem_append.1 hds
    obtain ⟨cs, hcs⟩ := ih hds
    obtain ⟨cs', hcs'⟩ := (op.comes (hop _ (List.mem_singleton_self _)) m₁).replayed
    exact ⟨cs ++ cs', hcs.trans hcs'⟩

/-- A request that fails leaves the objects, the version and the journal, and uses up at most the first failure
that is meant for it. One that is granted changes its own place only. After any requests, the changes that the
journal has grown by fill and empty the places of before to those of now. Their notes do so with what the places
are called: counted, and as a set where no two places that occur differ in the group only. -/
theorem requests_replayed (m : Memory) :
    (∀ (op : Operation) (e : Error), ¬op.IsSeed → (op.serve m).1 = .error e → m.Fails op.asks (op.serve m).2)
      ∧ (∀ (op : Operation) (shown : List Object), ¬op.IsSeed → (op.serve m).1 = .ok shown →
        ∀ s, op.slot? ≠ some s → (op.serve m).2.objects.find? s = m.objects.find? s)
      ∧ ∀ ds m', History m ds m' → (∀ d ∈ ds, ¬d.op.IsSeed) → ∃ cs, m.Replayed cs m'
        ∧ (Telling (m.keySet ∪ (cs.map fun c => c.key.slot).toFinset) →
          m'.keySet.image Slot.called = (cs.map Change.note).foldl Note.onSet (m.keySet.image Slot.called)) := by
  refine ⟨fun op e hop he => ?_, fun op shown hop hshown s hs => ?_, fun ds m' h hds => ?_⟩
  · have hcomes := op.comes hop m
    rw [he] at hcomes
    cases hcomes with
    | failed h => exact h
  · have hcomes := op.comes hop m
    rw [hshown] at hcomes
    cases hcomes with
    | granted h => exact h.spares hs
  · obtain ⟨cs, hcs⟩ := h.replayed hds
    refine ⟨cs, hcs, fun htelling => ?_⟩
    rw [hcs.keys]
    exact image_foldl_onSlots htelling

/-- The store after some requests. -/
def serveAll (ops : List Operation) (m : Memory) : Memory := ops.foldl (fun m op => (op.serve m).2) m

theorem serveAll_concat (ops : List Operation) (op : Operation) (m : Memory) :
    serveAll (ops ++ [op]) m = (op.serve (serveAll ops m)).2 := List.foldl_concat _ _ _ _

theorem exists_history {ops : List Operation} (hops : ∀ op ∈ ops, ¬op.IsSeed) (m : Memory) :
    ∃ ds, History m ds (serveAll ops m) ∧ ∀ d ∈ ds, ¬d.op.IsSeed := by
  induction ops using List.reverseRecOn with
  | nil => exact ⟨[], .nil m, List.forall_mem_nil _⟩
  | append_singleton ops op ih =>
    obtain ⟨hops, hop⟩ := List.forall_mem_append.1 hops
    obtain ⟨ds, h, hds⟩ := ih hops
    refine ⟨ds ++ [⟨op, (op.serve (serveAll ops m)).1⟩], ?_, List.forall_mem_append.2 ⟨hds, ?_⟩⟩
    · rw [serveAll_concat]
      exact h.snoc op
    · rintro _ (_ | ⟨_, ⟨⟩⟩)
      exact hop op (List.mem_singleton_self op)

namespace Replay

def before : Memory := { now := default }

def widget (apiVersion name : String) : Object :=
  { type := some ⟨apiVersion, "Widget"⟩, metadata := { name := some name, ns := some "ns" }, data := [] }

def key (apiVersion name : String) : Key := ⟨⟨apiVersion, "Widget"⟩, some "ns", name⟩

/-- A request that fails on demand, and others about two objects, of which one is left. -/
def requests : List Operation :=
  [.failOn .create "Widget", .create (widget "a.io/v1" "m"), .create (widget "a.io/v1" "m"),
    .create (widget "b.io/v1" "n"), .delete (key "a.io/v1" "m"), .delete (key "a.io/v1" "m")]

theorem requests_checked :
    Telling (before.keySet ∪ ((serveAll requests before).journal.map fun c => c.key.slot).toFinset)
      ∧ (((serveAll requests before).journal.map Change.note).foldl Note.onSet ∅) = {("Widget", "ns", "n")} := by
  decide +kernel

/-- The journal tells which of two objects is left. -/
theorem left_widget_told :
    (serveAll requests before).keySet.image Slot.called = {("Widget", "ns", "n")} := by
  obtain ⟨ds, h, hds⟩ := exists_history (show ∀ op ∈ requests, ¬op.IsSeed by decide) before
  obtain ⟨cs, hcs, htold⟩ := (requests_replayed before).2.2 ds _ h hds
  have hjournal : (serveAll requests before).journal = cs := hcs.journal
  rw [← hjournal] at htold
  rw [htold requests_checked.1]
  exact requests_checked.2

/-- The store where objects of two APIs had been called the same, and the one of them has been deleted. -/
def after (apiVersion : String) : Memory :=
  serveAll [.create (widget "a.io/v1" "n"), .create (widget "b.io/v1" "n"), .delete (key apiVersion "n")] before

/-- The notes are the same whichever was deleted, and the object that is left is none that they tell of. -/
theorem twin_deleted_unseen :
    (∀ v, ∃ ds, History before ds (after v) ∧ ∀ d ∈ ds, ¬d.op.IsSeed)
      ∧ ((after "a.io/v1").journal.map Change.note = (after "b.io/v1").journal.map Change.note)
      ∧ (after "a.io/v1").keySet = {⟨"b.io", "Widget", "ns", "n"⟩}
      ∧ (after "b.io/v1").keySet = {⟨"a.io", "Widget", "ns", "n"⟩}
      ∧ before.keySet = ∅ ∧ ((after "a.io/v1").journal.map Change.note).foldl Note.onSet ∅ = ∅ := by
  refine ⟨fun v => exists_history ?_ before, by decide +kernel⟩
  simp [Operation.IsSeed]

end Replay

end Memory

end Addons
