import Addons.Proofs.Store.Outcome
import Mathlib.Data.List.Induction

/-!
# No update is lost

Whoever asks it and in whatever order, a store hands out versions that increase, each once. So the version
that an object was read under tells whether it is still there: an update that names it succeeds only if
nothing was written or deleted in that place since (`Memory.no_lost_update`). What carries this through a
history is that each object that was ever shown is the only one of its version (`Memory.Accounts`).
-/

namespace Addons

/-- What is asked of a store; it does not tell its clients apart. -/
inductive Operation where
  | seed (o : Object)
  | create (o : Object)
  | update (o : Object)
  | delete (k : Key)
  | get (k : Key)
  | list (t : TypeRef) (ns selector : Option String)
  /-- The next request of a kind is to fail. -/
  | failOn (v : Verb) (kind : String)

namespace Operation

/-- The objects that the store shows, or why it refuses. -/
def serve (op : Operation) (m : Memory) : Except Error (List Object) × Memory :=
  match op with
  | seed o =>
    match m.seed o with
    | .ok (stored, m') => (.ok [stored], m')
    | .error e => (.error e, m)
  | create o => ((m.create o).1.map fun stored => [stored], (m.create o).2)
  | update o => ((m.update o).1.map fun stored => [stored], (m.update o).2)
  | delete k => ((m.delete k).1.map fun _ => [], (m.delete k).2)
  | get k => ((m.get k).1.map fun o => [o], (m.get k).2)
  | list t ns sel => m.list t ns sel
  | failOn v kind => (.ok [], m.failOn v kind)

/-- The place that is written or emptied where the store grants the operation. -/
def slot? : Operation → Option Slot
  | seed o | create o | update o => o.key.toOption.map Key.slot
  | delete k => some k.slot
  | get _ | list _ _ _ | failOn _ _ => none

def writes : Operation → Bool
  | seed _ | create _ | update _ => true
  | delete _ | get _ | list _ _ _ | failOn _ _ => false

end Operation

/-- An operation and what came of it. -/
structure Dealing where
  op : Operation
  answer : Except Error (List Object)

namespace Dealing

def shown (d : Dealing) : List Object := d.answer.toOption.getD []

/-- A place was written or emptied. -/
def Changes (d : Dealing) (s : Slot) : Prop := d.answer.isOk ∧ d.op.slot? = some s

/-- The object that was put into the store. -/
def written? (d : Dealing) : Option Object := if d.op.writes then d.shown.head? else none

end Dealing

/-- What clients have dealt with a store, in the order in which it served them. -/
inductive Memory.History : Memory → List Dealing → Memory → Prop
  | nil (m : Memory) : History m [] m
  | snoc {m₀ m : Memory} {ds : List Dealing} (op : Operation) :
      History m₀ ds m → History m₀ (ds ++ [⟨op, (op.serve m).1⟩]) (op.serve m).2

namespace Dealing

/-- The versions that were handed out. -/
def versions (ds : List Dealing) : List String :=
  ds.filterMap fun d => d.written?.bind fun o => o.metadata.resourceVersion

/-- A client was shown the object, and this has been dealt since. -/
def Shown (ds : List Dealing) (o : Object) (since : List Dealing) : Prop :=
  ∃ before d, ds = before ++ d :: since ∧ o ∈ d.shown

/-- The object was put into the store, and this has been dealt since. -/
def Put (ds : List Dealing) (o : Object) (since : List Dealing) : Prop :=
  ∃ before d, ds = before ++ d :: since ∧ d.written? = some o

end Dealing

/-! ## One operation -/

namespace Dealing

variable {m m' : Memory} {d : Dealing} {s : Slot} {left : Option Object}

/-- The store is looked at, or the operation is refused. -/
structure Spares (m : Memory) (d : Dealing) (m' : Memory) : Prop where
  objects : m'.objects = m.objects
  unchanged : ∀ s, ¬d.Changes s
  unwritten : d.written? = none
  shown : ∀ o ∈ d.shown, ∃ s, m.objects.find? s = some o

/-- A place is written, under the next version, or emptied. -/
structure Alters (m : Memory) (d : Dealing) (m' : Memory) (s : Slot) (left : Option Object) : Prop where
  find? : ∀ s', m'.objects.find? s' = if s' = s then left else m.objects.find? s'
  changes : ∀ s', d.Changes s' ↔ s' = s
  written : d.written? = left
  shown : d.shown = left.toList
  version : ∀ o, left = some o → m'.version = m.version + 1
    ∧ o.metadata.resourceVersion = some (Memory.versionText m'.version)

theorem spares_of_error {op : Operation} {e : Error} (hm : m'.objects = m.objects) :
    Spares m ⟨op, .error e⟩ m' := by
  refine ⟨hm, fun s h => ?_, ?_, fun o ho => absurd ho List.not_mem_nil⟩
  · exact absurd h.1 Bool.false_ne_true
  · unfold written?
    split <;> rfl

theorem alters_of_put {op : Operation} {stored : Object} {k : Key} (hslot : op.slot? = some k.slot)
    (hwrites : op.writes = true) (hv : m'.version = m.version + 1)
    (hstored : stored.metadata.resourceVersion = some (Memory.versionText m'.version))
    (hm : m'.objects = m.objects.insert k.slot stored) :
    Alters m ⟨op, .ok [stored]⟩ m' k.slot (some stored) := by
  refine ⟨fun s' => ?_, fun s' => ?_, ?_, rfl, ?_⟩
  · rw [hm]
    exact Table.find?_insert _ _ _ _
  · unfold Changes
    rw [hslot, Option.some.injEq]
    exact ⟨fun h => h.2.symm, fun h => ⟨rfl, h.symm⟩⟩
  · unfold written?
    rw [if_pos hwrites]
    rfl
  · rintro o ⟨rfl⟩
    exact ⟨hv, hstored⟩

/-- What is written has a version that nothing had before. -/
theorem Alters.fresh (hd : d.Alters m m' s left) {o stored : Object} (hleft : left = some stored) {n : Nat}
    (hn : n ≤ m.version) (ho : o.metadata.resourceVersion = some (Memory.versionText n)) :
    stored.metadata.resourceVersion ≠ o.metadata.resourceVersion := by
  obtain ⟨hnext, hstored⟩ := hd.version stored hleft
  intro hsame
  have htext := Memory.versionText_injective (Option.some.inj (hstored.symm.trans (hsame.trans ho)))
  omega

end Dealing

namespace Operation

variable {m : Memory}

theorem slot?_eq {o : Object} {k : Key} (hk : o.key = .ok k) : o.key.toOption.map Key.slot = some k.slot := by
  rw [hk]
  rfl

/-- An operation spares the store or alters one place. -/
theorem effect (hm : m.Filed) (op : Operation) :
    Dealing.Spares m ⟨op, (op.serve m).1⟩ (op.serve m).2
      ∨ ∃ s left, Dealing.Alters m ⟨op, (op.serve m).1⟩ (op.serve m).2 s left := by
  cases op with
  | seed o =>
    dsimp only [serve]
    cases hseed : m.seed o with
    | error e => exact .inl (Dealing.spares_of_error rfl)
    | ok r =>
      obtain ⟨k, hk, hr⟩ := of_bind_eq_ok hseed
      cases hr
      exact .inr ⟨_, _, Dealing.alters_of_put (slot?_eq (o := o) hk) rfl rfl rfl rfl⟩
  | create o =>
    dsimp only [serve]
    obtain ⟨hobjects, e, he⟩ | ⟨k, stored, hk, -, hs, hobjects, hr⟩ := Answered.create_served m o
    · rw [he]
      exact .inl (Dealing.spares_of_error hobjects)
    · rw [hr]
      exact .inr ⟨_, _, Dealing.alters_of_put (slot?_eq hk) rfl hs.next hs.version hobjects⟩
  | update o =>
    dsimp only [serve]
    obtain ⟨hobjects, e, he⟩ | ⟨k, live, stored, hk, -, -, hs, hobjects, hr⟩ := Answered.update_served m o
    · rw [he]
      exact .inl (Dealing.spares_of_error hobjects)
    · rw [hr]
      exact .inr ⟨_, _, Dealing.alters_of_put (slot?_eq hk) rfl hs.next hs.version hobjects⟩
  | delete k =>
    dsimp only [serve]
    obtain ⟨hobjects, e, he, -⟩ | ⟨hobjects, hr⟩ := Answered.delete_served m k
    · rw [he]
      exact .inl (Dealing.spares_of_error hobjects)
    · rw [hr]
      refine .inr ⟨k.slot, none, fun s' => ?_, fun s' => ?_, rfl, rfl, fun o h => nomatch h⟩
      · rw [hobjects]
        exact Table.find?_erase _ _ _
      · exact ⟨fun h => (Option.some.inj h.2).symm, fun h => ⟨rfl, congrArg some h.symm⟩⟩
  | get k =>
    dsimp only [serve]
    obtain ⟨hobjects, hfound, -⟩ := Answered.get_served m k
    refine .inl ⟨hobjects, fun s h => (nomatch h.2), rfl, fun o ho => ⟨k.slot, hfound o ?_⟩⟩
    cases hr : (m.get k).1 with
    | error e =>
      rw [hr] at ho
      exact absurd ho List.not_mem_nil
    | ok live =>
      rw [hr] at ho
      rw [List.mem_singleton.1 ho]
  | list t ns sel =>
    dsimp only [serve]
    obtain ⟨hobjects, hlisted⟩ := Answered.list_served m t ns sel
    refine .inl ⟨hobjects, fun s h => (nomatch h.2), rfl, fun o ho => ?_⟩
    cases hr : (m.list t ns sel).1 with
    | error e =>
      unfold Dealing.shown at ho
      rw [hr] at ho
      exact absurd ho List.not_mem_nil
    | ok l =>
      unfold Dealing.shown at ho
      rw [hr] at ho
      rw [hlisted l hr] at ho
      obtain ⟨s, hs, -⟩ := hm.mem_listing.1 ho
      exact ⟨s, hs⟩
  | failOn v kind =>
    exact .inl ⟨rfl, fun s h => (nomatch h.2), rfl, fun o ho => absurd ho List.not_mem_nil⟩

theorem filed (hm : m.Filed) (op : Operation) : (op.serve m).2.Filed := by
  cases op with
  | seed o =>
    dsimp only [serve]
    cases hseed : m.seed o with
    | error e => exact hm
    | ok r => exact hm.seed hseed
  | create o => exact hm.create o
  | update o => exact hm.update o
  | delete k => exact hm.delete k
  | get k => exact hm.get k
  | list t ns sel => exact hm.list t ns sel
  | failOn v kind => exact hm.of_objects rfl le_rfl

theorem version_le (op : Operation) : m.version ≤ (op.serve m).2.version := by
  cases op with
  | seed o =>
    dsimp only [serve]
    cases hseed : m.seed o with
    | error e => exact le_rfl
    | ok r =>
      obtain ⟨k, -, hr⟩ := of_bind_eq_ok hseed
      cases hr
      exact Nat.le_succ _
  | create o => exact Memory.create_le o
  | update o => exact Memory.update_le o
  | delete k => exact Memory.delete_le k
  | get k => exact Memory.get_le k
  | list t ns sel => exact Memory.list_le t ns sel
  | failOn v kind => exact le_rfl

end Operation

/-! ## A history -/

namespace Dealing

variable {ds since : List Dealing} {d : Dealing} {o : Object}

theorem Shown.concat (h : Shown (ds ++ [d]) o since) :
    (since = [] ∧ o ∈ d.shown) ∨ ∃ since', since = since' ++ [d] ∧ Shown ds o since' := by
  obtain ⟨before, r, hsplit, ho⟩ := h
  induction since using List.reverseRecOn with
  | nil =>
    obtain rfl : d = r := (List.cons.inj (List.append_inj' hsplit rfl).2).1
    exact .inl ⟨rfl, ho⟩
  | append_singleton since c _ =>
    rw [← List.cons_append, ← List.append_assoc] at hsplit
    obtain ⟨hds, hd⟩ := List.append_inj' hsplit rfl
    obtain rfl : d = c := (List.cons.inj hd).1
    exact .inr ⟨since, rfl, before, r, hds, ho⟩

theorem Put.concat (h : Put ds o since) (d : Dealing) : Put (ds ++ [d]) o (since ++ [d]) := by
  obtain ⟨before, w, rfl, hw⟩ := h
  exact ⟨before, w, by simp, hw⟩

theorem Put.of_last (h : d.written? = some o) : Put (ds ++ [d]) o [] := ⟨ds, d, rfl, h⟩

end Dealing

namespace Memory

variable {m₀ m m' : Memory} {ds since : List Dealing} {d : Dealing} {s : Slot} {o : Object}
  {left : Option Object}

/-- No two objects have the same version. -/
def Sole (m : Memory) : Prop :=
  ∀ s s' o o', m.objects.find? s = some o → m.objects.find? s' = some o' →
    o.metadata.resourceVersion = o'.metadata.resourceVersion → s = s'

/-- An object was shown, and then some dealings followed: if an object of its version is stored it is that
object, and they have not changed its place. -/
structure Remembers (m : Memory) (o : Object) (since : List Dealing) : Prop where
  dated : ∃ n ≤ m.version, o.metadata.resourceVersion = some (versionText n)
  live : ∀ s live, m.objects.find? s = some live →
    live.metadata.resourceVersion = o.metadata.resourceVersion → live = o ∧ ∀ d ∈ since, ¬d.Changes s

theorem Remembers.of_live (hm : m.Filed) (hsole : m.Sole) (ho : m.objects.find? s = some o) :
    m.Remembers o [] := by
  refine ⟨hm.version_of_find? ho, fun s' live hlive hsame => ⟨?_, fun d hd => absurd hd List.not_mem_nil⟩⟩
  obtain rfl := hsole s' s live o hlive ho hsame
  exact Option.some.inj (hlive.symm.trans ho)

theorem Remembers.spared (h : m.Remembers o since) (hd : d.Spares m m') (hv : m.version ≤ m'.version) :
    m'.Remembers o (since ++ [d]) := by
  obtain ⟨n, hn, hversion⟩ := h.dated
  refine ⟨⟨n, hn.trans hv, hversion⟩, fun s live hlive hsame => ?_⟩
  rw [hd.objects] at hlive
  obtain ⟨rfl, hsince⟩ := h.live s live hlive hsame
  exact ⟨rfl, List.forall_mem_append.2 ⟨hsince, List.forall_mem_singleton.2 (hd.unchanged s)⟩⟩

theorem Remembers.altered (h : m.Remembers o since) (hd : d.Alters m m' s left)
    (hv : m.version ≤ m'.version) : m'.Remembers o (since ++ [d]) := by
  obtain ⟨n, hn, hversion⟩ := h.dated
  refine ⟨⟨n, hn.trans hv, hversion⟩, fun s' live hlive hsame => ?_⟩
  rw [hd.find?] at hlive
  split at hlive
  · exact absurd hsame (hd.fresh hlive hn hversion)
  · rename_i hs
    obtain ⟨rfl, hsince⟩ := h.live s' live hlive hsame
    have hspared : ¬d.Changes s' := (hd.changes s').not.2 hs
    exact ⟨rfl, List.forall_mem_append.2 ⟨hsince, List.forall_mem_singleton.2 hspared⟩⟩

theorem Sole.altered (h : m.Sole) (hm : m.Filed) (hd : d.Alters m m' s left) : m'.Sole := by
  intro s₁ s₂ o₁ o₂ h₁ h₂ hsame
  rw [hd.find?] at h₁ h₂
  split at h₁ <;> split at h₂
  · rename_i hs₁ hs₂
    rw [hs₁, hs₂]
  · obtain ⟨n, hn, hversion⟩ := hm.version_of_find? h₂
    exact absurd hsame (hd.fresh h₁ hn hversion)
  · obtain ⟨n, hn, hversion⟩ := hm.version_of_find? h₁
    exact absurd hsame.symm (hd.fresh h₂ hn hversion)
  · exact h s₁ s₂ o₁ o₂ h₁ h₂ hsame

/-- The versions that were handed out are numbers that increase, up to that of the store. -/
def Handed (ds : List Dealing) (m : Memory) : Prop :=
  ∃ ns : List Nat, Dealing.versions ds = ns.map versionText ∧ ns.Pairwise (· < ·) ∧ ∀ n ∈ ns, n ≤ m.version

theorem Handed.unwritten (h : Handed ds m) (hd : d.written? = none) (hv : m.version ≤ m'.version) :
    Handed (ds ++ [d]) m' := by
  obtain ⟨ns, hns, hincreasing, hle⟩ := h
  refine ⟨ns, ?_, hincreasing, fun n hn => (hle n hn).trans hv⟩
  unfold Dealing.versions at hns ⊢
  rw [List.filterMap_append, hns]
  simp [hd]

theorem Handed.written {stored : Object} (h : Handed ds m) (hd : d.written? = some stored)
    (hnext : m'.version = m.version + 1)
    (hstored : stored.metadata.resourceVersion = some (versionText m'.version)) : Handed (ds ++ [d]) m' := by
  obtain ⟨ns, hns, hincreasing, hle⟩ := h
  refine ⟨ns ++ [m'.version], ?_, List.pairwise_append.2 ⟨hincreasing, List.pairwise_singleton _ _, ?_⟩,
    List.forall_mem_append.2 ⟨fun n hn => ?_, List.forall_mem_singleton.2 le_rfl⟩⟩
  · unfold Dealing.versions at hns ⊢
    rw [List.filterMap_append, hns]
    simp [hd, hstored]
  · intro n hn
    have hlast := hle n hn
    refine List.forall_mem_singleton.2 ?_
    omega
  · have hlast := hle n hn
    omega

/-- What a history says of the store that it has led to. -/
structure Accounts (ds : List Dealing) (m : Memory) : Prop where
  filed : m.Filed
  sole : m.Sole
  handed : Handed ds m
  shown : ∀ o since, Dealing.Shown ds o since → m.Remembers o since
  /-- Every object was put where it is, and nothing has been done there since. -/
  origin : ∀ s o, m.objects.find? s = some o → ∃ since, Dealing.Put ds o since ∧ ∀ d ∈ since, ¬d.Changes s

theorem Accounts.spared (h : Accounts ds m) (hm : m'.Filed) (hd : d.Spares m m')
    (hv : m.version ≤ m'.version) : Accounts (ds ++ [d]) m' := by
  have hsole : m'.Sole := by
    unfold Sole
    rw [hd.objects]
    exact h.sole
  refine ⟨hm, hsole, h.handed.unwritten hd.unwritten hv, fun o since hshown => ?_, fun s o ho => ?_⟩
  · obtain ⟨rfl, ho⟩ | ⟨since, rfl, hbefore⟩ := hshown.concat
    · obtain ⟨s, hs⟩ := hd.shown o ho
      rw [← hd.objects] at hs
      exact .of_live hm hsole hs
    · exact (h.shown o since hbefore).spared hd hv
  · rw [hd.objects] at ho
    obtain ⟨since, hput, hsince⟩ := h.origin s o ho
    exact ⟨since ++ [d], hput.concat d,
      List.forall_mem_append.2 ⟨hsince, List.forall_mem_singleton.2 (hd.unchanged s)⟩⟩

theorem Accounts.altered (h : Accounts ds m) (hm : m'.Filed) (hd : d.Alters m m' s left)
    (hv : m.version ≤ m'.version) : Accounts (ds ++ [d]) m' := by
  have hsole := h.sole.altered h.filed hd
  refine ⟨hm, hsole, ?_, fun o since hshown => ?_, fun s' o ho => ?_⟩
  · cases left with
    | none => exact h.handed.unwritten hd.written hv
    | some stored =>
      obtain ⟨hnext, hstored⟩ := hd.version stored rfl
      exact h.handed.written hd.written hnext hstored
  · obtain ⟨rfl, ho⟩ | ⟨since, rfl, hbefore⟩ := hshown.concat
    · rw [hd.shown, Option.mem_toList] at ho
      have hs : m'.objects.find? s = some o := by
        rw [hd.find?, if_pos rfl]
        exact ho
      exact .of_live hm hsole hs
    · exact (h.shown o since hbefore).altered hd hv
  · rw [hd.find?] at ho
    split at ho
    · exact ⟨[], .of_last (hd.written.trans ho), fun d' hd' => absurd hd' List.not_mem_nil⟩
    · rename_i hs
      obtain ⟨since, hput, hsince⟩ := h.origin s' o ho
      have hspared : ¬d.Changes s' := (hd.changes s').not.2 hs
      exact ⟨since ++ [d], hput.concat d,
        List.forall_mem_append.2 ⟨hsince, List.forall_mem_singleton.2 hspared⟩⟩

theorem History.accounts (hempty : m₀.objects = []) (h : History m₀ ds m) : Accounts ds m := by
  induction h with
  | nil =>
    have hnone : ∀ s o, m₀.objects.find? s ≠ some o := fun s o ho => by
      rw [hempty] at ho
      cases ho
    refine ⟨.of_nil hempty, fun s _ o _ ho _ _ => absurd ho (hnone s o),
      ⟨[], rfl, .nil, fun _ h => nomatch h⟩, ?_, fun s o ho => absurd ho (hnone s o)⟩
    rintro o since ⟨before, d, hsplit, -⟩
    exact absurd hsplit.symm (by simp)
  | snoc op _ ih =>
    rcases op.effect ih.filed with hd | ⟨s, left, hd⟩
    · exact ih.spared (op.filed ih.filed) hd op.version_le
    · exact ih.altered (op.filed ih.filed) hd op.version_le

/-! ## Updates -/

/-- An update that names another version than the live one is a conflict, unless it is made to fail. -/
theorem update_stale {k : Key} {live : Object} {version : String} (hk : o.key = .ok k)
    (hlive : m.object? k = some live) (hversion : o.metadata.resourceVersion = some version)
    (hne : live.metadata.resourceVersion ≠ some version) :
    (m.update o).1 = .error (.timeout "injected")
      ∨ (m.update o).1 = .error (.conflict k.display s!"stale resourceVersion {version}") := by
  by_cases hfailure : (.update, k.type.kind) ∈ m.failures
  · unfold update
    rw [hk]
    dsimp only
    rw [request_failed hfailure]
    exact .inl rfl
  · exact .inr (Session.ends_replace_stale hk hfailure hlive hversion hne { memory := m })

/-- The object under the version that an update names is the one that is replaced. -/
theorem Accounts.of_update (h : Accounts ds m) {stored : Object} (hok : (m.update o).1 = .ok stored) :
    ∃ k live, o.key = .ok k ∧ m.object? k = some live
      ∧ live.metadata.resourceVersion = o.metadata.resourceVersion
      ∧ (∃ since, Dealing.Put ds live since ∧ ∀ d ∈ since, ¬d.Changes k.slot)
      ∧ ∀ read since, Dealing.Shown ds read since →
          read.metadata.resourceVersion = o.metadata.resourceVersion →
          live = read ∧ ∀ d ∈ since, ¬d.Changes k.slot := by
  obtain ⟨-, e, he⟩ | ⟨k, live, -, hk, hlive, hsame, -⟩ := Answered.update_served m o
  · cases hok.symm.trans he
  · exact ⟨k, live, hk, hlive, hsame, h.origin _ _ hlive, fun read since hread hversion =>
      (h.shown read since hread).live _ _ hlive (hsame.trans hversion.symm)⟩

/-- An update under the version of something that was read before its place was changed. -/
theorem Accounts.update_refused (h : Accounts ds m) {read : Object} {k : Key}
    (hread : Dealing.Shown ds read since) (hk : o.key = .ok k)
    (hversion : o.metadata.resourceVersion = read.metadata.resourceVersion)
    (hchanged : ∃ d ∈ since, d.Changes k.slot) :
    ∃ e, (m.update o).1 = .error e ∧ (m.object? k ≠ none → e.isConflict ∨ e = .timeout "injected") := by
  obtain ⟨d, hd, hchanges⟩ := hchanged
  have hremembers := h.shown read since hread
  obtain ⟨n, -, hn⟩ := hremembers.dated
  have hstale : ∀ live, m.object? k = some live →
      live.metadata.resourceVersion ≠ some (versionText n) := fun live hlive hsame =>
    (hremembers.live _ _ hlive (hsame.trans hn.symm)).2 d hd hchanges
  cases hlive : m.object? k with
  | none =>
    obtain ⟨-, e, he⟩ | ⟨k', live, -, hk', hlive', -⟩ := Answered.update_served m o
    · exact ⟨e, he, fun hne => absurd rfl hne⟩
    · obtain rfl := Except.ok.inj (hk.symm.trans hk')
      cases hlive.symm.trans hlive'
  | some live =>
    rcases update_stale hk hlive (hversion.trans hn) (hstale live hlive) with he | he
    · exact ⟨_, he, fun _ => .inr rfl⟩
    · exact ⟨_, he, fun _ => .inl rfl⟩

/-- Versions increase and none is handed out twice. An update succeeds only where the object that its
version was given to still is, with nothing written or deleted there since it was put or since it was last
read; and once that place was changed, an update under any version that was read before is refused. -/
theorem no_lost_update (hempty : m₀.objects = []) (h : History m₀ ds m) :
    (∃ ns : List Nat, Dealing.versions ds = ns.map versionText ∧ ns.Pairwise (· < ·))
      ∧ (Dealing.versions ds).Nodup
      ∧ (∀ o stored, (m.update o).1 = .ok stored → ∃ k live, o.key = .ok k ∧ m.object? k = some live
          ∧ live.metadata.resourceVersion = o.metadata.resourceVersion
          ∧ (∃ since, Dealing.Put ds live since ∧ ∀ d ∈ since, ¬d.Changes k.slot)
          ∧ ∀ read since, Dealing.Shown ds read since →
              read.metadata.resourceVersion = o.metadata.resourceVersion →
              live = read ∧ ∀ d ∈ since, ¬d.Changes k.slot)
      ∧ ∀ read since o k, Dealing.Shown ds read since → o.key = .ok k →
          o.metadata.resourceVersion = read.metadata.resourceVersion → (∃ d ∈ since, d.Changes k.slot) →
          ∃ e, (m.update o).1 = .error e ∧ (m.object? k ≠ none → e.isConflict ∨ e = .timeout "injected") := by
  have haccounts := h.accounts hempty
  obtain ⟨ns, hns, hincreasing, -⟩ := haccounts.handed
  refine ⟨⟨ns, hns, hincreasing⟩, ?_, fun o stored hok => haccounts.of_update hok,
    fun read since o k hread hk hversion hchanged => haccounts.update_refused hread hk hversion hchanged⟩
  rw [hns]
  exact List.Nodup.map versionText_injective (hincreasing.imp fun hlt => Nat.ne_of_lt hlt)

namespace Versions

def cfg : Object := { type := some ⟨"v1", "ConfigMap"⟩, metadata := { name := some "cfg" }, data := [] }

def key : Key := ⟨⟨"v1", "ConfigMap"⟩, none, "cfg"⟩

def before : Memory := { now := default }

def created : Memory := (before.create cfg).2

/-- The store when the object was read, deleted and created anew. -/
def recreated : Memory := (((created.get key).2.delete key).2.create cfg).2

def withVersion (version : String) : Object :=
  { cfg with metadata := { cfg.metadata with resourceVersion := some version } }

/-- The dealings: what was created, that it was read and deleted, and that it was created anew. -/
def dealings : List Dealing :=
  [⟨.create cfg, ((Operation.create cfg).serve before).1⟩, ⟨.get key, ((Operation.get key).serve created).1⟩,
    ⟨.delete key, ((Operation.delete key).serve (created.get key).2).1⟩,
    ⟨.create cfg, ((Operation.create cfg).serve ((created.get key).2.delete key).2).1⟩]

theorem recreation_checked :
    ((created.get key).1.toOption.any fun o => o.metadata.resourceVersion = some "1") = true
      ∧ ((Operation.delete key).serve (created.get key).2).1.isOk = true
      ∧ ((recreated.update (withVersion "2")).1.toOption.any fun _ => true) = true := by
  decide +kernel

/-- The version that was read before is refused, and the new one replaces what stands there. -/
theorem old_version_refused :
    History before dealings recreated ∧ (∃ e, (recreated.update (withVersion "1")).1 = .error e)
      ∧ ∃ stored, (recreated.update (withVersion "2")).1 = .ok stored
        ∧ ∃ live since, recreated.object? key = some live ∧ Dealing.Put dealings live since := by
  have hhistory : History before dealings recreated := .snoc _ (.snoc _ (.snoc _ (.snoc _ (.nil before))))
  obtain ⟨-, -, hreplaces, hrefused⟩ := no_lost_update rfl hhistory
  obtain ⟨hread, hdeleted, hupdated⟩ := recreation_checked
  obtain ⟨read, hget, hversion⟩ := ok_of_any hread
  obtain ⟨stored, hstored, -⟩ := ok_of_any hupdated
  refine ⟨hhistory, ?_, stored, hstored, ?_⟩
  · have hshown : Dealing.Shown dealings read (dealings.drop 2) := by
      refine ⟨dealings.take 1, _, rfl, ?_⟩
      show read ∈ ((created.get key).1.map fun o => [o]).toOption.getD []
      rw [hget]
      exact List.mem_singleton_self read
    obtain ⟨e, he, -⟩ := hrefused read (dealings.drop 2) (withVersion "1") key hshown rfl
      (of_decide_eq_true hversion).symm ⟨_, List.mem_cons_self, hdeleted, rfl⟩
    exact ⟨e, he⟩
  · obtain ⟨k, live, hk, hlive, -, ⟨since, hput, -⟩, -⟩ := hreplaces _ stored hstored
    obtain rfl : key = k := Except.ok.inj hk
    exact ⟨live, since, hlive, hput⟩

end Versions

end Memory

end Addons
