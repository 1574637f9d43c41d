import Addons.Proofs.Bundle.Shared
import Addons.Proofs.Store.Deletions

/-!
# How a removal goes on

A removal deletes what the record tracks, in the order of its list, and last the record. A request may fail anywhere
on the way. `remove_in_order`: what is gone then is what comes before some place in that order, and nothing else is,
so that the record is there with its whole list unless the removal got to its end; and a removal that no failure
cuts short takes the store from there to where it would have taken it from the start.
-/

namespace Addons.Bundle

open Session (amid_bind amid_lift_bind amid_run)

variable {ns name : String} {m m' : Memory} {cs : List Contact} {gone noted rest : List Key}

/-- What a removal deletes, in its order. -/
def removalOrder (ns name : String) (m : Memory) : List Key :=
  (trackedIn ns name m).map Key.ofTracked ++ [recordKey ns name]

/-- How many of the tracked objects are there. -/
def trackedThere (ns name : String) (m : Memory) : Nat := m.filled ((trackedIn ns name m).map Tracked.slot)

theorem amid_record? {a : Except Error (Option ManifestRecord)} (h : (record? ns name).Amid Eq m cs a m') :
    m.Deleted [] [] m' ∧ (a = .ok none → m.object? (recordKey ns name) = none)
      ∧ ∀ record, a = .ok (some record) → ∃ o, m.object? (recordKey ns name) = some o
        ∧ manifestRecords.ofObject o = .ok record := by
  obtain ⟨o?, m₁, cs₁, cs₂, h₁, rfl, h₂⟩ | ⟨e, h₁, rfl⟩ := amid_bind h
  · obtain ⟨c, rfl, rfl, rfl, hm, hj, ho⟩ := Session.amid_find? h₁
    cases o? with
    | none =>
      obtain ⟨rfl, rfl, rfl⟩ := h₂
      exact ⟨.of_same hm hj, fun _ => ho none rfl, (fun _ h => nomatch h)⟩
    | some o =>
      obtain ⟨record, hr, rfl, rfl, rfl⟩ | ⟨e, -, rfl, rfl, rfl⟩ := amid_lift_bind h₂
      · refine ⟨.of_same hm hj, (fun h => nomatch h), ?_⟩
        rintro _ ⟨rfl⟩
        exact ⟨o, ho _ rfl, hr⟩
      · exact ⟨.of_same hm hj, (fun h => nomatch h), (fun _ h => nomatch h)⟩
  · obtain ⟨c, rfl, rfl, rfl, hm, hj, -⟩ := Session.amid_find? h₁
    exact ⟨.of_same hm hj, (fun h => nomatch h), (fun _ h => nomatch h)⟩

theorem amid_removeTracked {ts : List Tracked} {a : Except Error Nat} (h : (removeTracked ts).Amid Eq m cs a m') :
    ∃ gone noted rest, Clearing m (ts.map Key.ofTracked) cs a.toOption m' gone noted rest := by
  induction ts generalizing m cs a with
  | nil =>
    obtain ⟨rfl, rfl, rfl⟩ := h
    refine ⟨[], [], [], rfl, .of_same rfl rfl, ?_, fun h => nomatch h⟩
    rintro n ⟨rfl⟩
    exact ⟨rfl, rfl⟩
  | cons t ts ih =>
    obtain ⟨existed, m₁, cs₁, cs₂, h₁, rfl, h₂⟩ | ⟨e, h₁, rfl⟩ := amid_bind h
    · obtain ⟨gone, noted, rest, hfirst⟩ := Session.amid_removeIfExists h₁
      obtain ⟨more, m₂, cs₃, cs₄, h₃, rfl, rfl, rfl, rfl⟩ | ⟨e, h₃, rfl⟩ := amid_bind h₂
      · obtain ⟨gone', noted', rest', hothers⟩ := ih h₃
        have hall := hfirst.append hothers
        rw [List.append_nil]
        cases existed <;> exact ⟨_, _, _, hall⟩
      · obtain ⟨gone', noted', rest', hothers⟩ := ih h₃
        exact ⟨_, _, _, hfirst.append hothers⟩
    · obtain ⟨gone, noted, rest, hfirst⟩ := Session.amid_removeIfExists h₁
      exact ⟨_, _, _, hfirst.cut_append (ts.map Key.ofTracked)⟩

/-- A list is deleted, and then one more key; the number is that of the list, whatever comes of the last key. -/
theorem amid_removeListed {ts : List Tracked} {k : Key} {p : Propagation} {a : Except Error Nat}
    (h : Session.Amid Eq (do
      let deleted ← removeTracked ts
      let _ ← Session.removeIfExists k p
      return deleted) m cs a m') : ∃ gone noted rest told,
      Clearing m (ts.map Key.ofTracked ++ [k]) cs told m' gone noted rest
        ∧ (∀ n, a = .ok n → (∃ l, told = some l) ∧ n = m.filled (ts.map Tracked.slot))
        ∧ ∀ e, a = .error e → told = none := by
  obtain ⟨n, m₁, cs₁, cs₂, h₁, rfl, h₂⟩ | ⟨e, h₁, rfl⟩ := amid_bind h
  · obtain ⟨gone, noted, rest, hlisted⟩ := amid_removeTracked h₁
    have hn : n = m.filled (ts.map Tracked.slot) := by
      obtain ⟨hrest, hcount⟩ := hlisted.done n rfl
      have hgone := hlisted.split
      rw [hrest, List.append_nil] at hgone
      rw [hcount, hlisted.deleted.length_noted, ← hgone]
      exact congrArg m.filled List.map_map
    obtain ⟨existed, m₂, cs₃, cs₄, h₃, rfl, rfl, rfl, rfl⟩ | ⟨e, h₃, rfl⟩ := amid_bind h₂
    · obtain ⟨gone', noted', rest', hlast⟩ := Session.amid_removeIfExists h₃
      rw [List.append_nil]
      refine ⟨_, _, _, _, hlisted.append hlast, ?_, fun e h => nomatch h⟩
      rintro _ ⟨rfl⟩
      exact ⟨⟨_, rfl⟩, hn⟩
    · obtain ⟨gone', noted', rest', hlast⟩ := Session.amid_removeIfExists h₃
      exact ⟨_, _, _, _, hlisted.append hlast, (fun n h => nomatch h), fun _ _ => rfl⟩
  · obtain ⟨gone, noted, rest, hlisted⟩ := amid_removeTracked h₁
    exact ⟨_, _, _, _, hlisted.cut_append [k], (fun n h => nomatch h), fun _ _ => rfl⟩

/-- How far a removal has come. -/
structure Removing (ns name : String) (m : Memory) (cs : List Contact) (a : Except Error Nat) (m' : Memory)
    (gone noted rest : List Key) : Prop where
  split : removalOrder ns name m = gone ++ rest
  deleted : m.Deleted gone noted m'
  /-- Who gets to the end is told how many of the tracked objects there were. -/
  done : ∀ n, a = .ok n → rest = [] ∧ n = trackedThere ns name m
  /-- Who does not has left something, unless an answer was lost. -/
  cut : ∀ e, a = .error e → (∀ c ∈ cs, c.lost = false) → rest ≠ []
  unread : ¬Readable ns name m → gone = []

theorem amid_remove {a : Except Error Nat} (h : (remove ns name).Amid Eq m cs a m') :
    ∃ gone noted rest, Removing ns name m cs a m' gone noted rest := by
  obtain ⟨found, m₁, cs₁, cs₂, h₁, rfl, h₂⟩ | ⟨e, h₁, rfl⟩ := amid_bind h
  · obtain ⟨hsame, hmissing, hsome⟩ := amid_record? h₁
    cases found with
    | none =>
      -- nothing is tracked, and the record is not there to be deleted
      obtain ⟨rfl, rfl, rfl⟩ := h₂
      have hmissing := hmissing rfl
      have hempty := trackedIn_of_none hmissing
      refine ⟨[recordKey ns name], [], [], ?_, hsame.trans (.of_missing rfl rfl ?_), ?_, (fun e h => nomatch h), ?_⟩
      · rw [removalOrder, hempty, List.map_nil, List.nil_append, List.append_nil]
      · rw [Memory.object?, hsame.find?]
        exact hmissing
      · rintro n ⟨rfl⟩
        rw [trackedThere, hempty]
        exact ⟨rfl, rfl⟩
      · exact fun hun => absurd (fun o ho => absurd (hmissing.symm.trans ho) (Option.some_ne_none o).symm) hun
    | some record =>
      obtain ⟨o, ho, hok⟩ := hsome record rfl
      have hread : Readable ns name m := by
        intro o' ho'
        obtain rfl := Option.some.inj (ho.symm.trans ho')
        exact ⟨record, hok⟩
      have htracked := trackedIn_of_read ho hok
      have hobjects : m₁.objects = m.objects := by rw [hsame.objects, List.map_nil, Table.without_nil]
      obtain ⟨gone, noted, rest, told, hclearing, htold, herror⟩ := amid_removeListed h₂
      refine ⟨gone, noted, rest, ?_, hsame.trans hclearing.deleted, ?_, ?_, fun hun => absurd hread hun⟩
      · rw [removalOrder, htracked]
        exact hclearing.split
      · intro n hn
        obtain ⟨⟨k, hk⟩, rfl⟩ := htold n hn
        refine ⟨(hclearing.done k hk).1, ?_⟩
        rw [trackedThere, htracked, Memory.filled, Memory.filled, hobjects]
      · exact fun e he hlost => hclearing.cut (herror e he) fun c hc => hlost c (List.mem_append_right cs₁ hc)
  · refine ⟨[], [], _, rfl, (amid_record? h₁).1, (fun n h => nomatch h), fun _ _ _ => ?_, fun _ => rfl⟩
    exact List.append_ne_nil_of_right_ne_nil _ (List.cons_ne_nil _ _)

/-! ## Taking a removal up again -/

/-- Short of the end, what is gone is the beginning of the list. -/
theorem Removing.tracked_prefix {a : Except Error Nat} (h : Removing ns name m cs a m' gone noted rest)
    (hrest : rest ≠ []) : ∃ ts, ts <+: trackedIn ns name m ∧ gone = ts.map Key.ofTracked := by
  have hsplit := h.split
  rw [removalOrder, ← List.dropLast_concat_getLast hrest, ← List.append_assoc] at hsplit
  obtain ⟨ts, us, htracked, hts, -⟩ := List.map_eq_append_iff.1 (List.append_inj' hsplit rfl).1
  exact ⟨ts, ⟨us, htracked.symm⟩, hts.symm⟩

/-- The record goes last. -/
theorem Removing.rest_eq_nil {a : Except Error Nat} (hself : ∀ t ∈ trackedIn ns name m, t.slot ≠ own ns name)
    (h : Removing ns name m cs a m' gone noted rest) (hown : own ns name ∈ gone.map Key.slot) : rest = [] := by
  by_contra hrest
  obtain ⟨ts, hts, rfl⟩ := h.tracked_prefix hrest
  rw [List.map_map] at hown
  obtain ⟨t, ht, hslot⟩ := List.mem_map.1 hown
  exact hself t (hts.subset ht) hslot

/-- What a removal has left of its order is what the next one finds as its own. -/
theorem Removing.resume {a : Except Error Nat} (hself : ∀ t ∈ trackedIn ns name m, t.slot ≠ own ns name)
    (h : Removing ns name m cs a m' gone noted rest) (hread : Readable ns name m) : Readable ns name m'
      ∧ m'.objects.without ((removalOrder ns name m').map Key.slot)
        = m.objects.without ((removalOrder ns name m).map Key.slot) := by
  have hfind : m'.object? (recordKey ns name)
      = if own ns name ∈ gone.map Key.slot then none else m.object? (recordKey ns name) :=
    h.deleted.find? (own ns name)
  by_cases hown : own ns name ∈ gone.map Key.slot
  · rw [if_pos hown] at hfind
    refine ⟨fun o ho => absurd (hfind.symm.trans ho) (Option.some_ne_none o).symm, ?_⟩
    have hsplit := h.split
    rw [h.rest_eq_nil hself hown, List.append_nil] at hsplit
    rw [h.deleted.objects, Table.without_without, hsplit, removalOrder, trackedIn_of_none hfind]
    refine Table.without_congr (fun s => ?_) _
    rw [List.mem_append, or_iff_left_iff_imp]
    intro hs
    obtain rfl := List.mem_singleton.1 hs
    exact hown
  · rw [if_neg hown] at hfind
    have horder : removalOrder ns name m' = removalOrder ns name m := by
      rw [removalOrder, trackedIn_eq_of_object? hfind, removalOrder]
    refine ⟨fun o ho => hread o (hfind.symm.trans ho), ?_⟩
    rw [h.deleted.objects, Table.without_without, horder, h.split]
    refine Table.without_congr (fun s => ?_) _
    rw [List.map_append, List.mem_append, or_iff_right_iff_imp]
    exact List.mem_append_left _

/-- A removal that no failure cuts short deletes all that is in its order. -/
theorem run_remove_healthy (h : Host) (hm : h.memory.Healthy) (hread : Readable ns name h.memory) :
    (∃ n, ((remove ns name).run h).1 = .ok n) ∧ ((remove ns name).run h).2.memory.objects
      = h.memory.objects.without ((removalOrder ns name h.memory).map Key.slot) := by
  have hends : (remove ns name).Ends h.memory _ := ends_remove hm
  obtain ⟨n, hn⟩ := (hends h).1 hread
  obtain ⟨cs, hcs, -⟩ := amid_run Eq.refl (remove ns name) h
  obtain ⟨gone, noted, rest, hremoving⟩ := amid_remove hcs
  refine ⟨⟨n, hn⟩, ?_⟩
  rw [hremoving.deleted.objects, hremoving.split, (hremoving.done n hn).1, List.append_nil]

theorem run_remove_unreadable (h : Host) (hread : ¬Readable ns name h.memory) :
    ((remove ns name).run h).2.memory.objects = h.memory.objects := by
  obtain ⟨es, hrun⟩ := Session.runs_run (remove ns name) h
  exact runs_remove_unreadable hread hrun

theorem readable_congr (h : m'.objects = m.objects) : Readable ns name m' ↔ Readable ns name m := by
  unfold Readable
  rw [Memory.object?_congr h]

theorem removalOrder_congr (h : m'.objects = m.objects) : removalOrder ns name m' = removalOrder ns name m := by
  rw [removalOrder, trackedIn_eq_of_object? (Memory.object?_congr h _), removalOrder]

/-! ## Removals -/

/-- What a removal comes to, from one store to another. -/
structure Removed (ns name : String) (m : Memory) (cs : List Contact) (a : Except Error Nat) (m' : Memory) : Prop where
  /-- The tracked objects go in the order of the list, and the record after them. -/
  inOrder : ∃ gone noted, gone <+: removalOrder ns name m ∧ m.Deleted gone noted m'
  /-- A removal that gets to its end has left neither a tracked object nor the record, and all else as it was. -/
  done : ∀ n, a = .ok n → n = trackedThere ns name m ∧ ∀ s, m'.objects.find? s
    = if s = own ns name ∨ ∃ t ∈ trackedIn ns name m, t.slot = s then none else m.objects.find? s
  /-- One that is cut short has left the record with its list, and all objects but the first of that list. -/
  cut : ∀ e, a = .error e → (∀ c ∈ cs, c.lost = false) →
    m'.object? (recordKey ns name) = m.object? (recordKey ns name) ∧ trackedIn ns name m' = trackedIn ns name m
      ∧ ∃ ts, ts <+: trackedIn ns name m
        ∧ ∀ s, m'.objects.find? s = if ∃ t ∈ ts, t.slot = s then none else m.objects.find? s
  /-- However it has ended, a removal without failures gets from there to where it gets from the start. -/
  resumed : ∀ later once : Host, later.memory.Healthy → once.memory.Healthy →
    later.memory.objects = m'.objects → once.memory.objects = m.objects →
    (Readable ns name m → ∃ n, ((remove ns name).run later).1 = .ok n)
      ∧ ((remove ns name).run later).2.memory.objects = ((remove ns name).run once).2.memory.objects

theorem Removing.find?_done {a : Except Error Nat} {n : Nat} (h : Removing ns name m cs a m' gone noted rest)
    (hn : a = .ok n) (s : Slot) : m'.objects.find? s
      = if s = own ns name ∨ ∃ t ∈ trackedIn ns name m, t.slot = s then none else m.objects.find? s := by
  have hgone := h.split
  rw [(h.done n hn).1, List.append_nil] at hgone
  rw [h.deleted.find?, ← hgone, removalOrder, List.map_append, List.map_map]
  refine if_congr ?_ rfl rfl
  rw [List.mem_append, or_comm]
  exact or_congr List.mem_singleton List.mem_map

theorem Removing.find?_cut {a : Except Error Nat} {ts : List Tracked}
    (h : Removing ns name m cs a m' (ts.map Key.ofTracked) noted rest) (s : Slot) :
    m'.objects.find? s = if ∃ t ∈ ts, t.slot = s then none else m.objects.find? s := by
  rw [h.deleted.find?, List.map_map]
  exact if_congr List.mem_map rfl rfl

theorem Removing.resumed {a : Except Error Nat} (hself : ∀ t ∈ trackedIn ns name m, t.slot ≠ own ns name)
    (h : Removing ns name m cs a m' gone noted rest) {later once : Host} (hlater : later.memory.Healthy)
    (honce : once.memory.Healthy) (hfrom : later.memory.objects = m'.objects)
    (hstart : once.memory.objects = m.objects) :
    (Readable ns name m → ∃ n, ((remove ns name).run later).1 = .ok n)
      ∧ ((remove ns name).run later).2.memory.objects = ((remove ns name).run once).2.memory.objects := by
  by_cases hread : Readable ns name m
  · obtain ⟨hread', hobjects⟩ := h.resume hself hread
    obtain ⟨hn, hend⟩ := run_remove_healthy later hlater ((readable_congr hfrom).2 hread')
    obtain ⟨-, hend'⟩ := run_remove_healthy once honce ((readable_congr hstart).2 hread)
    refine ⟨fun _ => hn, ?_⟩
    rw [hend, hend', removalOrder_congr hfrom, removalOrder_congr hstart, hfrom, hstart, hobjects]
  · have hsame : m'.objects = m.objects := by
      rw [h.deleted.objects, h.unread hread, List.map_nil, Table.without_nil]
    have hunread : ¬Readable ns name later.memory := fun hl => hread ((readable_congr (hfrom.trans hsame)).1 hl)
    have hunread' : ¬Readable ns name once.memory := fun ho => hread ((readable_congr hstart).1 ho)
    refine ⟨fun hr => absurd hr hread, ?_⟩
    rw [run_remove_unreadable later hunread, run_remove_unreadable once hunread', hfrom, hsame, hstart]

/-- A removal goes through its list in order, with the record last; wherever it is cut short, another one ends where
this one would have. -/
theorem remove_in_order {a : Except Error Nat} (hself : ∀ t ∈ trackedIn ns name m, t.slot ≠ own ns name)
    (h : (remove ns name).Amid Eq m cs a m') : Removed ns name m cs a m' := by
  obtain ⟨gone, noted, rest, hremoving⟩ := amid_remove h
  refine ⟨⟨gone, noted, ⟨rest, hremoving.split.symm⟩, hremoving.deleted⟩, fun n hn => ?_, fun e he hlost => ?_, ?_⟩
  · exact ⟨(hremoving.done n hn).2, hremoving.find?_done hn⟩
  · have hrest := hremoving.cut e he hlost
    have hown : own ns name ∉ gone.map Key.slot := fun hown => hrest (hremoving.rest_eq_nil hself hown)
    have hrecord : m'.object? (recordKey ns name) = m.object? (recordKey ns name) :=
      (hremoving.deleted.find? (own ns name)).trans (if_neg hown)
    obtain ⟨ts, hts, rfl⟩ := hremoving.tracked_prefix hrest
    exact ⟨hrecord, trackedIn_eq_of_object? hrecord, ts, hts, hremoving.find?_cut⟩
  · exact fun later once hlater honce hfrom hstart => hremoving.resumed hself hlater honce hfrom hstart

section Interrupted

attribute [local irreducible] apply remove

/-- A config map and a secret. -/
def pair : ManifestSpec :=
  { url := "apiVersion: v1\nkind: ConfigMap\nmetadata: \x7bname: a\x7d\n---\n"
      ++ "apiVersion: v1\nkind: Secret\nmetadata: \x7bname: b\x7d" }

/-- The two have been applied, and the next deletion of a secret will fail. -/
def interrupted : Host :=
  let h := ((apply echo "default" "pair" pair none).run cleared).2
  { h with memory := h.memory.failOn .delete "Secret" }

/-- A removal that fails at the second of two objects. -/
theorem pair_removed_in_order :
    (∀ t ∈ trackedIn "default" "pair" interrupted.memory, t.slot ≠ own "default" "pair")
      ∧ trackedThere "default" "pair" interrupted.memory = 2
      ∧ trackedThere "default" "pair" ((remove "default" "pair").run interrupted).2.memory = 1
      ∧ ∃ cs, (∀ c ∈ cs, c.lost = false)
        ∧ (remove "default" "pair").Amid Eq interrupted.memory cs ((remove "default" "pair").run interrupted).1
          ((remove "default" "pair").run interrupted).2.memory
        ∧ Removed "default" "pair" interrupted.memory cs ((remove "default" "pair").run interrupted).1
          ((remove "default" "pair").run interrupted).2.memory := by
  have hchecked : (∀ t ∈ trackedIn "default" "pair" interrupted.memory, t.slot ≠ own "default" "pair")
      ∧ trackedThere "default" "pair" interrupted.memory = 2
      ∧ trackedThere "default" "pair" ((remove "default" "pair").run interrupted).2.memory = 1 := by
    decide +kernel
  obtain ⟨hself, hbefore, hafter⟩ := hchecked
  obtain ⟨cs, hcs, hlost⟩ := amid_run Eq.refl (remove "default" "pair") interrupted
  exact ⟨hself, hbefore, hafter, cs, hlost, hcs, remove_in_order hself hcs⟩

end Interrupted

end Addons.Bundle
