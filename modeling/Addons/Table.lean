/-!
# Tables

A finite map, kept as its list of entries in strictly increasing key order. Two tables with the same
entries are therefore equal, and a table is written out in one way only.
-/

namespace Addons

/-- Entries in increasing key order. -/
abbrev Table (κ α : Type) := List (κ × α)

namespace Table

variable {κ α β : Type} [DecidableEq κ] [LT κ] [DecidableLT κ]

/-- Keys strictly increase. -/
def Sorted (t : Table κ α) : Prop := t.Pairwise fun a b => a.1 < b.1

/-- The value under a key. -/
def find? (t : Table κ α) (k : κ) : Option α := t.lookup k

def contains (t : Table κ α) (k : κ) : Bool := (t.find? k).isSome

/-- Put a value under a key, replacing what was there. -/
def insert (k : κ) (v : α) : Table κ α → Table κ α
  | [] => [(k, v)]
  | (k', v') :: t =>
    if k = k' then (k, v) :: t
    else if k < k' then (k, v) :: (k', v') :: t
    else (k', v') :: insert k v t

/-- Drop a key. -/
def erase (t : Table κ α) (k : κ) : Table κ α := t.filter fun e => e.1 != k

/-- The table of a list of entries; of two entries with one key the later counts. -/
def ofList (es : List (κ × α)) : Table κ α := es.foldl (fun t e => insert e.1 e.2 t) []

/-- Add all entries of the second table, which win over those of the first. -/
def union (t u : Table κ α) : Table κ α := u.foldl (fun t e => insert e.1 e.2 t) t

def keys (t : Table κ α) : List κ := t.map Prod.fst

def values (t : Table κ α) : List α := t.map Prod.snd

theorem find?_insert_self (k : κ) (v : α) (t : Table κ α) : find? (insert k v t) k = some v := by
  induction t with
  | nil => simp [insert, find?]
  | cons e t ih =>
    obtain ⟨k', v'⟩ := e
    simp only [insert]
    split
    · simp [find?]
    · split
      · simp [find?]
      · rename_i h _
        simpa [find?, List.lookup_cons, beq_eq_false_iff_ne.2 h] using ih

theorem find?_insert_ne {k k' : κ} (h : k' ≠ k) (v : α) (t : Table κ α) :
    find? (insert k v t) k' = find? t k' := by
  induction t with
  | nil => simp [insert, find?, List.lookup_cons, beq_eq_false_iff_ne.2 h]
  | cons e t ih =>
    obtain ⟨l, w⟩ := e
    simp only [insert]
    split
    · rename_i hl
      subst hl
      simp [find?, List.lookup_cons, beq_eq_false_iff_ne.2 h]
    · split
      · simp [find?, List.lookup_cons, beq_eq_false_iff_ne.2 h]
      · simp only [find?, List.lookup_cons] at ih ⊢
        rw [ih]

end Table

end Addons
