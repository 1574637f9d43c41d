/-!
# Texts

White space has the Unicode property White_Space. A text splits at the first or at the last place where a character
stands, or at all of them. Bytes that are not UTF-8 are told by where they stop being so, and by how many bytes the
fault takes.
-/

namespace Addons.Text

/-! ## Hexadecimal digits -/

/-- The value of a hexadecimal digit, in either case. -/
def hexValue? (c : Char) : Option Nat :=
  if c.isDigit then some (c.toNat - 48)
  else if 'a' ≤ c ∧ c ≤ 'f' then some (c.toNat - 87)
  else if 'A' ≤ c ∧ c ≤ 'F' then some (c.toNat - 55)
  else none

/-- The number of all the given hexadecimal digits. -/
def hexNumber? (cs : List Char) : Option Nat :=
  cs.foldl (fun acc c => do return (← acc) * 16 + (← hexValue? c)) (some 0)

/-- The digit of a number below 16, in upper case. -/
def hexDigit (n : Nat) : Char := Char.ofNat (if n < 10 then 48 + n else 55 + n)

/-! ## White space -/

/-- White_Space: the ASCII blanks and line ends, the no-break and typographic spaces, and the line and
paragraph separators. -/
def isBlank (c : Char) : Bool :=
  let n := c.toNat
  (9 ≤ n && n ≤ 13) || n = 0x20 || n = 0x85 || n = 0xA0 || n = 0x1680 || (0x2000 ≤ n && n ≤ 0x200A)
    || n = 0x2028 || n = 0x2029 || n = 0x202F || n = 0x205F || n = 0x3000

def trimStart (cs : List Char) : List Char := cs.dropWhile isBlank

def trimEnd (cs : List Char) : List Char := (cs.reverse.dropWhile isBlank).reverse

/-- A text without the white space around it. -/
def trim (s : String) : String := String.ofList (trimEnd (trimStart s.toList))

/-- Whether a text holds nothing but white space. -/
def isAllBlank (s : String) : Bool := s.toList.all isBlank

/-! ## Splitting at a character -/

/-- The parts before and after the first `c`. -/
def splitFirst? (c : Char) : List Char → Option (List Char × List Char)
  | [] => none
  | d :: rest => if d = c then some ([], rest) else (splitFirst? c rest).map fun p => (d :: p.1, p.2)

/-- The parts before and after the last `c`. -/
def splitLast? (c : Char) : List Char → Option (List Char × List Char)
  | [] => none
  | d :: rest =>
    match splitLast? c rest with
    | some (a, b) => some (d :: a, b)
    | none => if d = c then some ([], rest) else none

/-- The parts between the `c`; there is one more of them than of the `c`. -/
def splitAll (c : Char) : List Char → List (List Char)
  | [] => [[]]
  | d :: rest =>
    if d = c then [] :: splitAll c rest
    else
      match splitAll c rest with
      | part :: parts => (d :: part) :: parts
      | [] => [[d]]

theorem splitFirst?_eq_none_iff {c : Char} {s : List Char} : splitFirst? c s = none ↔ c ∉ s := by
  induction s with
  | nil => simp [splitFirst?]
  | cons d rest ih =>
    by_cases hd : d = c
    · simp [splitFirst?, hd]
    · simp [splitFirst?, hd, Ne.symm hd, ih]

theorem splitFirst?_eq_some {c : Char} {s a b : List Char} (h : splitFirst? c s = some (a, b)) :
    s = a ++ c :: b ∧ c ∉ a := by
  induction s generalizing a with
  | nil => simp [splitFirst?] at h
  | cons d rest ih =>
    simp only [splitFirst?] at h
    split at h
    · rename_i hd
      simp only [Option.some.injEq, Prod.mk.injEq] at h
      simp [← h.1, ← h.2, hd]
    · rename_i hd
      obtain ⟨⟨a', b'⟩, hp, he⟩ := Option.map_eq_some_iff.1 h
      simp only [Prod.mk.injEq] at he
      obtain ⟨rfl, rfl⟩ := he
      obtain ⟨h1, h2⟩ := ih hp
      exact ⟨by simp [h1], by simp [h2, Ne.symm hd]⟩

theorem splitLast?_eq_none_iff {c : Char} {s : List Char} : splitLast? c s = none ↔ c ∉ s := by
  induction s with
  | nil => simp [splitLast?]
  | cons d rest ih =>
    cases hrest : splitLast? c rest with
    | some p =>
      have hmem : c ∈ rest := Decidable.byContradiction fun hc => by
        rw [ih.2 hc] at hrest
        cases hrest
      simp [splitLast?, hrest, hmem]
    | none => simp [splitLast?, hrest, ih.1 hrest, eq_comm]

theorem splitLast?_eq_some {c : Char} {s a b : List Char} (h : splitLast? c s = some (a, b)) :
    s = a ++ c :: b ∧ c ∉ b := by
  induction s generalizing a b with
  | nil => simp [splitLast?] at h
  | cons d rest ih =>
    simp only [splitLast?] at h
    split at h
    · rename_i a' b' hp
      simp only [Option.some.injEq, Prod.mk.injEq] at h
      obtain ⟨rfl, rfl⟩ := h
      obtain ⟨h1, h2⟩ := ih hp
      exact ⟨by simp [h1], h2⟩
    · rename_i hp
      split at h
      · rename_i hd
        simp only [Option.some.injEq, Prod.mk.injEq] at h
        obtain ⟨rfl, rfl⟩ := h
        exact ⟨by simp [hd], splitLast?_eq_none_iff.1 hp⟩
      · simp at h

/-- A text that ends in a part without `c` splits before that part. -/
theorem splitLast?_append {c : Char} {b : List Char} (a : List Char) (h : c ∉ b) :
    splitLast? c (a ++ c :: b) = some (a, b) := by
  induction a with
  | nil => simp [splitLast?, splitLast?_eq_none_iff.2 h]
  | cons d a ih => simp [splitLast?, ih]

/-! ## Faults in UTF-8 -/

/-- The first fault of a sequence of bytes. -/
structure Utf8Fault where
  /-- The bytes before it are UTF-8. -/
  index : Nat
  /-- The length of the faulty sequence; none if more bytes could complete it. -/
  length : Option Nat
  deriving DecidableEq, Repr

namespace Utf8Fault

def text (f : Utf8Fault) : String :=
  match f.length with
  | some n => s!"invalid utf-8 sequence of {n} bytes from index {f.index}"
  | none => s!"incomplete utf-8 byte sequence from index {f.index}"

end Utf8Fault

/-- The bytes that may follow each lead byte of a sequence of several, in order; none for a byte that
cannot lead. -/
def tailRanges? (lead : Nat) : Option (List (Nat × Nat)) :=
  let any := (0x80, 0xBF)
  if 0xC2 ≤ lead ∧ lead ≤ 0xDF then some [any]
  else if lead = 0xE0 then some [(0xA0, 0xBF), any]
  else if lead = 0xED then some [(0x80, 0x9F), any]
  else if 0xE1 ≤ lead ∧ lead ≤ 0xEF then some [any, any]
  else if lead = 0xF0 then some [(0x90, 0xBF), any, any]
  else if lead = 0xF4 then some [(0x80, 0x8F), any, any]
  else if 0xF1 ≤ lead ∧ lead ≤ 0xF3 then some [any, any, any]
  else none

/-- How the bytes after a lead byte fare: all there, a fault after some of them, or cut off. -/
def tailFault? : List (Nat × Nat) → List UInt8 → Option (Option Nat)
  | [], _ => none
  | _ :: _, [] => some none
  | (low, high) :: ranges, b :: rest =>
    if low ≤ b.toNat ∧ b.toNat ≤ high then (tailFault? ranges rest).map fun l => l.map (· + 1)
    else some (some 1)

/-- The first fault from an index on. The first count is of bytes that a sequence has left. -/
def utf8FaultFrom? : Nat → Nat → List UInt8 → Option Utf8Fault
  | _, _, [] => none
  | skip + 1, index, _ :: rest => utf8FaultFrom? skip (index + 1) rest
  | 0, index, b :: rest =>
    if b.toNat < 0x80 then utf8FaultFrom? 0 (index + 1) rest
    else
      match tailRanges? b.toNat with
      | none => some ⟨index, some 1⟩
      | some ranges =>
        match tailFault? ranges rest with
        | some length => some ⟨index, length⟩
        | none => utf8FaultFrom? ranges.length (index + 1) rest

def utf8Fault? (bytes : List UInt8) : Option Utf8Fault := utf8FaultFrom? 0 0 bytes

/-- The text that bytes encode. -/
def ofUtf8 (bytes : ByteArray) : Except Utf8Fault String :=
  match String.fromUTF8? bytes with
  | some s => .ok s
  | none => .error ((utf8Fault? bytes.toList).getD ⟨0, none⟩)

end Addons.Text
