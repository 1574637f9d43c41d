import Addons.Proofs.Time.Written

/-!
# Spans that were written

A span whose seconds fit 64 bits is read back from its text (`parse?_text`), and only such spans are read
(`fits_of_parse?`). The text lists the parts of a span from years down to nanoseconds, the zero ones left out,
and reading adds the parts up again (`items?_parts`).
-/

namespace Addons.Span

open Text (trimStart isBlank)

/-- The whole seconds fit 64 bits. -/
def Fits (s : Span) : Prop := s.seconds < 2 ^ 64

instance : DecidablePred Fits := fun s => by unfold Fits; infer_instance

theorem word?_eq_some {n m : Nat} : word? n = some m ↔ n = m ∧ n < 2 ^ 64 := by
  unfold word?
  rw [ite_eq_iff]
  constructor
  · rintro (⟨h, hn⟩ | ⟨-, hn⟩)
    · exact ⟨Option.some.inj hn, h⟩
    · cases hn
  · rintro ⟨rfl, h⟩
    exact .inl ⟨h, rfl⟩

theorem word?_of_lt {n : Nat} (h : n < 2 ^ 64) : word? n = some n := word?_eq_some.2 ⟨rfl, h⟩

theorem nanos_eq (s : Span) : s.nanos = s.seconds * 1000000000 + s.subsecond := by
  unfold seconds subsecond
  omega

/-! ## Adding -/

section Adding

variable {s t : Span} {u : Unit} {secs nanos n : Nat}

theorem add?_eq (hnanos : s.subsecond + nanos < 2 ^ 64)
    (hfits : Fits ⟨s.nanos + secs * 1000000000 + nanos⟩) :
    s.add? secs nanos = some ⟨s.nanos + secs * 1000000000 + nanos⟩ := by
  have hsum := nanos_eq s
  unfold Fits seconds at hfits
  dsimp only at hfits
  have hsecs : s.seconds + secs + (s.subsecond + nanos) / 1000000000 < 2 ^ 64 := by omega
  unfold add?
  simp only [Option.bind_eq_bind, word?_of_lt hnanos, word?_of_lt hsecs, Option.bind_some]
  refine congrArg (fun n => some (⟨n⟩ : Span)) ?_
  omega

theorem fits_of_add? (h : s.add? secs nanos = some t) : t.Fits := by
  unfold add? at h
  simp only [Option.bind_eq_bind, Option.bind_eq_some_iff] at h
  obtain ⟨n, -, whole, hwhole, h⟩ := h
  obtain rfl := Option.some.inj h
  have hlt := (word?_eq_some.1 hwhole).2
  rw [(word?_eq_some.1 hwhole).1] at hlt
  unfold Fits seconds
  dsimp only
  omega

/-- The nanoseconds of a unit. -/
def Unit.size : Unit → Nat
  | .nanos k => k
  | .minute => 60 * 1000000000
  | .seconds k => k * 1000000000

/-- Whole seconds are added. -/
theorem add?_secs (hfits : Fits ⟨s.nanos + secs * 1000000000⟩) :
    s.add? secs 0 = some ⟨s.nanos + secs * 1000000000⟩ := by
  have hsub : s.subsecond < 1000000000 := Nat.mod_lt _ (by decide)
  have hadd : s.add? secs 0 = some ⟨s.nanos + secs * 1000000000 + 0⟩ :=
    add?_eq (by omega) (by rw [Nat.add_zero]; exact hfits)
  rw [hadd, Nat.add_zero]

/-- Nanoseconds of less than a second are added. -/
theorem add?_nanos (hshort : nanos < 1000000000) (hfits : Fits ⟨s.nanos + nanos⟩) :
    s.add? 0 nanos = some ⟨s.nanos + nanos⟩ := by
  have hsub : s.subsecond < 1000000000 := Nat.mod_lt _ (by decide)
  have hadd : s.add? 0 nanos = some ⟨s.nanos + 0 * 1000000000 + nanos⟩ :=
    add?_eq (by omega) (by rw [Nat.zero_mul, Nat.add_zero]; exact hfits)
  rw [hadd, Nat.zero_mul, Nat.add_zero]

theorem lt_of_fits (hfits : Fits ⟨s.nanos + secs * 1000000000⟩) : secs < 2 ^ 64 := by
  have hword : (s.nanos + secs * 1000000000) / 1000000000 < 2 ^ 64 := hfits
  omega

/-- A number of units is added without a fraction; of a short unit it is less than a second. -/
theorem addUnits?_eq (hshort : ∀ k, u = .nanos k → n * k < 1000000000) (hfits : Fits ⟨s.nanos + n * u.size⟩) :
    s.addUnits? u n none = some ⟨s.nanos + n * u.size⟩ := by
  unfold addUnits?
  cases u with
  | nanos k =>
    have hk := hshort k rfl
    rw [Unit.size] at hfits ⊢
    simp only [Option.bind_eq_bind, word?_of_lt (show n * k < 2 ^ 64 by omega), Option.bind_some,
      add?_nanos hk hfits, Option.pure_def]
  | minute =>
    rw [Unit.size, ← Nat.mul_assoc] at hfits ⊢
    simp only [Option.bind_eq_bind, word?_of_lt (lt_of_fits hfits), Option.bind_some, add?_secs hfits,
      Option.pure_def]
  | seconds k =>
    rw [Unit.size, ← Nat.mul_assoc] at hfits ⊢
    simp only [Option.bind_eq_bind, word?_of_lt (lt_of_fits hfits), Option.bind_some, add?_secs hfits,
      Option.pure_def]

theorem fits_of_addUnits? {frac : Option (Nat × Nat)} (h : s.addUnits? u n frac = some t) : t.Fits := by
  unfold addUnits? at h
  cases u <;>
  · simp only [Option.bind_eq_bind, Option.bind_eq_some_iff] at h
    obtain ⟨_, -, whole, hwhole, h⟩ := h
    cases frac with
    | none => exact Option.some.inj h ▸ fits_of_add? hwhole
    | some f =>
      dsimp only at h
      try split at h
      all_goals
        obtain ⟨_, -, hadd⟩ := Option.bind_eq_some_iff.1 h
        exact fits_of_add? hadd

end Adding

/-! ## Reading one part -/

section Reading

variable {s t : Span} {n : Nat} {name : String} {c : Char} {cs rest tail : List Char}

theorem le_ofDigitChars (cs : List Char) (n : Nat) : n ≤ Nat.ofDigitChars 10 cs n := by
  induction cs generalizing n with
  | nil => exact le_rfl
  | cons c cs ih =>
    rw [Nat.ofDigitChars_cons]
    exact Nat.le_trans (by omega) (ih _)

/-- Digits are read up to a character that is neither a digit nor white space. -/
theorem digits?_append {ds : List Char} (hds : ∀ d ∈ ds, d.isDigit = true) (hc : c.isDigit = false)
    (hblank : isBlank c = false) (h : Nat.ofDigitChars 10 ds n < 2 ^ 64) :
    digits? n (ds ++ c :: rest) = some (Nat.ofDigitChars 10 ds n, c :: rest) := by
  induction ds generalizing n with
  | nil =>
    show digits? n (c :: rest) = some (n, c :: rest)
    unfold digits?
    simp only [hc, hblank, Bool.false_eq_true, if_false]
  | cons d ds ih =>
    rw [Nat.ofDigitChars_cons] at h ⊢
    have hzero : '0'.toNat = 48 := rfl
    rw [Nat.mul_comm, hzero] at h ⊢
    have hword := Nat.lt_of_le_of_lt (le_ofDigitChars ds _) h
    rw [List.cons_append]
    unfold digits?
    simp only [hds d List.mem_cons_self, if_true, word?_of_lt hword, Option.bind_eq_bind, Option.bind_some]
    exact ih (fun e he => hds e (List.mem_cons_of_mem d he)) h

theorem digits?_toString (h : n < 2 ^ 64) (hc : c.isDigit = false) (hblank : isBlank c = false) :
    digits? 0 ((toString n).toList ++ c :: rest) = some (n, c :: rest) := by
  have hvalue : Nat.ofDigitChars 10 (Nat.toDigits 10 n) 0 = n :=
    Nat.ofDigitChars_toDigits (by decide) (by decide)
  have hds (d : Char) (hd : d ∈ Nat.toDigits 10 n) : d.isDigit = true :=
    Nat.isDigit_of_mem_toDigits (show 0 < 10 by decide) le_rfl hd
  rw [Nat.toString_eq_ofList_toDigits, String.toList_ofList, digits?_append hds hc hblank (hvalue.symm ▸ h),
    hvalue]

/-- What may follow a part. -/
def Parted (tail : List Char) : Prop := tail = [] ∨ ∃ rest, tail = ' ' :: rest

theorem not_isUnitChar_of_parted (h : Parted (c :: cs)) : isUnitChar c = false := by
  rcases h with h | ⟨rest, h⟩
  · cases h
  · cases h
    rfl

/-- The name of a unit, of letters only. -/
structure Names (name : String) (u : Unit) : Prop where
  unit : Unit.ofName? name = some u
  starts : ∃ c cs, name.toList = c :: cs ∧ c.isDigit = false ∧ isBlank c = false ∧ c ≠ '.'
  chars : ∀ c ∈ name.toList, isUnitChar c = true

/-- A number with the name of its unit, to be read back. -/
structure IsPart (p : Nat × String) (u : Unit) : Prop where
  names : Names p.2 u
  word : p.1 < 2 ^ 64
  /-- Nanoseconds are given in parts of less than a second. -/
  short : ∀ k, u = .nanos k → p.1 * k < 1000000000

/-- The text of a part. -/
def partText (p : Nat × String) : String := toString p.1 ++ p.2

theorem takeWhile_unit (h : ∀ c ∈ cs, isUnitChar c = true) (htail : Parted tail) :
    (cs ++ tail).takeWhile isUnitChar = cs ∧ (cs ++ tail).dropWhile isUnitChar = tail := by
  rw [List.takeWhile_append_of_pos h, List.dropWhile_append_of_pos h]
  cases tail with
  | nil => exact ⟨by simp, rfl⟩
  | cons c tail =>
    have hc : ¬isUnitChar c = true := by rw [not_isUnitChar_of_parted htail]; exact Bool.false_ne_true
    rw [List.takeWhile_cons_of_neg hc, List.dropWhile_cons_of_neg hc, List.append_nil]
    exact ⟨rfl, rfl⟩

theorem item?_part {p : Nat × String} {u : Unit} (hp : IsPart p u) (htail : Parted tail)
    (hfits : Fits ⟨s.nanos + p.1 * u.size⟩) :
    s.item? ((partText p).toList ++ tail) = some (⟨s.nanos + p.1 * u.size⟩, trimStart tail) := by
  obtain ⟨c, cs, hname, hc, hblank, hpoint⟩ := hp.names.starts
  obtain ⟨htake, hdrop⟩ := takeWhile_unit hp.names.chars htail
  have hdigits : digits? 0 ((toString p.1).toList ++ c :: (cs ++ tail)) = some (p.1, c :: (cs ++ tail)) :=
    digits?_toString hp.word hc hblank
  have hhead : ∃ d ds, (toString p.1).toList = d :: ds ∧ d.isDigit = true := by
    rw [Nat.toString_eq_ofList_toDigits, String.toList_ofList]
    obtain ⟨d, ds, hds⟩ := List.exists_cons_of_ne_nil (Nat.toDigits_ne_nil (n := p.1) (b := 10))
    exact ⟨d, ds, hds, Nat.isDigit_of_mem_toDigits (show 0 < 10 by decide) le_rfl (hds ▸ List.mem_cons_self)⟩
  obtain ⟨d, ds, hds, hd⟩ := hhead
  have htext : (partText p).toList ++ tail = (toString p.1).toList ++ c :: (cs ++ tail) := by
    rw [partText, String.toList_append, hname, List.append_assoc, List.cons_append]
  have hfirst : ((toString p.1).toList ++ c :: (cs ++ tail)).head? = some d := by rw [hds]; rfl
  rw [hname, List.cons_append] at htake hdrop
  have hunit : Unit.ofName? (String.ofList (c :: cs)) = some u := by
    rw [← hname, String.ofList_toList]
    exact hp.names.unit
  have hadd := addUnits?_eq (s := s) hp.short hfits
  rw [htext]
  unfold item?
  rw [hfirst, hdigits]
  simp only [Option.bind_eq_bind, Option.bind_some, hd, Bool.not_true, Bool.false_eq_true, if_false]
  split
  · rename_i heq
    exact absurd (List.cons.inj heq).1 hpoint
  · simp only [Option.pure_def, Option.bind_some, htake, hdrop, hunit, hadd]
    rcases htail with rfl | ⟨rest, rfl⟩ <;> rfl

end Reading

/-! ## Reading a text -/

section Parts

variable {s t : Span}

/-- The nanoseconds of a part. -/
def partNanos (p : Nat × String) : Nat := p.1 * ((Unit.ofName? p.2).map Unit.size).getD 0

/-- The nanoseconds of a list of parts. -/
def total (ps : List (Nat × String)) : Nat := (ps.map partNanos).sum

theorem partNanos_eq {p : Nat × String} {u : Unit} (hp : IsPart p u) : partNanos p = p.1 * u.size := by
  rw [partNanos, hp.names.unit]
  rfl

theorem starts_partText (p : Nat × String) (rest : List Char) :
    Instant.Starts Char.isDigit ((partText p).toList ++ rest) := by
  obtain ⟨d, ds, hds⟩ := List.exists_cons_of_ne_nil (Nat.toDigits_ne_nil (n := p.1) (b := 10))
  have hd : d.isDigit = true :=
    Nat.isDigit_of_mem_toDigits (show 0 < 10 by decide) le_rfl (hds ▸ List.mem_cons_self)
  refine ⟨d, ds ++ (p.2.toList ++ rest), ?_, hd⟩
  rw [partText, String.toList_append, Nat.toString_eq_ofList_toDigits, String.toList_ofList, hds,
    List.append_assoc, List.cons_append]

/-- The text of some parts. -/
def partsText (ps : List (Nat × String)) : List Char := (" ".intercalate (ps.map partText)).toList

theorem partsText_singleton (p : Nat × String) : partsText [p] = (partText p).toList := by
  rw [partsText, List.map_cons, List.map_nil, String.intercalate_singleton]

theorem partsText_cons (p q : Nat × String) (ps : List (Nat × String)) :
    partsText (p :: q :: ps) = (partText p).toList ++ ' ' :: partsText (q :: ps) := by
  simp only [partsText, List.map_cons]
  rw [String.intercalate_cons_cons, String.toList_append, String.toList_append, List.append_assoc]
  rfl

theorem starts_partsText (p : Nat × String) (ps : List (Nat × String)) :
    Instant.Starts Char.isDigit (partsText (p :: ps)) := by
  cases ps with
  | nil =>
    rw [partsText_singleton, ← List.append_nil (partText p).toList]
    exact starts_partText p []
  | cons q ps =>
    rw [partsText_cons]
    exact starts_partText p _

/-- The parts of a text are added up. -/
theorem items?_parts {ps : List (Nat × String)} (hne : ps ≠ []) (hps : ∀ p ∈ ps, ∃ u, IsPart p u) {fuel : Nat}
    (hfuel : ps.length ≤ fuel) (hfits : Fits ⟨s.nanos + total ps⟩) :
    items? fuel s (partsText ps) = some ⟨s.nanos + total ps⟩ := by
  induction ps generalizing s fuel with
  | nil => exact absurd rfl hne
  | cons p ps ih =>
    obtain ⟨u, hp⟩ := hps p List.mem_cons_self
    obtain ⟨fuel, rfl⟩ : ∃ f, fuel = f + 1 := ⟨fuel - 1, by rw [List.length_cons] at hfuel; omega⟩
    have htotal : s.nanos + total (p :: ps) = s.nanos + p.1 * u.size + total ps := by
      rw [total, List.map_cons, List.sum_cons, partNanos_eq hp, Nat.add_assoc]
      rfl
    rw [htotal] at hfits ⊢
    have hpart : Fits ⟨s.nanos + p.1 * u.size⟩ := by
      unfold Fits seconds at hfits ⊢
      dsimp only at hfits ⊢
      omega
    cases ps with
    | nil =>
      have hitem := item?_part hp (.inl rfl : Parted []) hpart
      rw [List.append_nil] at hitem
      rw [partsText_singleton, items?, hitem]
      rfl
    | cons q ps =>
      have hstarts := starts_partsText q ps
      have htrim : trimStart (' ' :: partsText (q :: ps)) = partsText (q :: ps) :=
        Instant.trimStart_of_digit hstarts
      have hmore : (partsText (q :: ps)).isEmpty = false := by
        obtain ⟨d, ds, hds, -⟩ := hstarts
        rw [hds]
        rfl
      have hrest := ih (List.cons_ne_nil q ps) (fun r hr => hps r (List.mem_cons_of_mem p hr))
        (Nat.le_of_succ_le_succ hfuel) hfits
      rw [partsText_cons, items?, item?_part hp (.inr ⟨_, rfl⟩) hpart, htrim]
      simp only [Option.bind_eq_bind, Option.bind_some, hmore, Bool.false_eq_true, if_false]
      exact hrest

/-- The units of the parts of a span. -/
def units : List Unit :=
  [.seconds 31557600, .seconds 2630016, .seconds 86400, .seconds 3600, .minute, .seconds 1, .nanos 1000000,
    .nanos 1000, .nanos 1]

theorem isPart_seconds {k n : Nat} {name : String} (h : Names name (.seconds k)) (hn : n < 2 ^ 64) :
    IsPart (n, name) (.seconds k) :=
  ⟨h, hn, fun _ hk => nomatch hk⟩

/-- A name may have an ending for more than one. -/
theorem isPart_plural {k n : Nat} {name : String} (h : Names name (.seconds k))
    (hs : Names (name ++ "s") (.seconds k)) (hn : n < 2 ^ 64) :
    IsPart (n, if n = 1 then name else name ++ "s") (.seconds k) := by
  split
  · exact isPart_seconds h hn
  · exact isPart_seconds hs hn

theorem isPart_nanos {k n : Nat} {name : String} (h : Names name (.nanos k)) (hn : n < 1000)
    (hk : k ≤ 1000000) : IsPart (n, name) (.nanos k) := by
  refine ⟨h, by omega, ?_⟩
  rintro _ ⟨⟩
  have := Nat.mul_le_mul (Nat.le_of_lt_succ hn) hk
  dsimp only
  omega

theorem isPart_parts (h : s.Fits) : List.Forall₂ IsPart s.parts units := by
  unfold Fits at h
  have hsub : s.subsecond < 1000000000 := Nat.mod_lt _ (by decide)
  refine .cons (isPart_plural ?_ ?_ (by omega)) (.cons (isPart_plural ?_ ?_ (by omega))
    (.cons (isPart_plural ?_ ?_ (by omega)) (.cons (isPart_seconds ?_ (by omega))
    (.cons ⟨show Names "m" .minute from ?_, by dsimp only; omega, fun _ hk => nomatch hk⟩
    (.cons (isPart_seconds ?_ (by omega)) (.cons (isPart_nanos ?_ (by omega) (by decide))
    (.cons (isPart_nanos ?_ (by omega) (by decide)) (.cons (isPart_nanos ?_ (by omega) (by decide)) .nil))))))))
  -- the twelve names
  all_goals exact ⟨rfl, ⟨_, _, rfl, by decide⟩, List.all_eq_true.1 rfl⟩

theorem total_cons {p : Nat × String} {ps : List (Nat × String)} {u : Unit} (hp : IsPart p u) :
    total (p :: ps) = p.1 * u.size + total ps := by
  rw [total, List.map_cons, List.sum_cons, partNanos_eq hp]
  rfl

/-- What the parts of a text make up. -/
theorem total_of_isPart {ps : List (Nat × String)} (h : List.Forall₂ IsPart ps units) :
    ∃ years months days hours minutes secs millis micros nanos : Nat,
      ps.map Prod.fst = [years, months, days, hours, minutes, secs, millis, micros, nanos]
      ∧ total ps = (years * 31557600 + months * 2630016 + days * 86400 + hours * 3600 + minutes * 60 + secs)
          * 1000000000 + millis * 1000000 + micros * 1000 + nanos := by
  obtain _ | ⟨h₁, _ | ⟨h₂, _ | ⟨h₃, _ | ⟨h₄, _ | ⟨h₅, _ | ⟨h₆, _ | ⟨h₇, _ | ⟨h₈, _ | ⟨h₉, _ | _⟩⟩⟩⟩⟩⟩⟩⟩⟩ := h
  refine ⟨_, _, _, _, _, _, _, _, _, rfl, ?_⟩
  rw [total_cons h₁, total_cons h₂, total_cons h₃, total_cons h₄, total_cons h₅, total_cons h₆, total_cons h₇,
    total_cons h₈, total_cons h₉]
  have hsize (k : Nat) : Unit.size (.seconds k) = k * 1000000000 := rfl
  have hnano (k : Nat) : Unit.size (.nanos k) = k := rfl
  have hminute : Unit.size .minute = 60 * 1000000000 := rfl
  have hnil : total [] = 0 := rfl
  rw [hsize, hsize, hsize, hsize, hminute, hsize, hnano, hnano, hnano, hnil]
  omega

/-- The parts of a span make it up. -/
theorem total_parts (h : s.Fits) : total s.parts = s.nanos := by
  obtain ⟨years, months, days, hours, minutes, secs, millis, micros, nanos, hparts, htotal⟩ :=
    total_of_isPart (isPart_parts h)
  have hsum := nanos_eq s
  have hlist : s.parts.map Prod.fst = [s.seconds / 31557600, s.seconds % 31557600 / 2630016,
      s.seconds % 31557600 % 2630016 / 86400, s.seconds % 31557600 % 2630016 % 86400 / 3600,
      s.seconds % 31557600 % 2630016 % 86400 % 3600 / 60, s.seconds % 31557600 % 2630016 % 86400 % 60,
      s.subsecond / 1000000, s.subsecond / 1000 % 1000, s.subsecond % 1000] := rfl
  rw [hlist] at hparts
  generalize s.seconds = whole at *
  generalize s.subsecond = sub at *
  cases hparts
  rw [htotal]
  omega

theorem exists_isPart_of_mem {ps : List (Nat × String)} {us : List Unit} (h : List.Forall₂ IsPart ps us)
    {p : Nat × String} (hp : p ∈ ps) : ∃ u, IsPart p u := by
  induction h with
  | nil => exact absurd hp List.not_mem_nil
  | cons hq _ ih =>
    rcases List.mem_cons.1 hp with rfl | hp
    · exact ⟨_, hq⟩
    · exact ih hp

theorem total_filter (ps : List (Nat × String)) : total (ps.filter fun p => p.1 != 0) = total ps := by
  induction ps with
  | nil => rfl
  | cons p ps ih =>
    have hcons (qs : List (Nat × String)) : total (p :: qs) = partNanos p + total qs := by
      rw [total, List.map_cons, List.sum_cons]
      rfl
    by_cases hp : p.1 = 0
    · have hzero : partNanos p = 0 := by rw [partNanos, hp, Nat.zero_mul]
      rw [List.filter_cons_of_neg (by simp [hp]), ih, hcons, hzero, Nat.zero_add]
    · rw [List.filter_cons_of_pos (by simp [hp]), hcons, hcons, ih]

/-- The text of parts is no bare number. -/
theorem one_lt_length_partsText {p : Nat × String} {u : Unit} (hp : IsPart p u) (ps : List (Nat × String)) :
    1 < (partsText (p :: ps)).length := by
  have hpart : 1 < (partText p).toList.length := by
    obtain ⟨c, cs, hname, -⟩ := hp.names.starts
    have hpos : 0 < (Nat.toDigits 10 p.1).length := List.length_pos_iff.2 Nat.toDigits_ne_nil
    rw [partText, String.toList_append, hname, Nat.toString_eq_ofList_toDigits, String.toList_ofList,
      List.length_append, List.length_cons]
    omega
  cases ps with
  | nil => rwa [partsText_singleton]
  | cons q ps =>
    rw [partsText_cons, List.length_append]
    exact Nat.lt_of_lt_of_le hpart (Nat.le_add_right _ _)

/-- There are no more parts than characters. -/
theorem length_le_partsText (ps : List (Nat × String)) : ps.length ≤ (partsText ps).length := by
  induction ps with
  | nil => exact Nat.zero_le _
  | cons p ps ih =>
    obtain ⟨d, ds, hds, -⟩ := starts_partsText p ps
    cases ps with
    | nil =>
      rw [hds]
      exact Nat.succ_le_succ (Nat.zero_le _)
    | cons q ps =>
      rw [partsText_cons, List.length_append, List.length_cons, List.length_cons]
      exact Nat.succ_le_succ (Nat.le_trans ih (Nat.le_add_left _ _))

/-- A span that is written is read back. -/
theorem parse?_text (h : s.Fits) : parse? s.text = some s := by
  unfold text
  by_cases hzero : s.nanos = 0
  · rw [if_pos hzero, show s = ⟨0⟩ from congrArg Span.mk hzero]
    decide +kernel
  rw [if_neg hzero]
  have htotal : total (s.parts.filter fun p => p.1 != 0) = s.nanos := (total_filter _).trans (total_parts h)
  have hps (p : Nat × String) (hp : p ∈ s.parts.filter fun p => p.1 != 0) : ∃ u, IsPart p u :=
    exists_isPart_of_mem (isPart_parts h) ((List.mem_filter.1 hp).1)
  generalize s.parts.filter (fun p => p.1 != 0) = ps at htotal hps
  have hread (fuel : Nat) (hfuel : ps.length ≤ fuel) (hne : ps ≠ []) : items? fuel ⟨0⟩ (partsText ps) = some s := by
    have hitems := items?_parts (s := ⟨0⟩) hne hps hfuel (by rw [htotal, Nat.zero_add]; exact h)
    rwa [htotal, Nat.zero_add] at hitems
  cases ps with
  | nil => exact absurd htotal.symm hzero
  | cons p ps =>
    obtain ⟨u, hp⟩ := hps p List.mem_cons_self
    have htext : (" ".intercalate ((p :: ps).map fun p => toString p.1 ++ p.2)).toList = partsText (p :: ps) := rfl
    have hlong : " ".intercalate ((p :: ps).map fun p => toString p.1 ++ p.2) ≠ "0" := by
      intro heq
      have hlen := one_lt_length_partsText hp ps
      rw [← htext, heq] at hlen
      exact absurd hlen (by decide)
    unfold parse?
    rw [if_neg hlong, htext]
    dsimp only
    rw [Instant.trimStart_of_digit (starts_partsText p ps)]
    exact hread _ (Nat.le_succ_of_le (length_le_partsText (p :: ps))) (List.cons_ne_nil p ps)

/-- What is read after a number. -/
theorem fits_of_unit? {n : Nat} {frac : Option (Nat × Nat)} {cs rest : List Char}
    (h : (do
      let unit ← Unit.ofName? (String.ofList (cs.takeWhile isUnitChar))
      match cs.dropWhile isUnitChar with
      | [] => pure ()
      | c :: _ => if c.isDigit || isBlank c then pure () else none
      return (← s.addUnits? unit n frac, trimStart (cs.dropWhile isUnitChar))) = some (t, rest)) : t.Fits := by
  obtain ⟨u, -, h⟩ := Option.bind_eq_some_iff.1 h
  have hadd : ∃ t', s.addUnits? u n frac = some t'
      ∧ some (t', trimStart (cs.dropWhile isUnitChar)) = some (t, rest) := by
    dsimp only at h
    split at h
    · exact Option.bind_eq_some_iff.1 h
    · split at h
      · exact Option.bind_eq_some_iff.1 h
      · cases h
  obtain ⟨t', hadd, heq⟩ := hadd
  cases heq
  exact fits_of_addUnits? hadd

theorem fits_of_item? {cs rest : List Char} (h : s.item? cs = some (t, rest)) : t.Fits := by
  unfold item? at h
  obtain ⟨c, -, h⟩ := Option.bind_eq_some_iff.1 h
  dsimp only at h
  split at h
  · cases h
  obtain ⟨⟨n, after⟩, -, h⟩ := Option.bind_eq_some_iff.1 h
  dsimp only at h
  split at h
  · obtain ⟨⟨num, den, after⟩, -, h⟩ := Option.bind_eq_some_iff.1 h
    dsimp only at h
    split at h
    · cases h
    · exact fits_of_unit? h
  · exact fits_of_unit? h

theorem fits_of_items? {fuel : Nat} {cs : List Char} (h : items? fuel s cs = some t) : t.Fits := by
  induction fuel generalizing s cs with
  | zero => cases h
  | succ fuel ih =>
    unfold items? at h
    obtain ⟨⟨s', rest⟩, hitem, h⟩ := Option.bind_eq_some_iff.1 h
    dsimp only at h
    split at h
    · obtain rfl := Option.some.inj h
      exact fits_of_item? hitem
    · exact ih h

/-- Only spans of which the seconds fit are read. -/
theorem fits_of_parse? {text : String} (h : parse? text = some s) : s.Fits := by
  unfold parse? at h
  split at h
  · obtain rfl := Option.some.inj h
    decide
  · exact fits_of_items? h

end Parts

end Addons.Span
