import Addons.Proofs.Text
import Addons.Proofs.Time.Calendar

/-!
# Instants that were written

An instant of the calendar that is written in whole seconds is read back as the start of its second
(`parse?_textSeconds`), and one that is written with all decimals as it is (`parse?_textFull`). The text is read
field by field, as it was put together. All that is read is an instant that can be written
(`regular_of_parse?`).
-/

namespace Addons.Instant

open Text (trimStart trimStart_cons isBlank)

variable {c : Char} {cs rest : List Char} {w n : Nat}

/-! ## Numbers -/

/-- A list that starts with a character of a kind. -/
def Starts (p : Char → Bool) (cs : List Char) : Prop := ∃ c cs', cs = c :: cs' ∧ p c = true

theorem not_isBlank_of_isDigit (h : c.isDigit = true) : ¬isBlank c := by
  unfold Char.isDigit at h
  rw [Bool.and_eq_true, decide_eq_true_eq, decide_eq_true_eq] at h
  have hlow : 48 ≤ c.toNat := UInt32.le_iff_toNat_le.1 h.1
  have hhigh : c.toNat ≤ 57 := UInt32.le_iff_toNat_le.1 h.2
  unfold isBlank
  simp only [Bool.not_eq_true, Bool.or_eq_false_iff, Bool.and_eq_false_iff, decide_eq_false_iff_not]
  omega

theorem trimStart_of_digit (h : Starts Char.isDigit cs) : trimStart cs = cs := by
  obtain ⟨c, cs, rfl, hc⟩ := h
  exact trimStart_cons (not_isBlank_of_isDigit hc) cs

theorem toList_padded (w n : Nat) : (padded w n).toList
    = List.replicate (w - (Nat.toDigits 10 n).length) '0' ++ Nat.toDigits 10 n := by
  unfold padded
  simp only [String.toList_append, String.toList_ofList, Nat.toString_eq_ofList_toDigits, String.length_ofList]

theorem isDigit_of_mem_padded (h : c ∈ (padded w n).toList) : c.isDigit = true := by
  rw [toList_padded, List.mem_append] at h
  rcases h with h | h
  · rw [List.eq_of_mem_replicate h]
    rfl
  · exact Nat.isDigit_of_mem_toDigits (show 0 < 10 by decide) le_rfl h

theorem padded_ne_nil (w n : Nat) : (padded w n).toList ≠ [] := by
  rw [toList_padded]
  exact List.append_ne_nil_of_right_ne_nil _ (Nat.toDigits_ne_nil)

theorem starts_padded (w n : Nat) (rest : List Char) : Starts Char.isDigit ((padded w n).toList ++ rest) := by
  obtain ⟨c, cs, h⟩ := List.exists_cons_of_ne_nil (padded_ne_nil w n)
  refine ⟨c, cs ++ rest, by rw [h]; rfl, isDigit_of_mem_padded (h ▸ List.mem_cons_self)⟩

theorem ofDigitChars_padded (w n : Nat) : Nat.ofDigitChars 10 (padded w n).toList 0 = n := by
  rw [toList_padded, Nat.ofDigitChars_append, Nat.ofDigitChars_replicate_zero, Nat.mul_zero,
    Nat.ofDigitChars_toDigits (by decide) (by decide)]

theorem length_padded (hw : 0 < w) (h : n < 10 ^ w) : (padded w n).toList.length = w := by
  have hle := (Nat.length_toDigits_le_iff (show 1 < 10 by decide) hw).2 h
  rw [toList_padded, List.length_append, List.length_replicate]
  omega

/-- A number ends where as many digits as are allowed have been read, or no digit follows. -/
theorem number?_padded {max : Nat} (hlen : (padded w n).toList.length ≤ max)
    (hend : (padded w n).toList.length = max ∨ ¬Starts Char.isDigit rest) :
    number? max ((padded w n).toList ++ rest) = some (n, rest) := by
  have hnone : (rest.take (max - (padded w n).toList.length)).takeWhile Char.isDigit = [] := by
    rcases hend with hfull | hrest
    · rw [hfull, Nat.sub_self]
      rfl
    · cases rest with
      | nil => rw [List.take_nil, List.takeWhile_nil]
      | cons c rest =>
        cases max - (padded w n).toList.length with
        | zero => rfl
        | succ k =>
          rw [List.take_succ_cons, List.takeWhile_cons_of_neg]
          exact fun hc => hrest ⟨c, rest, rfl, hc⟩
  have htake : (((padded w n).toList ++ rest).take max).takeWhile Char.isDigit = (padded w n).toList := by
    rw [List.take_append, List.take_of_length_le hlen,
      List.takeWhile_append_of_pos fun c hc => isDigit_of_mem_padded hc, hnone, List.append_nil]
  have hvalue : (padded w n).toList.foldl (fun n c => n * 10 + (c.toNat - 48)) 0 = n := by
    refine Eq.trans ?_ (ofDigitChars_padded w n)
    unfold Nat.ofDigitChars
    simp only [Nat.mul_comm]
    rfl
  unfold number?
  simp only [htake, List.isEmpty_iff, padded_ne_nil, if_false, List.drop_left, hvalue]

theorem field?_padded (h : n < 100) (rest : List Char) :
    field? ((padded 2 n).toList ++ rest) = some (n, rest) := by
  have hlen : (padded 2 n).toList.length = 2 := length_padded (by decide) h
  unfold field?
  rw [trimStart_of_digit (starts_padded 2 n rest), number?_padded hlen.le (.inl hlen)]

theorem year?_yearText (y : Int) (hrest : ¬Starts Char.isDigit rest) :
    year? ((yearText y).toList ++ rest) = some (y, rest) := by
  unfold yearText
  by_cases hplain : 0 ≤ y ∧ y ≤ 9999
  · have hlen : (padded 4 y.toNat).toList.length = 4 := length_padded (by decide) (by omega)
    rw [if_pos hplain]
    have hnumber : number? 4 ((padded 4 y.toNat).toList ++ rest) = some (y.toNat, rest) :=
      number?_padded hlen.le (.inl hlen)
    have hstart := starts_padded 4 y.toNat rest
    unfold year?
    rw [trimStart_of_digit hstart]
    obtain ⟨c, cs, hcs, hc⟩ := hstart
    rw [hcs] at hnumber ⊢
    split
    · rename_i heq
      cases heq
      cases hc
    · rename_i heq
      cases heq
      cases hc
    · rw [hnumber, Option.map_some, Int.toNat_of_nonneg hplain.1]
  · rw [if_neg hplain]
    have hnumber : number? ((padded 4 y.natAbs).toList ++ rest).length ((padded 4 y.natAbs).toList ++ rest)
        = some (y.natAbs, rest) :=
      number?_padded (by rw [List.length_append]; exact Nat.le_add_right _ _) (.inr hrest)
    by_cases hneg : y < 0
    · have hminus : ("-" ++ padded 4 y.natAbs).toList ++ rest
          = '-' :: ((padded 4 y.natAbs).toList ++ rest) := by
        simp only [String.toList_append, String.reduceToList, List.cons_append, List.nil_append]
      unfold year?
      rw [if_pos hneg, hminus, trimStart_cons (by decide)]
      simp only [hnumber, Option.map_some]
      rw [show -(y.natAbs : Int) = y by omega]
    · have hplus : ("+" ++ padded 4 y.natAbs).toList ++ rest
          = '+' :: ((padded 4 y.natAbs).toList ++ rest) := by
        simp only [String.toList_append, String.reduceToList, List.cons_append, List.nil_append]
      unfold year?
      rw [if_neg hneg, hplus, trimStart_cons (by decide)]
      simp only [hnumber, Option.map_some]
      rw [show (y.natAbs : Int) = y by omega]

theorem mark?_cons (h : isBlank c = false) (rest : List Char) : mark? c (c :: rest) = some rest := by
  unfold mark?
  rw [trimStart_cons (Bool.eq_false_iff.1 h)]
  exact if_pos rfl

theorem bind_of_eq_some {α β : Type} {x : Option α} {a : α} {f : α → Option β} (h : x = some a) :
    (x >>= f) = f a := by
  rw [h]
  rfl

/-- The decimals of a part of a second. -/
theorem decimals?_padded (hw : 0 < w) (hmax : w ≤ 9) (h : n < 10 ^ w) :
    decimals? ('.' :: ((padded w n).toList ++ ['Z'])) = some (n * 10 ^ (9 - w), ['Z']) := by
  have hlen : (padded w n).toList.length = w := length_padded hw h
  have hnodigit : ¬Starts Char.isDigit ['Z'] := by
    rintro ⟨c, cs, hcs, hc⟩
    cases hcs
    cases hc
  have hnumber : number? 9 ((padded w n).toList ++ ['Z']) = some (n, ['Z']) :=
    number?_padded (by rw [hlen]; exact hmax) (.inr hnodigit)
  have hused : ((padded w n).toList ++ ['Z']).length - ['Z'].length = w := by
    rw [List.length_append, hlen, Nat.add_sub_cancel]
  unfold decimals?
  simp only [hnumber, Option.bind_eq_bind, Option.bind_some, hused]
  rfl

/-! ## The text -/

/-- An instant that can be written: of the calendar, and in a leap second only at the end of a minute. -/
structure Regular (t : Instant) : Prop where
  inCalendar : t.inCalendar = true
  nanos : t.nanos < 2 * billion
  leap : t.isLeap = true → t.seconds % 60 = 59

theorem toList_dateTimeText (t : Instant) (tail : List Char) : t.dateTimeText.toList ++ tail =
    (yearText (dateOfDays (t.seconds.fdiv 86400)).1).toList
      ++ '-' :: ((padded 2 (dateOfDays (t.seconds.fdiv 86400)).2.1.toNat).toList
      ++ '-' :: ((padded 2 (dateOfDays (t.seconds.fdiv 86400)).2.2.toNat).toList
      ++ 'T' :: ((padded 2 ((t.seconds.fmod 86400).toNat / 3600)).toList
      ++ ':' :: ((padded 2 ((t.seconds.fmod 86400).toNat / 60 % 60)).toList
      ++ ':' :: ((padded 2 ((t.seconds.fmod 86400).toNat % 60 + if t.isLeap then 1 else 0)).toList
      ++ tail))))) := by
  unfold dateTimeText
  simp only [String.toList_append, List.append_assoc, String.reduceToList, List.cons_append, List.nil_append]

/-- A text of date, time of day and decimals is read back. -/
theorem parse?_dateTime {t : Instant} {text : String} {tail : List Char} (hcalendar : t.inCalendar = true)
    (hleap : t.isLeap = true → t.seconds % 60 = 59) (htext : text.toList = t.dateTimeText.toList ++ tail)
    (htail : decimals? tail = some (n, ['Z'])) :
    parse? text = some ⟨t.seconds, if t.isLeap then billion + n else n⟩ := by
  obtain ⟨hmonth, hday⟩ := dateOfDays_valid (t.seconds.fdiv 86400)
  have hyear := year_bounds hcalendar
  have hdays := daysOfDate_dateOfDays (t.seconds.fdiv 86400)
  have htime : t.seconds = t.seconds.fdiv 86400 * 86400 + t.seconds.fmod 86400 := by
    have := Int.mul_fdiv_add_fmod t.seconds 86400
    omega
  have hfmod : 0 ≤ t.seconds.fmod 86400 ∧ t.seconds.fmod 86400 < 86400 :=
    ⟨Int.fmod_nonneg_of_pos _ (by decide), Int.fmod_lt_of_pos _ (by decide)⟩
  have hnodigit (rest : List Char) : ¬Starts Char.isDigit ('-' :: rest) := by
    rintro ⟨c, cs, hcs, hc⟩
    cases hcs
    cases hc
  have hdash : isBlank '-' = false := by decide
  have hcolon : isBlank ':' = false := by decide
  unfold parse?
  rw [htext, toList_dateTimeText t tail]
  generalize t.seconds.fmod 86400 = time at *
  generalize t.seconds.fdiv 86400 = days at *
  generalize (dateOfDays days).1 = y at *
  generalize (dateOfDays days).2.1 = m at *
  generalize (dateOfDays days).2.2 = d at *
  have hday31 : daysInMonth y m.toNat ≤ 31 := by
    unfold daysInMonth
    split <;> split <;> omega
  have hzone : offset? (trimStart ['Z']) = some (0, []) := rfl
  -- the second that is written, and what it is read as
  obtain ⟨second, hsecond, hbound, hwhole, hnanos⟩ : ∃ second, (time.toNat % 60 + if t.isLeap then 1 else 0) = second
      ∧ second ≤ 60 ∧ (if second = 60 then 59 else second) = time.toNat % 60
      ∧ (if second = 60 then billion + n else n) = (if t.isLeap then billion + n else n) := by
    refine ⟨_, rfl, ?_⟩
    by_cases hl : t.isLeap = true
    · have hend : time.toNat % 60 = 59 := by
        have := hleap hl
        omega
      simp only [hl, if_true, hend, and_self, le_refl]
    · have hne : time.toNat % 60 ≠ 60 := by omega
      simp only [hl, Bool.false_eq_true, if_false, hne, Nat.add_zero, and_true]
      omega
  rw [hsecond]
  refine (bind_of_eq_some (year?_yearText y (hnodigit _))).trans ?_
  dsimp only
  refine (bind_of_eq_some (mark?_cons hdash _)).trans ((bind_of_eq_some (field?_padded (by omega) _)).trans ?_)
  dsimp only
  refine (bind_of_eq_some (mark?_cons hdash _)).trans ((bind_of_eq_some (field?_padded (by omega) _)).trans ?_)
  dsimp only
  rw [if_pos (.inl rfl)]
  refine (bind_of_eq_some rfl).trans ((bind_of_eq_some (field?_padded (by omega) _)).trans ?_)
  dsimp only
  refine (bind_of_eq_some (mark?_cons hcolon _)).trans ((bind_of_eq_some (field?_padded (by omega) _)).trans ?_)
  dsimp only
  refine (bind_of_eq_some (mark?_cons hcolon _)).trans ((bind_of_eq_some (field?_padded (by omega) _)).trans ?_)
  dsimp only
  refine (bind_of_eq_some htail).trans ((bind_of_eq_some hzone).trans ?_)
  dsimp only
  have hmonth' : (m.toNat : Int) = m := Int.toNat_of_nonneg (by omega)
  have hday' : (d.toNat : Int) = d := Int.toNat_of_nonneg (by omega)
  have hseconds : daysOfDate y m d * 86400 + (time.toNat / 3600 : Nat) * 3600
      + (time.toNat / 60 % 60 : Nat) * 60 + (time.toNat % 60 : Nat) - 0 = t.seconds := by
    rw [hdays, htime]
    omega
  have hvalid : -262143 ≤ y ∧ y ≤ 262142 ∧ 1 ≤ m.toNat ∧ m.toNat ≤ 12 ∧ 1 ≤ d.toNat
      ∧ d.toNat ≤ daysInMonth y m.toNat ∧ time.toNat / 3600 ≤ 23 ∧ time.toNat / 60 % 60 ≤ 59
      ∧ second ≤ 60 ∧ Int.natAbs 0 < 86400 := by
    refine ⟨hyear.1, hyear.2, ?_⟩
    omega
  have hread (n : Nat) : (⟨t.seconds, n⟩ : Instant).inCalendar = true := hcalendar
  rw [if_neg (by decide), decide_eq_true hvalid, if_neg (by decide), hwhole, hnanos, hmonth',
    hday', hseconds, if_pos (hread _)]

/-- An instant that is written in whole seconds is read back as the start of its second. -/
theorem parse?_textSeconds {t : Instant} (hcalendar : t.inCalendar = true)
    (hleap : t.isLeap = true → t.seconds % 60 = 59) : parse? t.textSeconds = some t.truncate := by
  have htext : t.textSeconds.toList = t.dateTimeText.toList ++ ['Z'] := String.toList_append
  exact parse?_dateTime hcalendar hleap htext rfl

theorem decimals?_decimalsText (t : Instant) :
    decimals? (t.decimalsText.toList ++ ['Z']) = some (t.subsecond, ['Z']) := by
  have hlt : t.subsecond < 1000000000 := Nat.mod_lt _ (by decide)
  have hpoint (w n : Nat) : ("." ++ padded w n).toList ++ ['Z'] = '.' :: ((padded w n).toList ++ ['Z']) := by
    rw [String.toList_append]
    rfl
  unfold decimalsText
  dsimp only
  split
  · rename_i hzero
    rw [hzero]
    rfl
  · split
    · rw [hpoint, decimals?_padded (by decide) (by decide) (by omega)]
      congr 2
      omega
    · split
      · rw [hpoint, decimals?_padded (by decide) (by decide) (by omega)]
        congr 2
        omega
      · rw [hpoint, decimals?_padded (by decide) (by decide) (by omega)]
        congr 2
        omega

/-- An instant that is written with all decimals is read back. -/
theorem parse?_textFull {t : Instant} (h : t.Regular) : parse? t.textFull = some t := by
  have htext : t.textFull.toList = t.dateTimeText.toList ++ (t.decimalsText.toList ++ ['Z']) := by
    unfold textFull
    rw [String.toList_append, String.toList_append, List.append_assoc]
    rfl
  have hnanos : (if t.isLeap then billion + t.subsecond else t.subsecond) = t.nanos := by
    have hlt := h.nanos
    unfold isLeap subsecond billion at *
    split <;> rename_i hl <;> rw [decide_eq_true_eq] at hl <;> omega
  rw [parse?_dateTime h.inCalendar h.leap htext (decimals?_decimalsText t), hnanos]

/-! ## What is read -/

theorem foldl_digits_lt (ds : List Char) (hds : ∀ d ∈ ds, d.isDigit = true) (n : Nat) :
    ds.foldl (fun n c => n * 10 + (c.toNat - 48)) n < (n + 1) * 10 ^ ds.length := by
  induction ds generalizing n with
  | nil =>
    show n < (n + 1) * 1
    omega
  | cons d ds ih =>
    have hd : d.toNat ≤ 57 := by
      have hdigit := hds d List.mem_cons_self
      unfold Char.isDigit at hdigit
      rw [Bool.and_eq_true, decide_eq_true_eq, decide_eq_true_eq] at hdigit
      exact UInt32.le_iff_toNat_le.1 hdigit.2
    rw [List.foldl_cons, List.length_cons, Nat.pow_succ', ← Nat.mul_assoc]
    refine Nat.lt_of_lt_of_le (ih (fun e he => hds e (List.mem_cons_of_mem d he)) _) (Nat.mul_le_mul_right _ ?_)
    omega

/-- A number has as many digits as are taken. -/
theorem number?_lt {max : Nat} (h : number? max cs = some (n, rest)) :
    n < 10 ^ (cs.length - rest.length) ∧ cs.length - rest.length ≤ max := by
  unfold number? at h
  dsimp only at h
  split at h
  · cases h
  obtain ⟨hn, hrest⟩ := Prod.mk.inj (Option.some.inj h)
  generalize hds : (cs.take max).takeWhile Char.isDigit = ds at hn hrest
  have hdigits (d : Char) (hd : d ∈ ds) : d.isDigit = true :=
    List.all_eq_true.1 (hds ▸ List.all_takeWhile) d hd
  have hlen : ds.length ≤ (cs.take max).length := hds ▸ (List.takeWhile_prefix _).length_le
  have hlt := foldl_digits_lt ds hdigits 0
  rw [List.length_take] at hlen
  have hused : cs.length - rest.length = ds.length := by
    rw [← hrest, List.length_drop]
    omega
  rw [hused, ← hn]
  exact ⟨by omega, by omega⟩

theorem decimals?_lt (h : decimals? cs = some (n, rest)) : n < billion := by
  unfold decimals? at h
  split at h
  · rename_i after
    obtain ⟨⟨m, left⟩, hnumber, h⟩ := Option.bind_eq_some_iff.1 h
    obtain ⟨hn, -⟩ := Prod.mk.inj (Option.some.inj h)
    obtain ⟨hlt, hle⟩ := number?_lt hnumber
    rw [← hn]
    generalize after.length - left.length = used at hlt hle
    calc m * 10 ^ (9 - used) < 10 ^ used * 10 ^ (9 - used) := Nat.mul_lt_mul_of_pos_right hlt (by positivity)
      _ = 10 ^ 9 := by rw [← Nat.pow_add, Nat.add_sub_cancel' hle]
  · obtain ⟨hn, -⟩ := Prod.mk.inj (Option.some.inj h)
    rw [← hn]
    decide

theorem signed_minutes {numeric : Int → List Char → Option (Int × List Char)} {o : Int}
    (hnumeric : ∀ sign cs o rest, numeric sign cs = some (o, rest) → o % 60 = 0)
    (h : offset?.signed numeric cs = some (o, rest)) : o % 60 = 0 := by
  unfold offset?.signed at h
  split at h
  case h_1 | h_2 =>
    obtain ⟨ho, -⟩ := Prod.mk.inj (Option.some.inj h)
    rw [← ho]
    rfl
  case h_6 => cases h
  all_goals exact hnumeric _ _ _ _ h

/-- A distance from UTC is in whole minutes. -/
theorem offset?_minutes {o : Int} (h : offset? cs = some (o, rest)) : o % 60 = 0 := by
  have hminutes (sign hours minutes : Int) : sign * (hours * 3600 + minutes * 60) % 60 = 0 := by
    rw [show hours * 3600 + minutes * 60 = 60 * (hours * 60 + minutes) by omega, Int.mul_left_comm]
    exact Int.mul_emod_right _ _
  unfold offset? at h
  dsimp only at h
  split at h
  · split at h
    · obtain ⟨ho, -⟩ := Prod.mk.inj (Option.some.inj h)
      rw [← ho]
      rfl
    · refine signed_minutes (fun sign cs o rest h => ?_) h
      repeat' split at h
      case isTrue => exact (Prod.mk.inj (Option.some.inj h)).1 ▸ hminutes _ _ _
      all_goals cases h
  · refine signed_minutes (fun sign cs o rest h => ?_) h
    repeat' split at h
    case isTrue => exact (Prod.mk.inj (Option.some.inj h)).1 ▸ hminutes _ _ _
    all_goals cases h

/-- What is read can be written. -/
theorem regular_of_parse? {t : Instant} {text : String} (h : parse? text = some t) : t.Regular := by
  unfold parse? at h
  obtain ⟨⟨y, cs₁⟩, -, h⟩ := Option.bind_eq_some_iff.1 h
  obtain ⟨cs₂, -, h⟩ := Option.bind_eq_some_iff.1 h
  obtain ⟨⟨m, cs₃⟩, -, h⟩ := Option.bind_eq_some_iff.1 h
  obtain ⟨cs₄, -, h⟩ := Option.bind_eq_some_iff.1 h
  obtain ⟨⟨d, cs₅⟩, -, h⟩ := Option.bind_eq_some_iff.1 h
  dsimp only at h
  split at h
  case h_2 => cases h
  split at h
  case isFalse => cases h
  obtain ⟨cs₆, -, h⟩ := Option.bind_eq_some_iff.1 h
  obtain ⟨⟨hour, cs₇⟩, -, h⟩ := Option.bind_eq_some_iff.1 h
  obtain ⟨cs₈, -, h⟩ := Option.bind_eq_some_iff.1 h
  obtain ⟨⟨minute, cs₉⟩, -, h⟩ := Option.bind_eq_some_iff.1 h
  obtain ⟨cs₁₀, -, h⟩ := Option.bind_eq_some_iff.1 h
  obtain ⟨⟨second, cs₁₁⟩, -, h⟩ := Option.bind_eq_some_iff.1 h
  obtain ⟨⟨nanos, cs₁₂⟩, hdecimals, h⟩ := Option.bind_eq_some_iff.1 h
  obtain ⟨⟨offset, cs₁₃⟩, hoffset, h⟩ := Option.bind_eq_some_iff.1 h
  dsimp only at h
  split at h
  · cases h
  split at h
  · cases h
  have hnanos := decimals?_lt hdecimals
  have hminutes := offset?_minutes hoffset
  by_cases h60 : second = 60
  · simp only [h60, if_true] at h
    split at h
    case isFalse => cases h
    rename_i hcalendar
    obtain rfl := Option.some.inj h
    refine ⟨hcalendar, ?_, fun _ => ?_⟩ <;> dsimp only <;> omega
  · simp only [h60, if_false] at h
    split at h
    case isFalse => cases h
    rename_i hcalendar
    obtain rfl := Option.some.inj h
    refine ⟨hcalendar, by dsimp only; omega, fun hleap => ?_⟩
    unfold isLeap at hleap
    rw [decide_eq_true_eq] at hleap
    exact absurd hleap (by dsimp only; omega)

end Addons.Instant
