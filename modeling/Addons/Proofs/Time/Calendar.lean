import Addons.Time.Instant
import Mathlib.Tactic.IntervalCases

/-!
# Dates and days

The date of a day is a date of the calendar (`dateOfDays_valid`), and the day of that date is the day itself
(`daysOfDate_dateOfDays`). Both follow from where a day stands in its cycle of 400 years (`InCycle`): the
divisions by which its year is found are exact there (`InCycle.year`).
-/

namespace Addons.Instant

/-- Day `n` of a cycle of 400 years, which starts in March, is day `d` of year `s` of the four years `q` of
century `c`. The last years of four, of a century but the last, and of a cycle differ in a day. -/
structure InCycle (n c q s d : Int) : Prop where
  eq : n = 36524 * c + 1461 * q + 365 * s + d
  century : 0 ≤ c ∧ c ≤ 3
  quad : 0 ≤ q ∧ q ≤ 24
  year : 0 ≤ s ∧ s ≤ 3
  day : 0 ≤ d ∧ (d ≤ 364 ∨ d = 365 ∧ s = 3 ∧ (q ≤ 23 ∨ c = 3))

variable {n c q s d : Int}

theorem exists_inCycle (h : 0 ≤ n ∧ n ≤ 146096) : ∃ c q s d, InCycle n c q s d := by
  obtain ⟨c, hc⟩ : ∃ c : Int, c = n / 36524 ∧ c ≤ 3 ∨ c = 3 ∧ n = 146096 := by
    by_cases hlast : n = 146096
    · exact ⟨3, by omega⟩
    · exact ⟨n / 36524, by omega⟩
  obtain ⟨q, hq⟩ : ∃ q : Int, q = (n - 36524 * c) / 1461 := ⟨_, rfl⟩
  obtain ⟨u, hu⟩ : ∃ u : Int, u = n - 36524 * c - 1461 * q := ⟨_, rfl⟩
  by_cases hleap : u = 1460
  · exact ⟨c, q, 3, 365, by omega, by omega, by omega, by omega, by omega⟩
  · exact ⟨c, q, u / 365, u % 365, by omega, by omega, by omega, by omega, by omega⟩

namespace InCycle

/-- The year of a day of the cycle. -/
theorem yearOfEra (h : InCycle n c q s d) :
    (n - n / 1460 + n / 36524 - n / 146096) / 365 = 100 * c + 4 * q + s := by
  obtain ⟨heq, hc, hq, hs, hd⟩ := h
  -- four years and a century are a day longer here and there, which moves the quotients by at most one
  obtain ⟨e, hquads, he⟩ : ∃ e : Int, n / 1460 = 25 * c + q + e
      ∧ (e = 0 ∧ 24 * c + q + 365 * s + d < 1460 ∨ e = 1 ∧ 1460 ≤ 24 * c + q + 365 * s + d) :=
    ⟨n / 1460 - (25 * c + q), by omega, by omega⟩
  obtain ⟨f, hcenturies, hcycle, hf⟩ : ∃ f : Int, n / 36524 = c + f ∧ n / 146096 = f
      ∧ (f = 0 ∨ f = 1 ∧ d = 365) := by
    by_cases hlast : n = 146096
    · exact ⟨1, by omega, by omega, by omega⟩
    · have hlt : n < 146096 := by omega
      have hcycle : n / 146096 = 0 := by omega
      refine ⟨0, ?_, hcycle, .inl rfl⟩
      rcases hd with ⟨hnonneg, hd | ⟨-, -, hd | hd⟩⟩ <;> omega
  rw [hquads, hcenturies, hcycle]
  omega

/-- The days of the years before. -/
theorem daysBefore (h : InCycle n c q s d) :
    n - (365 * (100 * c + 4 * q + s) + (100 * c + 4 * q + s) / 4 - (100 * c + 4 * q + s) / 100) = d := by
  obtain ⟨heq, hc, hq, hs, -⟩ := h
  omega

/-- The year after one that has a leap day. -/
theorem leap (h : InCycle n c q s d) (hd : d = 365) (era : Int) :
    isLeapYear (100 * c + 4 * q + s + era * 400 + 1) = true := by
  obtain ⟨-, hc, hq, hs, -, hday⟩ := h
  simp only [isLeapYear, Bool.and_eq_true, Bool.or_eq_true, decide_eq_true_eq, bne_iff_ne]
  omega

end InCycle

/-! ## The date of a day -/

/-- The month of day `d` of a year from March, the first being none. -/
def monthFromMarch (d : Int) : Int := (5 * d + 2) / 153

/-- The month in the calendar of a month from March. -/
def monthOfYear (m : Int) : Int := if m < 10 then m + 3 else m - 9

theorem monthFromMarch_bounds (h : 0 ≤ d ∧ d ≤ 365) : 0 ≤ monthFromMarch d ∧ monthFromMarch d ≤ 11 := by
  unfold monthFromMarch
  omega

/-- The date of a day, by where it is in its cycle. -/
theorem dateOfDays_eq (era : Int) (h : InCycle n c q s d) :
    dateOfDays (era * 146097 + n - 719468)
      = (100 * c + 4 * q + s + era * 400 + (if monthOfYear (monthFromMarch d) ≤ 2 then 1 else 0),
        monthOfYear (monthFromMarch d), d - (153 * monthFromMarch d + 2) / 5 + 1) := by
  have hn : 0 ≤ n ∧ n ≤ 146096 := by
    obtain ⟨heq, hc, hq, hs, hd⟩ := h
    omega
  have hera : (era * 146097 + n - 719468 + 719468).fdiv 146097 = era := by
    rw [Int.fdiv_eq_ediv_of_nonneg _ (by decide)]
    omega
  have hday : era * 146097 + n - 719468 + 719468 - era * 146097 = n := by omega
  unfold dateOfDays monthOfYear monthFromMarch
  simp (disch := decide) only [hera, hday, Int.fdiv_eq_ediv_of_nonneg, h.yearOfEra, h.daysBefore]

/-- From March to January the days of a month are those to the next. -/
theorem daysInMonth_fromMarch (y : Int) {m : Int} (h : 0 ≤ m ∧ m ≤ 10) :
    (daysInMonth y (monthOfYear m).toNat : Int) = (153 * (m + 1) + 2) / 5 - (153 * m + 2) / 5 := by
  obtain ⟨h0, h10⟩ := h
  interval_cases m <;> rfl

/-- A date of the calendar. -/
structure IsDate (y m d : Int) : Prop where
  month : 1 ≤ m ∧ m ≤ 12
  day : 1 ≤ d ∧ d ≤ daysInMonth y m.toNat

theorem exists_era (days : Int) : ∃ era n, days = era * 146097 + n - 719468 ∧ 0 ≤ n ∧ n ≤ 146096 :=
  ⟨(days + 719468) / 146097, (days + 719468) % 146097, by omega, by omega, by omega⟩

theorem dateOfDays_valid (days : Int) :
    IsDate (dateOfDays days).1 (dateOfDays days).2.1 (dateOfDays days).2.2 := by
  obtain ⟨era, n, rfl, hn⟩ := exists_era days
  obtain ⟨c, q, s, d, h⟩ := exists_inCycle hn
  have hleap := fun hd => h.leap hd era
  obtain ⟨hd, hlast⟩ := h.day
  rw [dateOfDays_eq era h]
  dsimp only
  obtain ⟨m, hm⟩ : ∃ m, monthFromMarch d = m := ⟨_, rfl⟩
  obtain ⟨hm0, hm11⟩ : 0 ≤ m ∧ m ≤ 11 := hm ▸ monthFromMarch_bounds ⟨hd, by omega⟩
  rw [hm]
  unfold monthFromMarch at hm
  refine ⟨by unfold monthOfYear; omega, by omega, ?_⟩
  by_cases hfebruary : m = 11
  · subst hfebruary
    show d - 337 + 1 ≤ (daysInMonth (100 * c + 4 * q + s + era * 400 + 1) 2 : Nat)
    simp only [daysInMonth, if_true]
    by_cases hlast : d = 365
    · rw [hleap hlast, if_pos rfl]
      omega
    · split <;> omega
  · rw [daysInMonth_fromMarch _ ⟨hm0, by omega⟩]
    omega

/-- The day of the date of a day is the day. -/
theorem daysOfDate_dateOfDays (days : Int) :
    daysOfDate (dateOfDays days).1 (dateOfDays days).2.1 (dateOfDays days).2.2 = days := by
  obtain ⟨era, n, rfl, hn⟩ := exists_era days
  obtain ⟨c, q, s, d, h⟩ := exists_inCycle hn
  obtain ⟨hd, hlast⟩ := h.day
  rw [dateOfDays_eq era h]
  dsimp only
  obtain ⟨m, hm⟩ : ∃ m, monthFromMarch d = m := ⟨_, rfl⟩
  obtain ⟨hm0, hm11⟩ : 0 ≤ m ∧ m ≤ 11 := hm ▸ monthFromMarch_bounds ⟨hd, by omega⟩
  have hyear : 0 ≤ 100 * c + 4 * q + s ∧ 100 * c + 4 * q + s ≤ 399 := by
    obtain ⟨-, hc, hq, hs, -⟩ := h
    omega
  have hbefore := h.daysBefore
  rw [hm]
  generalize 100 * c + 4 * q + s = y at hyear hbefore ⊢
  -- the year that began in March, and the month from March, are found again
  have hmarch : (if monthOfYear m ≤ 2 then y + era * 400 + (if monthOfYear m ≤ 2 then 1 else 0) - 1
      else y + era * 400 + (if monthOfYear m ≤ 2 then 1 else 0)) = y + era * 400 := by
    split <;> omega
  have hmonth : (if monthOfYear m > 2 then monthOfYear m - 3 else monthOfYear m + 9) = m := by
    unfold monthOfYear
    split <;> split <;> omega
  have hera : (y + era * 400).fdiv 400 = era := by
    rw [Int.fdiv_eq_ediv_of_nonneg _ (by decide)]
    omega
  have hrest : y + era * 400 - era * 400 = y := by omega
  unfold daysOfDate
  simp (disch := decide) only [hmarch, hmonth, hera, hrest, Int.fdiv_eq_ediv_of_nonneg]
  omega

/-- The years of the calendar. -/
theorem year_bounds {t : Instant} (h : t.inCalendar = true) :
    -262143 ≤ (dateOfDays (t.seconds.fdiv 86400)).1 ∧ (dateOfDays (t.seconds.fdiv 86400)).1 ≤ 262142 := by
  have hfirst : daysOfDate (-262143) 1 1 = -96465292 := rfl
  have hlast : daysOfDate 262143 1 1 = 95026237 := rfl
  unfold inCalendar first last at h
  rw [hfirst, hlast, Bool.and_eq_true, decide_eq_true_eq, decide_eq_true_eq] at h
  rw [Int.fdiv_eq_ediv_of_nonneg _ (by decide)]
  have hdays : -96465292 ≤ t.seconds / 86400 ∧ t.seconds / 86400 < 95026237 := by omega
  generalize t.seconds / 86400 = days at hdays
  obtain ⟨era, n, rfl, hn⟩ := exists_era days
  obtain ⟨c, q, s, d, hcycle⟩ := exists_inCycle hn
  rw [dateOfDays_eq era hcycle]
  dsimp only
  obtain ⟨heq, hc, hq, hs, hd⟩ := hcycle
  have hjanuary : monthOfYear (monthFromMarch d) ≤ 2 ↔ 306 ≤ d := by
    unfold monthOfYear monthFromMarch
    omega
  split <;> omega

end Addons.Instant
