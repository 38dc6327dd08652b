import Mathlib.Tactic.Common

/-!
# The Gregorian calendar

Days are numbered from 1 January 1970 on, in both directions. `civil` is the date of a day and
`dayNumber` the day of a date; the one is the inverse of the other (`dayNumber_civil`). Both count
in years from March on, so that a leap day is the last day of its year, and in eras of 400 years.
-/

namespace WebZapret.Calendar

/-- A date. -/
structure Date where
  year : Int
  month : Int
  day : Int
  deriving DecidableEq

/-! ## Years from March on -/

/-- The date of a day of a month, both counted from March on. -/
def ofMarch (year month day : Int) : Date :=
  if month < 10 then ⟨year, month + 3, day⟩ else ⟨year + 1, month - 9, day⟩

/-- The year from March on. -/
def marchYear (date : Date) : Int := if date.month ≤ 2 then date.year - 1 else date.year

/-- The month counted from March. -/
def marchMonth (date : Date) : Int := (date.month + 9) % 12

theorem march_ofMarch {month : Int} (h : 0 ≤ month) (h' : month ≤ 11) (year day : Int) :
    marchYear (ofMarch year month day) = year ∧ marchMonth (ofMarch year month day) = month ∧
      (ofMarch year month day).day = day := by
  unfold marchYear marchMonth ofMarch
  split
  · dsimp only
    rw [if_neg (by omega)]
    omega
  · dsimp only
    rw [if_pos (by omega)]
    omega

/-! ## Days -/

/-- The days of a year before a month. -/
def monthStart (month : Int) : Int := (153 * month + 2) / 5

/-- The days of an era before a year of it. -/
def yearStart (year : Int) : Int := year * 365 + year / 4 - year / 100

/-- The first day of an era. -/
def eraStart (era : Int) : Int := era * 146097 - 719468

/-- The day of a date; a day past the end of its month counts on. -/
def dayNumber (date : Date) : Int :=
  eraStart (marchYear date / 400) + yearStart (marchYear date % 400) +
    monthStart (marchMonth date) + date.day - 1

/-- The year of a day of an era: centuries, then leap periods, then years. The last day of a century
or of a leap period is counted to the last of its parts. -/
def yearOfEra (day : Int) : Int :=
  let century := min (day / 36524) 3
  let period := (day - century * 36524) / 1461
  let year := min ((day - century * 36524 - period * 1461) / 365) 3
  100 * century + 4 * period + year

/-- The date of a day of an era. -/
def ofEra (era day : Int) : Date :=
  let dayOfYear := day - yearStart (yearOfEra day)
  let month := (5 * dayOfYear + 2) / 153
  ofMarch (yearOfEra day + era * 400) month (dayOfYear - monthStart month + 1)

/-- The date of a day. -/
def civil (n : Int) : Date := ofEra ((n + 719468) / 146097) ((n + 719468) % 146097)

theorem yearStart_parts {period year : Int} (hperiod : 0 ≤ period) (hperiod' : period ≤ 24)
    (hyear : 0 ≤ year) (hyear' : year ≤ 3) (century : Int) :
    yearStart (100 * century + 4 * period + year) =
      36524 * century + 1461 * period + 365 * year := by
  unfold yearStart
  omega

/-- The year of a day of an era, and the day of that year. -/
theorem yearOfEra_spec {day : Int} (h : 0 ≤ day) (h' : day < 146097) :
    (0 ≤ yearOfEra day ∧ yearOfEra day < 400) ∧
      0 ≤ day - yearStart (yearOfEra day) ∧ day - yearStart (yearOfEra day) ≤ 365 := by
  obtain ⟨century, hcentury⟩ : ∃ century, century = min (day / 36524) 3 := ⟨_, rfl⟩
  obtain ⟨period, hperiod⟩ : ∃ period, period = (day - century * 36524) / 1461 := ⟨_, rfl⟩
  obtain ⟨year, hyear⟩ : ∃ year, year =
      min ((day - century * 36524 - period * 1461) / 365) 3 := ⟨_, rfl⟩
  have heq : yearOfEra day = 100 * century + 4 * period + year := by
    rw [hyear, hperiod, hcentury]
    rfl
  have hc : 0 ≤ century ∧ century ≤ 3 ∧ 0 ≤ day - century * 36524 ∧
      day - century * 36524 ≤ 36524 := by omega
  have hp : 0 ≤ period ∧ period ≤ 24 ∧ 0 ≤ day - century * 36524 - period * 1461 ∧
      day - century * 36524 - period * 1461 ≤ 1460 := by omega
  have hy : 0 ≤ year ∧ year ≤ 3 ∧ 0 ≤ day - century * 36524 - period * 1461 - year * 365 ∧
      day - century * 36524 - period * 1461 - year * 365 ≤ 365 := by omega
  rw [heq, yearStart_parts hp.1 hp.2.1 hy.1 hy.2.1]
  omega

theorem dayNumber_ofEra {day : Int} (h : 0 ≤ day) (h' : day < 146097) (era : Int) :
    dayNumber (ofEra era day) = eraStart era + day := by
  obtain ⟨⟨hyear, hyear'⟩, hday, hday'⟩ := yearOfEra_spec h h'
  have hlow : 0 ≤ (5 * (day - yearStart (yearOfEra day)) + 2) / 153 := by omega
  have hhigh : (5 * (day - yearStart (yearOfEra day)) + 2) / 153 ≤ 11 := by omega
  obtain ⟨hmarch, hmonth, hdate⟩ := march_ofMarch hlow hhigh (yearOfEra day + era * 400)
    (day - yearStart (yearOfEra day) -
      monthStart ((5 * (day - yearStart (yearOfEra day)) + 2) / 153) + 1)
  have hera : (yearOfEra day + era * 400) / 400 = era := by omega
  have hrest : (yearOfEra day + era * 400) % 400 = yearOfEra day := by omega
  unfold dayNumber ofEra
  dsimp only
  rw [hmarch, hmonth, hdate, hera, hrest]
  omega

/-- **The day of the date of a day is that day.** -/
theorem dayNumber_civil (n : Int) : dayNumber (civil n) = n := by
  have hday := Int.emod_nonneg (n + 719468) (by decide : (146097 : Int) ≠ 0)
  have hday' := Int.emod_lt_of_pos (n + 719468) (by decide : (0 : Int) < 146097)
  rw [civil, dayNumber_ofEra hday hday', eraStart]
  have hsum := Int.emod_add_mul_ediv (n + 719468) 146097
  omega

/-- The day of the week, from Monday on. -/
def weekday (n : Int) : Fin 7 := ⟨((n + 3) % 7).toNat, by omega⟩

/-- Seven days in a row have all the days of the week. -/
theorem exists_weekday (n : Int) (w : Fin 7) : ∃ k : Nat, k < 7 ∧ weekday (n + k) = w := by
  refine ⟨((w.val - (n + 3)) % 7).toNat, by omega, ?_⟩
  ext
  simp only [weekday]
  omega

example : civil 20514 = ⟨2026, 3, 2⟩ ∧ weekday 20514 = 0 := by decide

end WebZapret.Calendar
