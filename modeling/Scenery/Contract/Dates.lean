import Mathlib

/-!
# Dates and times of validation values

`internal/contract/contract_validation_value.go`: a date is compared as the number of its day, a
time as the number of its nanosecond, both from the beginning of 1970.
-/

namespace Scenery.Contract

def contractValidationFloorDiv (value divisor : ℤ) : ℤ :=
  let quotient := value.tdiv divisor
  let remainder := value.tmod divisor
  if remainder ≠ 0 ∧ ¬ (remainder < 0 ↔ divisor < 0) then quotient - 1 else quotient

def contractValidationCivilDays (year month day : ℤ) : ℤ :=
  let adjustedYear := if month ≤ 2 then year - 1 else year
  let era := contractValidationFloorDiv adjustedYear 400
  let yearOfEra := adjustedYear - era * 400
  let monthPrime := if 2 < month then month - 3 else month + 9
  let dayOfYear := (153 * monthPrime + 2).tdiv 5 + day - 1
  let dayOfEra := yearOfEra * 365 + yearOfEra.tdiv 4 - yearOfEra.tdiv 100 + dayOfYear
  era * 146097 + dayOfEra - 719468

def daysIn (year month : ℤ) : ℤ :=
  if month = 2 then if year % 4 = 0 ∧ (year % 100 ≠ 0 ∨ year % 400 = 0) then 29 else 28
  else if month = 4 ∨ month = 6 ∨ month = 9 ∨ month = 11 then 30 else 31

/-- A date of the proleptic Gregorian calendar. -/
structure CivilDate where
  year : ℤ
  month : ℤ
  day : ℤ
  month_mem : 1 ≤ month ∧ month ≤ 12
  day_mem : 1 ≤ day ∧ day ≤ daysIn year month

theorem floorDiv_eq (value : ℤ) : contractValidationFloorDiv value 400 = value / 400 := by
  have hvalue := Int.mul_tdiv_add_tmod value 400
  have hlt := Int.tmod_lt_of_pos value (b := 400) (by decide)
  have hgt := Int.lt_tmod_of_pos value (b := 400) (by decide)
  simp only [contractValidationFloorDiv]
  split_ifs <;> omega

theorem daysIn_pos (year month : ℤ) : 1 ≤ daysIn year month := by
  unfold daysIn
  split_ifs <;> decide

theorem january_mem : (1 : ℤ) ≤ 1 ∧ (1 : ℤ) ≤ 12 := by decide

def CivilDate.next (d : CivilDate) : CivilDate :=
  if h : d.day < daysIn d.year d.month then
    ⟨d.year, d.month, d.day + 1, d.month_mem, Int.le_add_one d.day_mem.1, h⟩
  else if h : d.month < 12 then
    ⟨d.year, d.month + 1, 1, ⟨Int.le_add_one d.month_mem.1, h⟩, le_rfl, daysIn_pos _ _⟩
  else ⟨d.year + 1, 1, 1, january_mem, le_rfl, daysIn_pos _ _⟩

/-- The first day of a month, in the number of months since the year 0. -/
def monthStart (k : ℤ) : ℤ := contractValidationCivilDays (k / 12) (k % 12 + 1) 1

theorem civilDays_eq {month : ℤ} (h : 1 ≤ month) (year day : ℤ) :
    contractValidationCivilDays year month day =
      let a := if month ≤ 2 then year - 1 else year
      a / 400 * 146097 + a % 400 * 365 + a % 400 / 4 - a % 400 / 100 +
        (153 * (if 2 < month then month - 3 else month + 9) + 2) / 5 + day - 719469 := by
  simp only [contractValidationCivilDays, floorDiv_eq]
  rw [Int.tdiv_eq_ediv_of_nonneg, Int.tdiv_eq_ediv_of_nonneg, Int.tdiv_eq_ediv_of_nonneg] <;>
    split_ifs <;> omega

theorem monthStart_succ (k : ℤ) :
    monthStart (k + 1) = monthStart k + daysIn (k / 12) (k % 12 + 1) := by
  have hm : 0 ≤ k % 12 ∧ k % 12 < 12 := by omega
  have hnext : (k + 1) / 12 = k / 12 + (k % 12 + 1) / 12 ∧ (k + 1) % 12 = (k % 12 + 1) % 12 := by
    omega
  simp only [monthStart, hnext]
  generalize k / 12 = year, k % 12 = m at hm ⊢
  obtain ⟨hlow, hhigh⟩ := hm
  rw [civilDays_eq (by omega), civilDays_eq (by omega)]
  simp only [daysIn]
  interval_cases m <;> simp <;> omega

theorem monthStart_strictMono : StrictMono monthStart :=
  strictMono_int_of_lt_succ fun k => by
    have hpos := daysIn_pos (k / 12) (k % 12 + 1)
    have hsucc := monthStart_succ k
    omega

namespace CivilDate

variable (d : CivilDate)

def days : ℤ := contractValidationCivilDays d.year d.month d.day

def monthNumber : ℤ := 12 * d.year + (d.month - 1)

theorem monthNumber_div : d.monthNumber / 12 = d.year ∧ d.monthNumber % 12 + 1 = d.month := by
  have hmonth := d.month_mem
  unfold monthNumber
  omega

theorem days_eq : d.days = monthStart d.monthNumber + (d.day - 1) := by
  rw [days, monthStart, d.monthNumber_div.1, d.monthNumber_div.2]
  simp only [contractValidationCivilDays]
  omega

theorem monthStart_succ : monthStart (d.monthNumber + 1) =
    monthStart d.monthNumber + daysIn d.year d.month := by
  rw [Contract.monthStart_succ, d.monthNumber_div.1, d.monthNumber_div.2]

theorem next_days : d.next.days = d.days + 1 := by
  have hday := d.day_mem
  have hmonth := d.month_mem
  rw [days_eq, days_eq]
  by_cases h : d.day < daysIn d.year d.month
  · rw [next, dif_pos h]
    simp only [monthNumber]
    omega
  · have hnext : d.next.monthNumber = d.monthNumber + 1 ∧ d.next.day = 1 := by
      rw [next, dif_neg h]
      unfold monthNumber
      split_ifs <;> simp only [and_true] <;> omega
    rw [hnext.1, hnext.2, monthStart_succ]
    omega

/-- Dates in the order of the calendar. -/
instance : LinearOrder CivilDate :=
  LinearOrder.lift' (fun d => toLex (d.year, toLex (d.month, d.day)))
    fun ⟨_, _, _, _, _⟩ ⟨_, _, _, _, _⟩ h => by simp_all

theorem days_strictMono : StrictMono days := by
  intro d e h
  have hd := d.day_mem
  have he := e.day_mem
  have hsucc := d.monthStart_succ
  have horder : d.monthNumber < e.monthNumber ∨ d.monthNumber = e.monthNumber ∧ d.day < e.day := by
    have hdm := d.month_mem
    have hem := e.month_mem
    have hlex := Prod.Lex.toLex_lt_toLex.mp h
    simp only [Prod.Lex.toLex_lt_toLex] at hlex
    unfold monthNumber
    omega
  rw [days_eq, days_eq]
  rcases horder with hlt | ⟨heq, hlt⟩
  · have hle := monthStart_strictMono.monotone (Int.add_one_le_of_lt hlt)
    omega
  · rw [heq]
    omega

end CivilDate

/-- The UTC reading of a time. -/
structure Instant where
  date : CivilDate
  hour : Fin 24
  minute : Fin 60
  second : Fin 60
  nanosecond : Fin 1000000000

instance : LinearOrder Instant :=
  LinearOrder.lift' (fun t => toLex (t.date, toLex (t.hour, toLex (t.minute, toLex
    (t.second, t.nanosecond))))) fun ⟨_, _, _, _, _⟩ ⟨_, _, _, _, _⟩ h => by simp_all

def contractValidationDateTime (value : Instant) : ℚ :=
  let seconds := value.date.days * 86400
  let seconds := seconds + (value.hour * 3600 + value.minute * 60 + value.second)
  ((seconds * 1000000000 + value.nanosecond : ℤ) : ℚ)

theorem dateTime_strictMono : StrictMono contractValidationDateTime := by
  intro x y h
  simp only [contractValidationDateTime, Int.cast_lt]
  rcases Prod.Lex.toLex_lt_toLex.mp h with h | ⟨hdate, h⟩
  · have hdays : x.date.days < y.date.days := CivilDate.days_strictMono h
    omega
  · simp only [Prod.Lex.toLex_lt_toLex] at h
    rw [show x.date = y.date from hdate]
    omega

/-- Days are counted from the beginning of 1970, and both numbers follow the calendar. -/
theorem civilDays_chronological :
    (∀ d : CivilDate, d.next.days = d.days + 1) ∧ contractValidationCivilDays 1970 1 1 = 0 ∧
      StrictMono CivilDate.days ∧ StrictMono contractValidationDateTime :=
  ⟨CivilDate.next_days, by decide, CivilDate.days_strictMono, dateTime_strictMono⟩

end Scenery.Contract
