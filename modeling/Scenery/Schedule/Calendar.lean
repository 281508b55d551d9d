import Mathlib.Order.Bounds.Basic
import Scenery.Text

/-!
# Calendar schedules

`internal/calendartrigger`: the recurrence rules that `Parse` accepts, and `Rule.Next`, which
tries one minute after another up to a fixed horizon.
-/

namespace Scenery.Schedule

def search (test : ℤ → Bool) : ℕ → ℤ → Option ℤ
  | 0, _ => none
  | n + 1, t => if test t then some t else search test n (t + 1)

def IsNext (s : Set ℤ) : Option ℤ → Prop
  | some t => IsLeast s t
  | none => s = ∅

theorem search_eq_none_iff {test : ℤ → Bool} {n : ℕ} {t : ℤ} :
    search test n t = none ↔ ∀ u, t ≤ u → u < t + n → test u = false := by
  induction n generalizing t with
  | zero => exact ⟨fun _ u _ _ => by omega, fun _ => rfl⟩
  | succ n ih =>
    rw [search]
    split
    · next htest =>
      constructor
      · intro h
        cases h
      · intro h
        rw [h t le_rfl (by omega)] at htest
        cases htest
    · next htest =>
      rw [ih]
      refine ⟨fun h u hle hlt => ?_, fun h u hle hlt => h u (by omega) (by omega)⟩
      rcases hle.eq_or_lt with rfl | hlt'
      · exact Bool.eq_false_iff.mpr htest
      · exact h u (by omega) (by omega)

theorem search_eq_some {test : ℤ → Bool} {n : ℕ} {t r : ℤ} (h : search test n t = some r) :
    IsLeast {u | t ≤ u ∧ test u = true} r ∧ r < t + n := by
  induction n generalizing t with
  | zero => cases h
  | succ n ih =>
    rw [search] at h
    split at h
    · next htest =>
      obtain rfl := Option.some.inj h
      exact ⟨⟨⟨le_rfl, htest⟩, fun u hu => hu.1⟩, by omega⟩
    · next htest =>
      obtain ⟨⟨⟨hle, hr⟩, hleast⟩, hlt⟩ := ih h
      refine ⟨⟨⟨by omega, hr⟩, fun u ⟨hu, hpass⟩ => ?_⟩, by omega⟩
      rcases hu.eq_or_lt with rfl | hlt'
      · exact absurd hpass htest
      · exact hleast ⟨hlt', hpass⟩

/-! ## Instants and local time -/

structure Date where
  year : ℤ
  month : ℤ
  day : ℤ

/-- The calendar of package `time`: the date of a day, and the day of a date by `time.Date`. -/
structure Calendar where
  date : ℤ → Date
  ofDate : Date → ℤ
  ofDate_date : ∀ day, ofDate (date day) = day

/-- A `time.Location`: what is added to UTC in a minute, and the minute in which `time.Date`
sees a day begin. -/
structure Location where
  offset : ℤ → ℤ
  midnight : ℤ → ℤ

namespace Location

def utc : Location := ⟨fun _ => 0, (· * 1440)⟩

def wall (loc : Location) (t : ℤ) : ℤ := t + loc.offset t

def day (loc : Location) (t : ℤ) : ℤ := loc.wall t / 1440

def hour (loc : Location) (t : ℤ) : ℤ := loc.wall t % 1440 / 60

def minute (loc : Location) (t : ℤ) : ℤ := loc.wall t % 60

def weekday (loc : Location) (t : ℤ) : ℤ := (loc.day t + 4) % 7

end Location

def minuteAfter (after : ℤ) : ℤ := after / 60000000000 + 1

theorem minuteAfter_le_iff {after t : ℤ} : minuteAfter after ≤ t ↔ after < t * 60000000000 := by
  rw [minuteAfter]
  omega

def horizon : ℕ := 5 * 366 * 24 * 60 + 1

def later (after : ℤ) (p : ℤ → Prop) : Set ℤ := {t | after < t * 60000000000 ∧ p t}

/-- The search is right exactly if a later match, if there is one, lies within the horizon. -/
theorem isNext_search_iff {test : ℤ → Bool} {p : ℤ → Prop} {after : ℤ}
    (hp : ∀ t, after < t * 60000000000 → (test t = true ↔ p t)) :
    IsNext (later after p) (search test horizon (minuteAfter after)) ↔
      ((later after p).Nonempty → ∃ t ∈ later after p, t < minuteAfter after + horizon) := by
  have hmem : ∀ t, t ∈ later after p ↔ minuteAfter after ≤ t ∧ test t = true := fun t => by
    rw [minuteAfter_le_iff]
    exact (and_congr_right (hp t)).symm
  cases hr : search test horizon (minuteAfter after) with
  | some r =>
    obtain ⟨⟨hleast, hlower⟩, hlt⟩ := search_eq_some hr
    have hr' := (hmem r).mpr hleast
    exact ⟨fun _ _ => ⟨r, hr', hlt⟩, fun _ => ⟨hr', fun t ht => hlower ((hmem t).mp ht)⟩⟩
  | none =>
    refine ⟨fun hempty hsome => absurd hempty hsome.ne_empty, fun h => ?_⟩
    refine Set.eq_empty_iff_forall_notMem.mpr fun t ht => ?_
    obtain ⟨u, hu, hlt⟩ := h ⟨t, ht⟩
    obtain ⟨hle, hpass⟩ := (hmem u).mp hu
    rw [search_eq_none_iff.mp hr u hle hlt] at hpass
    cases hpass

/-! ## Rules -/

inductive Frequency where
  | daily | weekly | monthly | yearly
  deriving DecidableEq

abbrev Bounded (minimum maximum : ℤ) : Type := {n : ℤ // minimum ≤ n ∧ n ≤ maximum}

structure Rule where
  frequency : Frequency
  interval : Bounded 1 366
  hour : Bounded 0 23
  minute : Bounded 0 59
  weekdays : List ℤ
  monthDay : Bounded 1 31
  month : Bounded 1 12
  deriving DecidableEq

def integer (text : List Char) : Option ℤ :=
  let digits (text : List Char) : Option ℤ :=
    if text ≠ [] ∧ text.all Char.isDigit then some (Nat.ofDigitChars 10 text 0) else none
  match text with
  | '+' :: rest => digits rest
  | '-' :: rest => (digits rest).map (- ·)
  | text => digits text

def boundedInteger (value : List Char) (minimum maximum : ℤ) :
    Except String (Bounded minimum maximum) :=
  if value ≠ ['0'] ∧ value.head? = some '0' then .error "must use canonical decimal notation"
  else
    match integer value with
    | some n =>
      if h : minimum ≤ n ∧ n ≤ maximum then .ok ⟨n, h⟩
      else .error s!"must be between {minimum} and {maximum}"
    | none => .error s!"must be between {minimum} and {maximum}"

abbrev Components : Type := List (List Char × List Char)

def addComponent (values : Components) (component : List Char) : Except String Components :=
  let key := component.takeWhile (· ≠ '=')
  let value := component.drop (key.length + 1)
  if '=' ∉ component ∨ key = [] ∨ value = [] ∨ key ≠ key.map Char.toUpper ∨
      (values.lookup key).isSome then
    .error "calendar rule contains an invalid or duplicate component"
  else .ok ((key, value) :: values)

def frequencyOf (text : Option (List Char)) : Except String Frequency :=
  match text.map String.ofList with
  | some "DAILY" => .ok .daily
  | some "WEEKLY" => .ok .weekly
  | some "MONTHLY" => .ok .monthly
  | some "YEARLY" => .ok .yearly
  | _ => .error "calendar FREQ must be DAILY, WEEKLY, MONTHLY, or YEARLY"

def numberOf (values : Components) (key : String) (allowed : Bool) (refusal : String)
    (minimum maximum : ℤ) (default : Bounded minimum maximum) :
    Except String (Bounded minimum maximum) :=
  match values.lookup key.toList with
  | none => .ok default
  | some value =>
    if allowed then (boundedInteger value minimum maximum).mapError (s!"calendar {key}: " ++ ·)
    else .error refusal

def weekdayNames : List (List Char) :=
  [['S', 'U'], ['M', 'O'], ['T', 'U'], ['W', 'E'], ['T', 'H'], ['F', 'R'], ['S', 'A']]

def addWeekday (days : List ℤ) (item : List Char) : Except String (List ℤ) :=
  match weekdayNames.idxOf? item with
  | some day =>
    if (day : ℤ) ∈ days then .error "calendar BYDAY contains an invalid or duplicate weekday"
    else .ok (day :: days)
  | none => .error "calendar BYDAY contains an invalid or duplicate weekday"

def weekdaysOf (values : Components) (frequency : Frequency) : Except String (List ℤ) :=
  match values.lookup "BYDAY".toList with
  | none => .ok (if frequency = .weekly then [1] else [])
  | some value =>
    if frequency ≠ .weekly then .error "calendar BYDAY is supported only with WEEKLY"
    else (value.splitOn ',').foldlM addWeekday []

def supportedKeys : List (List Char) :=
  ["FREQ", "INTERVAL", "BYHOUR", "BYMINUTE", "BYDAY", "BYMONTHDAY", "BYMONTH"].map String.toList

def parse (source : String) : Except String Rule := do
  let source := trimSpace source
  if source = "" then throw "calendar rule is empty"
  let values ← (source.toList.splitOn ';').foldlM addComponent []
  let frequency ← frequencyOf (values.lookup "FREQ".toList)
  let interval ← numberOf values "INTERVAL" true "" 1 366 ⟨1, by decide⟩
  let hour ← numberOf values "BYHOUR" true "" 0 23 ⟨0, by decide⟩
  let minute ← numberOf values "BYMINUTE" true "" 0 59 ⟨0, by decide⟩
  let weekdays ← weekdaysOf values frequency
  let monthDay ← numberOf values "BYMONTHDAY" (frequency = .monthly || frequency = .yearly)
    "calendar BYMONTHDAY requires MONTHLY or YEARLY" 1 31 ⟨1, by decide⟩
  let month ← numberOf values "BYMONTH" (frequency = .yearly)
    "calendar BYMONTH requires YEARLY" 1 12 ⟨1, by decide⟩
  match values.find? fun entry => supportedKeys.all (entry.1 ≠ ·) with
  | some entry => throw s!"calendar component {String.ofList entry.1} is not supported"
  | none => return ⟨frequency, interval, hour, minute, weekdays, monthDay, month⟩

/-! ## The search -/

section Next

variable (cal : Calendar) (loc : Location)

def calendarDay (t : ℤ) : ℤ := cal.ofDate (cal.date (loc.day t))

def positiveModulo (value modulus : ℤ) : ℤ :=
  let result := value.tmod modulus
  if result < 0 then result + modulus else result

def Rule.accepts (rule : Rule) (t : ℤ) : Bool :=
  if loc.hour t ≠ rule.hour ∨ loc.minute t ≠ rule.minute then false
  else
    let date := cal.date (loc.day t)
    match rule.frequency with
    | .daily =>
      positiveModulo (calendarDay cal loc t - calendarDay cal loc (loc.midnight 0))
        rule.interval = 0
    | .weekly =>
      let weeks := (calendarDay cal loc t - calendarDay cal loc (loc.midnight 4)).tdiv 7
      positiveModulo weeks rule.interval = 0 && loc.weekday t ∈ rule.weekdays
    | .monthly =>
      let months := (date.year - 1970) * 12 + date.month - 1
      positiveModulo months rule.interval = 0 && date.day = rule.monthDay
    | .yearly =>
      positiveModulo (date.year - 1970) rule.interval = 0 && date.month = rule.month &&
        date.day = rule.monthDay

def Rule.next (rule : Rule) (after : ℤ) (location : Option Location) : Option ℤ :=
  search (rule.accepts cal (location.getD .utc)) horizon (minuteAfter after)

def Rule.Recurs (rule : Rule) (t : ℤ) : Prop :=
  let date := cal.date (loc.day t)
  (loc.hour t = rule.hour ∧ loc.minute t = rule.minute) ∧
    match rule.frequency with
    | .daily => rule.interval.1 ∣ loc.day t
    | .weekly => rule.interval.1 ∣ (loc.day t - 4) / 7 ∧ loc.weekday t ∈ rule.weekdays
    | .monthly =>
      rule.interval.1 ∣ (date.year - 1970) * 12 + date.month - 1 ∧ date.day = rule.monthDay
    | .yearly => rule.interval.1 ∣ date.year - 1970 ∧ date.month = rule.month ∧
        date.day = rule.monthDay

def Location.Anchored : Prop := loc.day (loc.midnight 0) = 0 ∧ loc.day (loc.midnight 4) = 4

end Next

theorem calendarDay_eq (cal : Calendar) (loc : Location) (t : ℤ) :
    calendarDay cal loc t = loc.day t := cal.ofDate_date _

theorem positiveModulo_eq_zero_iff {value modulus : ℤ} (h : 0 < modulus) :
    positiveModulo value modulus = 0 ↔ modulus ∣ value := by
  have hgt := Int.lt_tmod_of_pos value h
  rw [positiveModulo, Int.dvd_iff_tmod_eq_zero]
  split <;> omega

theorem accepts_iff {cal : Calendar} {loc : Location} (hloc : loc.Anchored) (rule : Rule) {t : ℤ}
    (ht : 4 ≤ loc.day t) : rule.accepts cal loc t = true ↔ rule.Recurs cal loc t := by
  have hpos : (0 : ℤ) < rule.interval := by
    have := rule.interval.2.1
    omega
  -- from the anchor on, the truncated quotient of the weeks is the floor
  have hweeks : (loc.day t - 4).tdiv 7 = (loc.day t - 4) / 7 :=
    Int.tdiv_eq_ediv_of_nonneg (by omega)
  rw [Rule.accepts, Rule.Recurs]
  split
  · next hclock =>
    rw [← not_and_or] at hclock
    constructor
    · intro h
      cases h
    · intro h
      exact absurd h.1 hclock
  · next hclock =>
    rw [not_or, not_not, not_not] at hclock
    cases rule.frequency <;>
      simp [hclock.1, hclock.2, calendarDay_eq, hloc.1, hloc.2, hweeks,
        positiveModulo_eq_zero_iff hpos, and_assoc]

/-- `Rule.Next` gives the least later minute at which the rule recurs, and nothing only if it
never does, exactly if the rule has no later recurrence or one within the horizon. -/
theorem next_isNext_iff (cal : Calendar) (rule : Rule) (location : Option Location) (after : ℤ)
    (hloc : (location.getD .utc).Anchored)
    (hafter : ∀ t, after < t * 60000000000 → 4 ≤ (location.getD .utc).day t) :
    IsNext (later after (rule.Recurs cal (location.getD .utc))) (rule.next cal after location) ↔
      ((later after (rule.Recurs cal (location.getD .utc))).Nonempty →
        ∃ t ∈ later after (rule.Recurs cal (location.getD .utc)),
          t < minuteAfter after + horizon) :=
  isNext_search_iff fun t ht => accepts_iff hloc rule (hafter t ht)

/-- The same for what the code accepts, in every location and after every instant. -/
theorem next_isNext_accepts_iff (cal : Calendar) (rule : Rule) (location : Option Location)
    (after : ℤ) :
    let accepted := later after (rule.accepts cal (location.getD .utc) · = true)
    IsNext accepted (rule.next cal after location) ↔
      (accepted.Nonempty → ∃ t ∈ accepted, t < minuteAfter after + horizon) :=
  isNext_search_iff fun _ _ => .rfl

theorem utc_anchored : Location.utc.Anchored := by
  constructor <;> decide

theorem utc_day (t : ℤ) : Location.utc.day t = t / 1440 := by
  simp [Location.day, Location.wall, Location.utc]

def sampleCalendar : Calendar := ⟨fun day => ⟨day, 1, 1⟩, Date.year, fun _ => rfl⟩

theorem next_isNext_iff_daily :
    let rule : Rule := ⟨.daily, ⟨1, by decide⟩, ⟨0, by decide⟩, ⟨0, by decide⟩, [],
      ⟨1, by decide⟩, ⟨1, by decide⟩⟩
    IsNext (later 600000000000000 (rule.Recurs sampleCalendar .utc))
      (rule.next sampleCalendar 600000000000000 none) := by
  intro rule
  have hafter : ∀ t : ℤ, 600000000000000 < t * 60000000000 → 4 ≤ Location.utc.day t := by
    intro t ht
    rw [utc_day]
    omega
  refine (next_isNext_iff sampleCalendar rule none _ utc_anchored hafter).mpr fun _ =>
    ⟨10080, ⟨by decide, ?_⟩, by decide⟩
  exact ⟨by decide, 7, by decide⟩

def every366Weeks : Rule :=
  ⟨.weekly, ⟨366, by decide⟩, ⟨0, by decide⟩, ⟨0, by decide⟩, [1], ⟨1, by decide⟩, ⟨1, by decide⟩⟩

/-- After 1970-01-12 a rule for every 366th week recurs on day 2566, beyond the horizon. -/
theorem every366Weeks_next_none :
    parse "FREQ=WEEKLY;INTERVAL=366;BYDAY=MO" = .ok every366Weeks ∧ ∀ cal : Calendar,
      every366Weeks.next cal 950400000000000 none = none ∧
      2566 * 1440 ∈ later 950400000000000 (every366Weeks.Recurs cal .utc) := by
  refine ⟨by decide +kernel, fun cal => ⟨search_eq_none_iff.mpr fun t hle hlt => ?_, by decide, ?_⟩⟩
  · have hbounds : 15841 ≤ t ∧ t ≤ 15841 + 2635200 := by
      simp only [minuteAfter, horizon] at hle hlt
      omega
    have hday : 4 ≤ Location.utc.day t := by
      rw [utc_day]
      omega
    refine Bool.eq_false_iff.mpr fun h => ?_
    obtain ⟨⟨hhour, hminute⟩, ⟨k, hk⟩, hweekday⟩ :=
      (accepts_iff utc_anchored every366Weeks hday).mp h
    simp [every366Weeks, Location.hour, Location.minute, Location.weekday, Location.wall,
      Location.day, Location.utc] at hhour hminute hk hweekday
    omega
  · exact ⟨by decide, by decide, by decide⟩

end Scenery.Schedule
