import Invoicing.Calendar.Date

/-!
# Months

Month arithmetic with clamping: a day of month that a month does not have stands for the month's
last day, so 31 lands on the end of February and is 31 again in March. `alignedDate` clamps,
`shiftMonth` moves through the months of all years, `monthsBetween?` counts whole months, and
`monthsBetween` counts them without moving a date.
-/

namespace Invoicing

/-- Why a calculation yields no date. -/
inductive CalendarFault where
  /-- A month outside 1 to 12. -/
  | noSuchMonth
  /-- No date has these parts. -/
  | noSuchDate
  /-- A part of a date does not fit a 32-bit word. -/
  | partTooLarge
  /-- Moving in time left the years 1 to 9999. -/
  | outOfRange
  deriving DecidableEq

/-- Whether a number fits a signed 32-bit word. -/
def fitsWord (n : Int) : Bool := -2147483648 ≤ n ∧ n ≤ 2147483647

/-- The date with these parts; parts too large for a word are told apart from parts that do not
fit together. -/
def Date.make (year month day : Int) : Except CalendarFault Date :=
  if fitsWord year && fitsWord month && fitsWord day then
    match Date.of? year month day with
    | some d => .ok d
    | none => .error .noSuchDate
  else .error .partTooLarge

/-- Length of a month, in any year. -/
def monthLength (year month : Int) : Except CalendarFault Int :=
  if 1 ≤ month ∧ month ≤ 12 then .ok (daysInMonth year month) else .error .noSuchMonth

/-- Day `day` of a month, or the month's last day if the month is shorter. -/
def alignedDate (year month day : Int) : Except CalendarFault Date :=
  match monthLength year month with
  | .ok length => Date.make year month (min day length)
  | .error e => .error e

/-- Position of a month among the months of all years; 0 for January of year 0. -/
def monthIndex (year month : Int) : Int := year * 12 + (month - 1)

/-- Year and month `months` months later, or earlier if `months` is negative. -/
def shiftMonth (year month months : Int) : Int × Int :=
  let index := monthIndex year month + months
  (index / 12, index % 12 + 1)

namespace Date

/-- Position of the date's month among the months of all years. -/
def monthIndex (d : Date) : Int := Invoicing.monthIndex d.year d.month

/-- Day `day`, clamped, of the month that lies `months` months after the date's month. -/
def boundary (d : Date) (months day : Int) : Except CalendarFault Date :=
  let (year, month) := shiftMonth d.year d.month months
  alignedDate year month day

theorem monthIndex_lt (d : Date) : d.monthIndex < 120000 := by
  have := d.year_mem; have := d.month_mem
  simp only [monthIndex, Invoicing.monthIndex]; omega

theorem make_eq_ok {year month day : Int} {d : Date} (h : make year month day = .ok d) :
    d.year = year ∧ d.month = month ∧ d.day = day := by
  unfold make at h
  split at h
  · split at h
    · next hd => cases h; exact of?_eq_some_iff.1 hd
    · cases h
  · cases h

theorem monthIndex_boundary {d e : Date} {months day : Int} (h : d.boundary months day = .ok e) :
    e.monthIndex = d.monthIndex + months := by
  unfold boundary shiftMonth alignedDate at h
  dsimp only at h
  split at h
  · obtain ⟨hy, hm, -⟩ := make_eq_ok h
    simp only [monthIndex, Invoicing.monthIndex] at hy hm ⊢
    omega
  · cases h

/-- The date moved by whole months, its day clamped to the length of the month reached. -/
def addMonths (d : Date) (months : Int) : Except CalendarFault Date := d.boundary months d.day

/-- Whole months from one date to another, negative if the second is earlier. A month counts once
moving the first date by it does not pass the second. -/
def monthsBetween? (start finish : Date) : Except CalendarFault Int := do
  let months := finish.monthIndex - start.monthIndex
  if 0 < months then
    let moved ← start.addMonths months
    return if finish < moved then months - 1 else months
  else if months < 0 then
    let moved ← start.addMonths months
    return if moved < finish then months + 1 else months
  else return months

/-- Whole months from one date to another, by the days of the month only. -/
def monthsBetween (start finish : Date) : Int :=
  let months := finish.monthIndex - start.monthIndex
  let day := min start.day (daysInMonth finish.year finish.month)
  if 0 < months ∧ finish.day < day then months - 1
  else if months < 0 ∧ day < finish.day then months + 1
  else months

end Date

end Invoicing
