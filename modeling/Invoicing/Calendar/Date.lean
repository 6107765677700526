/-!
# Dates

`Date` is a day of the Gregorian calendar in the years 1 to 9999. `Date.dayNumber` counts days from
0001-01-01, which is day 1, and carries the order; `Date.ofDayNumber?` is the way back.
-/

namespace Invoicing

/-- Every fourth year is a leap year, of the full centuries every fourth. -/
def isLeapYear (year : Int) : Bool :=
  year % 4 == 0 && (year % 100 != 0 || year % 400 == 0)

/-- Length of month `month` (1 to 12) of any year, also one that no `Date` has. -/
def daysInMonth (year month : Int) : Int :=
  if month = 2 then (if isLeapYear year then 29 else 28)
  else if month = 4 ∨ month = 6 ∨ month = 9 ∨ month = 11 then 30
  else 31

theorem daysInMonth_pos (year month : Int) : 1 ≤ daysInMonth year month := by
  unfold daysInMonth; split <;> (try split) <;> omega

theorem daysInMonth_le (year month : Int) : daysInMonth year month ≤ 31 := by
  unfold daysInMonth; split <;> (try split) <;> omega

/-- A day of the calendar. -/
structure Date where
  year : Int
  month : Int
  day : Int
  year_mem : 1 ≤ year ∧ year ≤ 9999
  month_mem : 1 ≤ month ∧ month ≤ 12
  day_mem : 1 ≤ day ∧ day ≤ daysInMonth year month
  deriving DecidableEq

/-- Number of days before the first day of a year, counted from the first day of year 1. -/
def daysBeforeYear (year : Int) : Int :=
  365 * (year - 1) + (year - 1) / 4 - (year - 1) / 100 + (year - 1) / 400

/-- Number of days of a year before the first day of month `month` (1 to 12). -/
def daysBeforeMonth (year month : Int) : Int :=
  (367 * month - 362) / 12 - (if month ≤ 2 then 0 else if isLeapYear year then 1 else 2)

/-- Day count of a year, month and day; 1 for 0001-01-01. -/
def dayCount (year month day : Int) : Int :=
  daysBeforeYear year + daysBeforeMonth year month + day

namespace Date

/-- The date with these parts, if there is one. -/
def of? (year month day : Int) : Option Date :=
  if h : (1 ≤ year ∧ year ≤ 9999) ∧ (1 ≤ month ∧ month ≤ 12) ∧
      (1 ≤ day ∧ day ≤ daysInMonth year month) then
    some ⟨year, month, day, h.1, h.2.1, h.2.2⟩
  else none

theorem of?_eq_some_iff {year month day : Int} {d : Date} :
    of? year month day = some d ↔ d.year = year ∧ d.month = month ∧ d.day = day := by
  unfold of?
  constructor
  · intro h
    split at h
    · cases h; exact ⟨rfl, rfl, rfl⟩
    · cases h
  · rintro ⟨rfl, rfl, rfl⟩
    rw [dif_pos ⟨d.year_mem, d.month_mem, d.day_mem⟩]

/-- Position of the day in the calendar; 1 for 0001-01-01. -/
def dayNumber (d : Date) : Int := dayCount d.year d.month d.day

/-- Dates are ordered by their day number. -/
instance : LE Date := ⟨fun a b => a.dayNumber ≤ b.dayNumber⟩

instance : LT Date := ⟨fun a b => a.dayNumber < b.dayNumber⟩

instance (a b : Date) : Decidable (a ≤ b) := inferInstanceAs (Decidable (a.dayNumber ≤ b.dayNumber))

instance (a b : Date) : Decidable (a < b) := inferInstanceAs (Decidable (a.dayNumber < b.dayNumber))

theorem le_iff {a b : Date} : a ≤ b ↔ a.dayNumber ≤ b.dayNumber := Iff.rfl

theorem lt_iff {a b : Date} : a < b ↔ a.dayNumber < b.dayNumber := Iff.rfl

def daysUntil (a b : Date) : Int := b.dayNumber - a.dayNumber

/-- Year in which day `n` falls: a linear estimate, put right by at most one year. -/
def yearOfDayNumber (n : Int) : Int :=
  let guess := (n - 1) * 400 / 146097 + 1
  if n ≤ daysBeforeYear guess then guess - 1
  else if daysBeforeYear (guess + 1) < n then guess + 1
  else guess

/-- Month in which the `n`-th day of a year falls. -/
def monthOfDay (year n : Int) : Int :=
  (([12, 11, 10, 9, 8, 7, 6, 5, 4, 3, 2] : List Int).find? (daysBeforeMonth year · < n)).getD 1

/-- The date with a day number, if it lies in the years 1 to 9999. -/
def ofDayNumber? (n : Int) : Option Date :=
  let year := yearOfDayNumber n
  let rest := n - daysBeforeYear year
  let month := monthOfDay year rest
  of? year month (rest - daysBeforeMonth year month)

end Date

/-! ## Written form -/

/-- A number in decimal, filled up with zeros on the left to a least width. -/
def zeroPadded (width : Nat) (n : Nat) : String :=
  let digits := toString n
  String.ofList (List.replicate (width - digits.length) '0') ++ digits

/-- Four digits of the year, two of the month, two of the day. -/
def Date.iso (d : Date) : String :=
  zeroPadded 4 d.year.toNat ++ "-" ++ zeroPadded 2 d.month.toNat ++ "-" ++
    zeroPadded 2 d.day.toNat

/-- Value of a run of ASCII digits; `none` if there is another character, or no digit. -/
def digitsValue? (cs : List Char) : Option Nat :=
  if !cs.isEmpty && cs.all Char.isDigit then
    some (cs.foldl (fun n c => 10 * n + (c.toNat - '0'.toNat)) 0)
  else none

def Date.ofIso? (s : String) : Option Date :=
  match s.toList with
  | [y1, y2, y3, y4, '-', m1, m2, '-', d1, d2] => do
    let year ← digitsValue? [y1, y2, y3, y4]
    let month ← digitsValue? [m1, m2]
    let day ← digitsValue? [d1, d2]
    Date.of? year month day
  | _ => none

end Invoicing
