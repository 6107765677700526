import Invoicing.Calendar.Month
import Mathlib.Order.Defs.LinearOrder
import Mathlib.Tactic.IntervalCases
import Mathlib.Tactic.SplitIfs

/-!
# The order of dates

Day numbers run through the months without gaps (`monthStart_succ`), so a day of a later month has a
larger number, and dates are in a linear order: two dates with one number are the same. Whole months
between dates grow with the second date (`Date.monthsBetween_le`).
-/

namespace Invoicing

/-- The number of the day before a month, which is given by its position among all months. -/
def monthStart (index : Int) : Int :=
  daysBeforeYear (index / 12) + daysBeforeMonth (index / 12) (index % 12 + 1)

/-- Length of the month at a position among all months. -/
def monthDays (index : Int) : Int := daysInMonth (index / 12) (index % 12 + 1)

theorem daysBeforeYear_succ (year : Int) :
    daysBeforeYear (year + 1) = daysBeforeYear year + (if isLeapYear year then 366 else 365) := by
  have hleap : isLeapYear year = true ↔ year % 4 = 0 ∧ (year % 100 ≠ 0 ∨ year % 400 = 0) := by
    simp [isLeapYear]
  unfold daysBeforeYear
  by_cases h : isLeapYear year
  · rw [if_pos h]; have := hleap.1 h; omega
  · rw [if_neg h]
    have : ¬ (year % 4 = 0 ∧ (year % 100 ≠ 0 ∨ year % 400 = 0)) := fun hl => h (hleap.2 hl)
    omega

theorem daysBeforeMonth_succ (year : Int) {month : Int} (h : 1 ≤ month ∧ month ≤ 11) :
    daysBeforeMonth year (month + 1) = daysBeforeMonth year month + daysInMonth year month := by
  obtain ⟨h₁, h₂⟩ := h
  unfold daysBeforeMonth daysInMonth
  interval_cases month <;> cases isLeapYear year <;> decide

theorem monthStart_succ (index : Int) :
    monthStart (index + 1) = monthStart index + monthDays index := by
  unfold monthStart monthDays
  rcases eq_or_ne (index % 12) 11 with h | h
  · have hyear : (index + 1) / 12 = index / 12 + 1 := by omega
    have hmonth : (index + 1) % 12 = 0 := by omega
    rw [hyear, hmonth, h, daysBeforeYear_succ]
    unfold daysBeforeMonth daysInMonth
    cases isLeapYear (index / 12) <;> simp <;> omega
  · have hyear : (index + 1) / 12 = index / 12 := by omega
    have hmonth : (index + 1) % 12 = index % 12 + 1 := by omega
    rw [hyear, hmonth, daysBeforeMonth_succ _ (by omega)]
    omega

theorem monthStart_le {a b : Int} (h : a ≤ b) : monthStart a ≤ monthStart b := by
  obtain ⟨k, rfl⟩ : ∃ k : Nat, b = a + k := ⟨(b - a).toNat, by omega⟩
  clear h
  induction k with
  | zero => simp
  | succ k ih =>
    have hpos : 1 ≤ monthDays (a + k) := daysInMonth_pos _ _
    have := monthStart_succ (a + k)
    push_cast
    rw [← add_assoc]
    omega

namespace Date

theorem year_eq (d : Date) : d.year = d.monthIndex / 12 := by
  have := d.month_mem
  simp only [monthIndex, Invoicing.monthIndex]; omega

theorem month_eq (d : Date) : d.month = d.monthIndex % 12 + 1 := by
  have := d.month_mem
  simp only [monthIndex, Invoicing.monthIndex]; omega

theorem dayNumber_eq (d : Date) : d.dayNumber = monthStart d.monthIndex + d.day := by
  rw [monthStart, ← year_eq, ← month_eq]; rfl

theorem day_le (d : Date) : d.day ≤ monthDays d.monthIndex := by
  rw [monthDays, ← year_eq, ← month_eq]; exact d.day_mem.2

theorem lt_of_monthIndex_lt {a b : Date} (h : a.monthIndex < b.monthIndex) : a < b := by
  have hnext : monthStart (a.monthIndex + 1) ≤ monthStart b.monthIndex := monthStart_le (by omega)
  have ha := a.day_le
  have hb := b.day_mem.1
  rw [monthStart_succ] at hnext
  rw [lt_iff, dayNumber_eq, dayNumber_eq]
  omega

theorem monthIndex_le {a b : Date} (h : a ≤ b) : a.monthIndex ≤ b.monthIndex := by
  by_contra hlt
  have := lt_of_monthIndex_lt (a := b) (b := a) (by omega)
  rw [lt_iff] at this
  rw [le_iff] at h
  omega

theorem dayNumber_injective : Function.Injective dayNumber := by
  intro a b h
  have hmonth : a.monthIndex = b.monthIndex :=
    Int.le_antisymm (monthIndex_le (le_iff.2 h.le)) (monthIndex_le (le_iff.2 h.ge))
  have hday : a.day = b.day := by
    rw [dayNumber_eq, dayNumber_eq, hmonth] at h; omega
  have hyear : a.year = b.year := by rw [year_eq, year_eq, hmonth]
  have hmon : a.month = b.month := by rw [month_eq, month_eq, hmonth]
  cases a; cases b
  simp_all

instance : LinearOrder Date where
  le_refl a := le_iff.2 le_rfl
  le_trans a b c h h' := le_iff.2 ((le_iff.1 h).trans (le_iff.1 h'))
  lt_iff_le_not_ge a b := by simp only [lt_iff, le_iff]; omega
  le_antisymm a b h h' := dayNumber_injective (le_antisymm (le_iff.1 h) (le_iff.1 h'))
  le_total a b := by simp only [le_iff]; omega
  toDecidableLE := inferInstance

theorem monthsBetween_le (a : Date) {b c : Date} (h : b ≤ c) :
    a.monthsBetween b ≤ a.monthsBetween c := by
  have hmonth := monthIndex_le h
  have hday : b.monthIndex = c.monthIndex → b.day ≤ c.day ∧
      daysInMonth b.year b.month = daysInMonth c.year c.month := by
    intro heq
    rw [le_iff, dayNumber_eq, dayNumber_eq, heq] at h
    refine ⟨by omega, ?_⟩
    rw [year_eq, month_eq, heq, ← year_eq, ← month_eq]
  have hb := b.day_mem.2
  have hc := c.day_mem.2
  have hb' := b.day_mem.1
  have hc' := c.day_mem.1
  unfold monthsBetween
  dsimp only
  rcases lt_or_eq_of_le hmonth with hlt | heq
  · split_ifs <;> omega
  · obtain ⟨hday, hdays⟩ := hday heq
    rw [heq, hdays]
    split_ifs <;> omega

end Date

end Invoicing
