import Invoicing.Proofs.Calendar.Instant

/-!
# From day numbers to dates

The number of a day leads back to its date (`Date.ofDayNumber?_eq_some_iff`): the estimate of the year is
put right by at most one year, and the month is the last one that begins before the day. So a reading of
a clock is found from its position (`WallTime.ofCount?_eq_some_iff`).
-/

namespace Invoicing

namespace Date

variable {year month day n : Int}

theorem yearOfDayNumber_eq (h : daysBeforeYear year < n) (h' : n ≤ daysBeforeYear (year + 1)) :
    yearOfDayNumber n = year := by
  have hlow : year - 1 ≤ (n - 1) * 400 / 146097 + 1 := by
    unfold daysBeforeYear at h
    omega
  have hhigh : (n - 1) * 400 / 146097 + 1 ≤ year + 1 := by
    unfold daysBeforeYear at h'
    omega
  have hprevious := daysBeforeYear_succ (year - 1)
  rw [sub_add_cancel] at hprevious
  unfold yearOfDayNumber
  dsimp only
  generalize (n - 1) * 400 / 146097 + 1 = guess at hlow hhigh
  obtain rfl | rfl | rfl : guess = year - 1 ∨ guess = year ∨ guess = year + 1 := by omega
  · rw [sub_add_cancel, if_neg (by split at hprevious <;> omega), if_pos h]
  · rw [if_neg (by omega), if_neg (by omega)]
  · rw [if_pos h', add_sub_cancel_right]

theorem daysBeforeMonth_le {a b : Int} (year : Int) (ha : 1 ≤ a) (h : a ≤ b) :
    daysBeforeMonth year a ≤ daysBeforeMonth year b := by
  unfold daysBeforeMonth
  split_ifs <;> omega

theorem monthOfDay_eq (hm : 1 ≤ month ∧ month ≤ 12)
    (hd : 1 ≤ day ∧ day ≤ daysInMonth year month) :
    monthOfDay year (daysBeforeMonth year month + day) = month := by
  have hbefore : daysBeforeMonth year month < daysBeforeMonth year month + day := by omega
  have hlater : ∀ k, month < k → k ≤ 12 →
      ¬ daysBeforeMonth year k < daysBeforeMonth year month + day := by
    intro k hk hk'
    have hnext := daysBeforeMonth_succ year (by omega : 1 ≤ month ∧ month ≤ 11)
    have := daysBeforeMonth_le year (by omega) (by omega : month + 1 ≤ k)
    omega
  obtain ⟨h₁, h₂⟩ := hm
  unfold monthOfDay
  generalize daysBeforeMonth year month + day = n at hbefore hlater
  interval_cases month <;> simp [List.find?, hbefore, hlater]

theorem dayOfYear_le (d : Date) :
    daysBeforeMonth d.year d.month + d.day ≤ (if isLeapYear d.year then 366 else 365) := by
  have hday := d.day_mem.2
  obtain ⟨h₁, h₂⟩ := d.month_mem
  unfold daysBeforeMonth
  unfold daysInMonth at hday
  split_ifs at * <;> omega

theorem ofDayNumber?_dayNumber (d : Date) : ofDayNumber? d.dayNumber = some d := by
  have hyear : yearOfDayNumber d.dayNumber = d.year := by
    have hlast := d.dayOfYear_le
    have hpos : 0 ≤ daysBeforeMonth d.year d.month :=
      daysBeforeMonth_le d.year le_rfl d.month_mem.1
    have hday := d.day_mem.1
    have hsucc := daysBeforeYear_succ d.year
    refine yearOfDayNumber_eq ?_ ?_ <;> rw [dayNumber, dayCount] <;> omega
  have hrest : d.dayNumber - daysBeforeYear d.year = daysBeforeMonth d.year d.month + d.day := by
    rw [dayNumber, dayCount]
    omega
  unfold ofDayNumber?
  dsimp only
  rw [hyear, hrest, monthOfDay_eq d.month_mem d.day_mem, add_sub_cancel_left]
  exact of?_eq_some_iff.2 ⟨rfl, rfl, rfl⟩

theorem ofDayNumber?_eq_some_iff {d : Date} : ofDayNumber? n = some d ↔ d.dayNumber = n := by
  refine ⟨dayNumber_ofDayNumber?, ?_⟩
  rintro rfl
  exact d.ofDayNumber?_dayNumber

end Date

namespace WallTime

theorem ofCount?_eq_some_iff {n : Int} {w : WallTime} : ofCount? n = some w ↔ w.count = n := by
  have hday := w.micros_mem
  constructor
  · intro h
    obtain ⟨d, hd, rfl⟩ := Option.map_eq_some_iff.1 h
    rw [count, Date.dayNumber_ofDayNumber? hd]
    exact Int.ediv_mul_add_emod n 86400000000
  · rintro rfl
    refine Option.map_eq_some_iff.2 ⟨w.date, Date.ofDayNumber?_eq_some_iff.2 ?_, count_injective ?_⟩
    · rw [count]
      omega
    · simp only [count]
      omega

end WallTime

end Invoicing
