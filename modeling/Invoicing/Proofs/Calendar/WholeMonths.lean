import Invoicing.Proofs.Cycle.Grid

/-!
# Whole months between dates

Counting months is adjoint to moving by months: at least `n` months lie ahead just if moving by `n`
months leads to a date that is not past the other one (`Date.le_monthsBetween_iff`), and the same holds
backwards (`Date.monthsBetween_le_iff`). Counting never fails (`Date.monthsBetween?_eq`): the month of
the other date is there, so the date moved into it is.
-/

namespace Invoicing.Date

variable {a b c d : Date} {n : Int}

/-! ## Moving by months -/

theorem addMonths_eq_ok_iff :
    a.addMonths n = .ok d ↔ d.monthIndex = a.monthIndex + n ∧ d.IsBoundary a.day :=
  boundary_eq_ok_iff

theorem addMonths_isOk (h : 12 ≤ a.monthIndex + n) (h' : a.monthIndex + n < 120000) :
    ∃ d, a.addMonths n = .ok d :=
  boundary_isOk a.day_mem.1 h h'

theorem lt_iff_of_monthIndex (h : a.monthIndex = b.monthIndex) : a < b ↔ a.day < b.day := by
  rw [lt_iff, dayNumber_eq, dayNumber_eq, h]
  omega

theorem day_of_addMonths (h : a.addMonths (b.monthIndex - a.monthIndex) = .ok d) :
    d.monthIndex = b.monthIndex ∧ d.day = min a.day (daysInMonth b.year b.month) := by
  obtain ⟨hmonth, hday⟩ := addMonths_eq_ok_iff.1 h
  have hmonth : d.monthIndex = b.monthIndex := by omega
  refine ⟨hmonth, ?_⟩
  rw [hday, hmonth, monthDays, ← year_eq, ← month_eq]

theorem exists_addMonths (a b : Date) : ∃ d, a.addMonths (b.monthIndex - a.monthIndex) = .ok d ∧
    (b < d ↔ b.day < min a.day (daysInMonth b.year b.month)) ∧
    (d < b ↔ min a.day (daysInMonth b.year b.month) < b.day) := by
  have hlow := b.le_monthIndex
  have hhigh := b.monthIndex_lt
  obtain ⟨d, hd⟩ := addMonths_isOk (a := a) (n := b.monthIndex - a.monthIndex) (by omega) (by omega)
  obtain ⟨hmonth, hday⟩ := day_of_addMonths hd
  refine ⟨d, hd, ?_, ?_⟩
  · rw [lt_iff_of_monthIndex hmonth.symm, hday]
  · rw [lt_iff_of_monthIndex hmonth, hday]

/-! ## Counting -/

theorem monthsBetween?_eq (a b : Date) : a.monthsBetween? b = .ok (a.monthsBetween b) := by
  obtain ⟨d, hd, hpast, hbefore⟩ := exists_addMonths a b
  unfold monthsBetween? monthsBetween
  dsimp only
  generalize b.monthIndex - a.monthIndex = months at hd ⊢
  generalize min a.day (daysInMonth b.year b.month) = day at hpast hbefore ⊢
  rcases lt_trichotomy 0 months with hpos | rfl | hneg
  · rw [if_pos hpos, hd]
    simp [bind, Except.bind, pure, Except.pure, hpos, hpast, not_lt.2 hpos.le]
  · simp [pure, Except.pure]
  · rw [if_neg (not_lt.2 hneg.le), if_pos hneg, hd]
    simp [bind, Except.bind, pure, Except.pure, hneg, hbefore, not_lt.2 hneg.le]

/-- At least so many months lie ahead just if moving by them does not pass the other date. -/
theorem le_monthsBetween_iff (hn : 1 ≤ n) :
    n ≤ a.monthsBetween b ↔ ∃ d, a.addMonths n = .ok d ∧ d ≤ b := by
  have hlow := a.le_monthIndex
  have hhigh := b.monthIndex_lt
  unfold monthsBetween
  dsimp only
  rcases lt_trichotomy n (b.monthIndex - a.monthIndex) with hlt | rfl | hgt
  -- the month reached lies before that of the other date, in it or after it
  · obtain ⟨d, hd⟩ := addMonths_isOk (a := a) (n := n) (by omega) (by omega)
    have hmonth := (addMonths_eq_ok_iff.1 hd).1
    have hle : d ≤ b := (lt_of_monthIndex_lt (by omega)).le
    refine iff_of_true ?_ ⟨d, hd, hle⟩
    split_ifs <;> omega
  · obtain ⟨d, hd, hpast, -⟩ := exists_addMonths a b
    rw [hd]
    simp only [Except.ok.injEq, exists_eq_left']
    have hpast : d ≤ b ↔ ¬ b.day < min a.day (daysInMonth b.year b.month) := by rw [← hpast, not_lt]
    rw [hpast]
    split_ifs <;> omega
  · apply iff_of_false
    · split_ifs <;> omega
    · rintro ⟨d, hd, hle⟩
      have hmonth := (addMonths_eq_ok_iff.1 hd).1
      have := monthIndex_le hle
      omega

/-- At least so many months lie behind just if moving back by them does not pass the other date. -/
theorem monthsBetween_le_iff (hn : n ≤ -1) :
    a.monthsBetween b ≤ n ↔ ∃ d, a.addMonths n = .ok d ∧ b ≤ d := by
  have hlow := b.le_monthIndex
  have hhigh := a.monthIndex_lt
  unfold monthsBetween
  dsimp only
  rcases lt_trichotomy n (b.monthIndex - a.monthIndex) with hlt | rfl | hgt
  · apply iff_of_false
    · split_ifs <;> omega
    · rintro ⟨d, hd, hle⟩
      have hmonth := (addMonths_eq_ok_iff.1 hd).1
      have := monthIndex_le hle
      omega
  · obtain ⟨d, hd, -, hbefore⟩ := exists_addMonths a b
    rw [hd]
    simp only [Except.ok.injEq, exists_eq_left']
    have hbefore : b ≤ d ↔ ¬ min a.day (daysInMonth b.year b.month) < b.day := by
      rw [← hbefore, not_lt]
    rw [hbefore]
    split_ifs <;> omega
  · obtain ⟨d, hd⟩ := addMonths_isOk (a := a) (n := n) (by omega) (by omega)
    have hmonth := (addMonths_eq_ok_iff.1 hd).1
    have hle : b ≤ d := (lt_of_monthIndex_lt (by omega)).le
    refine iff_of_true ?_ ⟨d, hd, hle⟩
    split_ifs <;> omega

/-! ## Months counted from a later date -/

theorem addMonths_le (h : a ≤ b) (ha : a.addMonths n = .ok c) (hb : b.addMonths n = .ok d) :
    c ≤ d := by
  obtain ⟨hc, hcday⟩ := addMonths_eq_ok_iff.1 ha
  obtain ⟨hd, hdday⟩ := addMonths_eq_ok_iff.1 hb
  rcases lt_or_eq_of_le (monthIndex_le h) with hlt | heq
  · exact (lt_of_monthIndex_lt (by omega)).le
  · have hday : a.day ≤ b.day := by
      rw [le_iff, dayNumber_eq, dayNumber_eq, heq] at h
      omega
    have hmonth : c.monthIndex = d.monthIndex := by omega
    rw [← not_lt, lt_iff_of_monthIndex hmonth.symm, hcday, hdday, hmonth]
    omega

theorem monthsBetween_antitone (b : Date) (h : a ≤ c) : c.monthsBetween b ≤ a.monthsBetween b := by
  have hmonth := monthIndex_le h
  have ha := a.le_monthIndex
  have hc := c.monthIndex_lt
  rcases lt_or_ge 0 (c.monthsBetween b) with hahead | hahead
  -- the months counted from the later date lie ahead, so moving the earlier date by them goes less far
  · obtain ⟨e, he, hle⟩ := (le_monthsBetween_iff hahead).1 le_rfl
    have hrange := e.monthIndex_lt
    have hindex := (addMonths_eq_ok_iff.1 he).1
    obtain ⟨d, hd⟩ := addMonths_isOk (a := a) (n := c.monthsBetween b) (by omega) (by omega)
    exact (le_monthsBetween_iff hahead).2 ⟨d, hd, (addMonths_le h hd he).trans hle⟩
  rcases lt_or_ge (a.monthsBetween b) 0 with hbehind | hbehind
  -- those counted from the earlier date lie behind, so moving the later date by them goes less far back
  · obtain ⟨d, hd, hle⟩ := (monthsBetween_le_iff (by omega)).1 (le_refl (a.monthsBetween b))
    have hrange := d.le_monthIndex
    have hindex := (addMonths_eq_ok_iff.1 hd).1
    obtain ⟨e, he⟩ := addMonths_isOk (a := c) (n := a.monthsBetween b) (by omega) (by omega)
    exact (monthsBetween_le_iff (by omega)).2 ⟨e, he, hle.trans (addMonths_le h hd he)⟩
  · exact hahead.trans hbehind

end Invoicing.Date
