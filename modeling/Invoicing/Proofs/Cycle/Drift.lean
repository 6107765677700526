import Invoicing.Proofs.Cycle.Grid

/-!
# The grid does not drift

`gridDate` is the date some months away from the month in which a grid is anchored, on its billing-cycle
day. A boundary depends on its month and the day alone (`Date.boundary_of_boundary`), so a short month on
the way changes nothing: the dates of the grid are those of any of its dates, each on the billing-cycle
day as far as its own month has it, one in every month (`gridDate_steady`).
-/

namespace Invoicing

namespace Date

variable {d e : Date} {day a b : Int}

theorem boundary_lt_iff (hd : e.boundary a day = .ok d) {d' : Date} (hd' : e.boundary b day = .ok d') :
    d < d' ↔ a < b := by
  obtain ⟨hmonth, hday⟩ := boundary_eq_ok_iff.1 hd
  obtain ⟨hmonth', hday'⟩ := boundary_eq_ok_iff.1 hd'
  rw [hday.lt_iff hday']
  omega

theorem day_of_boundary (h : d.boundary a day = .ok e) : e.day = min day (daysInMonth e.year e.month) := by
  rw [(boundary_eq_ok_iff.1 h).2, monthDays, ← year_eq, ← month_eq]

end Date

/-- The date on the billing-cycle day that lies `k` months from a month. -/
def gridDate (year month day k : Int) : Except CalendarFault Date := do
  (← alignedDate year month day).boundary k day

/-- The laws of a grid with a date in every month. -/
structure SteadyGrid (year month day : Int) : Prop where
  /-- The grid starts in its month. -/
  start : ∃ d, alignedDate year month day = .ok d ∧ gridDate year month day 0 = .ok d
  /-- There is a date as long as the month reached lies in the years 1 to 9999. -/
  isOk_iff : ∀ k, (∃ d, gridDate year month day k = .ok d) ↔
    1 ≤ (shiftMonth year month k).1 ∧ (shiftMonth year month k).1 ≤ 9999
  /-- The dates counted from a date of the grid are those of the grid. -/
  compose : ∀ a b d, gridDate year month day a = .ok d →
    d.boundary b day = gridDate year month day (a + b)
  month_eq : ∀ k d, gridDate year month day k = .ok d → (d.year, d.month) = shiftMonth year month k
  /-- Each date is on the billing-cycle day, as far as its own month has it. -/
  day_eq : ∀ k d, gridDate year month day k = .ok d → d.day = min day (daysInMonth d.year d.month)
  strictMono : ∀ j k d e, gridDate year month day j = .ok d → gridDate year month day k = .ok e →
    (d < e ↔ j < k)
  /-- Each month has one date. -/
  existsUnique : ∀ y m, 1 ≤ y ∧ y ≤ 9999 → 1 ≤ m ∧ m ≤ 12 →
    ∃! d : Date, (∃ k, gridDate year month day k = .ok d) ∧ d.year = y ∧ d.month = m

variable {year month day : Int}

theorem exists_boundary_of_month (hday : 1 ≤ day) (hyear : 1 ≤ year ∧ year ≤ 9999)
    (hmonth : 1 ≤ month ∧ month ≤ 12) :
    ∃ d : Date, (d.year = year ∧ d.month = month) ∧ d.IsBoundary day := by
  have hrange : 12 ≤ monthIndex year month ∧ monthIndex year month < 120000 := by
    unfold monthIndex
    omega
  obtain ⟨d, hindex, hd⟩ := Date.exists_boundary hday hrange.1 hrange.2
  obtain ⟨hy, hm⟩ := Date.monthIndex_eq_iff.1 hindex
  unfold monthIndex at hy hm
  exact ⟨d, by omega, hd⟩

theorem exists_anchor (hday : 1 ≤ day) (hyear : 1 ≤ year ∧ year ≤ 9999)
    (hmonth : 1 ≤ month ∧ month ≤ 12) :
    ∃ s : Date, s.monthIndex = monthIndex year month ∧ s.IsBoundary day ∧
      alignedDate year month day = .ok s ∧ ∀ k, gridDate year month day k = s.boundary k day := by
  obtain ⟨s, ⟨rfl, rfl⟩, hs⟩ := exists_boundary_of_month hday hyear hmonth
  have hstart : alignedDate s.year s.month day = .ok s := by
    rw [Date.alignedDate_eq]
    exact Date.boundary_eq_ok_iff.2 ⟨(add_zero _).symm, hs⟩
  exact ⟨s, rfl, hs, hstart, fun k => by rw [gridDate, hstart]; rfl⟩

/-- The grid of a billing-cycle day has its laws, whichever month it is anchored in. -/
theorem gridDate_steady (hday : 1 ≤ day) (hyear : 1 ≤ year ∧ year ≤ 9999)
    (hmonth : 1 ≤ month ∧ month ≤ 12) : SteadyGrid year month day := by
  obtain ⟨s, hindex, hs, hstart, hgrid⟩ := exists_anchor hday hyear hmonth
  constructor
  case start => exact ⟨s, hstart, (hgrid 0).trans (Date.boundary_eq_ok_iff.2 ⟨(add_zero _).symm, hs⟩)⟩
  case isOk_iff =>
    intro k
    rw [hgrid, shiftMonth, ← hindex]
    constructor
    · rintro ⟨d, hd⟩
      have hmonth := (Date.boundary_eq_ok_iff.1 hd).1
      have hlow := d.le_monthIndex
      have hhigh := d.monthIndex_lt
      omega
    · intro hk
      exact Date.boundary_isOk hday (by omega) (by omega)
  case compose =>
    intro a b d h
    rw [hgrid] at h ⊢
    exact Date.boundary_of_boundary h b
  case month_eq =>
    intro k d h
    have hmonth := (Date.boundary_eq_ok_iff.1 ((hgrid k).symm.trans h)).1
    rw [shiftMonth, ← hindex, ← hmonth, ← Date.year_eq, ← Date.month_eq]
  case day_eq => exact fun k d h => Date.day_of_boundary ((hgrid k).symm.trans h)
  case strictMono =>
    exact fun j k d e hd he =>
      Date.boundary_lt_iff ((hgrid j).symm.trans hd) ((hgrid k).symm.trans he)
  case existsUnique =>
    intro y m hy hm
    obtain ⟨d, hd, hdboundary⟩ := exists_boundary_of_month hday hy hm
    have hreached : s.boundary (d.monthIndex - s.monthIndex) day = .ok d :=
      Date.boundary_eq_ok_iff.2 ⟨by omega, hdboundary⟩
    refine ⟨d, ⟨⟨_, (hgrid _).trans hreached⟩, hd⟩, ?_⟩
    rintro e ⟨⟨k, he⟩, hparts⟩
    have heboundary := (Date.boundary_eq_ok_iff.1 ((hgrid k).symm.trans he)).2
    refine heboundary.eq hdboundary ?_
    rw [Date.monthIndex, Date.monthIndex, hparts.1, hparts.2, hd.1, hd.2]

/-- The grid of the 31st from January 2024 on: February has its last day, the 29th, and March the 31st
again, also if it is counted from February. -/
theorem gridDate_steady_leapYear : SteadyGrid 2024 1 31 ∧
    ∃ d : Date, gridDate 2024 1 31 1 = .ok d ∧ d.day = 29 ∧
      ∃ e : Date, d.boundary 1 31 = .ok e ∧ gridDate 2024 1 31 2 = .ok e ∧ e.day = 31 := by
  have hgrid : SteadyGrid 2024 1 31 := gridDate_steady (by decide) (by decide) (by decide)
  have hfebruary : gridDate 2024 1 31 1 = .ok ((Date.of? 2024 2 29).get rfl) := rfl
  have hmarch : gridDate 2024 1 31 2 = .ok ((Date.of? 2024 3 31).get rfl) := rfl
  exact ⟨hgrid, _, hfebruary, rfl, _, (hgrid.compose 1 1 _ hfebruary).trans hmarch, hmarch, rfl⟩

end Invoicing
