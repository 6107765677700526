import Invoicing.Proofs.Cycle.Tiling
import Mathlib.Order.Bounds.Basic

/-!
# The grid of boundaries

Every month has one date on the billing-cycle day, its last day if it is shorter
(`Date.exists_boundary`, `Date.IsBoundary.eq`). Boundaries that lie some months away from a date are
these dates (`Date.boundary_eq_ok_iff`), and the first boundary of a segment is the first of them on
or after its start (`BillingCycle.firstBoundary_eq_ok_iff`).
-/

namespace Invoicing

namespace Date

variable {a b d e : Date} {months day index year month : Int}

/-- Whether a date is the billing-cycle day of its month, or the last day of a month that does not
have it. -/
def IsBoundary (d : Date) (day : Int) : Prop := d.day = min day (monthDays d.monthIndex)

instance (d : Date) (day : Int) : Decidable (d.IsBoundary day) :=
  inferInstanceAs (Decidable (d.day = min day (monthDays d.monthIndex)))

theorem IsBoundary.one_le_day (h : d.IsBoundary day) : 1 ≤ day := by
  have hd := d.day_mem.1
  unfold IsBoundary at h
  omega

theorem IsBoundary.eq (ha : a.IsBoundary day) (hb : b.IsBoundary day)
    (h : a.monthIndex = b.monthIndex) : a = b := by
  refine dayNumber_injective ?_
  rw [dayNumber_eq, dayNumber_eq, ha, hb, h]

theorem IsBoundary.lt_iff (ha : a.IsBoundary day) (hb : b.IsBoundary day) :
    a < b ↔ a.monthIndex < b.monthIndex := by
  constructor
  · intro h
    refine lt_of_le_of_ne (monthIndex_le h.le) fun heq => ?_
    exact h.ne (ha.eq hb heq)
  · exact lt_of_monthIndex_lt

theorem IsBoundary.le_iff (ha : a.IsBoundary day) (hb : b.IsBoundary day) :
    a ≤ b ↔ a.monthIndex ≤ b.monthIndex := by
  rw [← not_lt, hb.lt_iff ha, not_lt]

theorem le_monthIndex (d : Date) : 12 ≤ d.monthIndex := by
  have := d.year_mem
  have := d.month_mem
  simp only [monthIndex, Invoicing.monthIndex]
  omega

theorem monthIndex_eq_iff :
    d.monthIndex = index ↔ d.year = index / 12 ∧ d.month = index % 12 + 1 := by
  constructor
  · rintro rfl
    exact ⟨d.year_eq, d.month_eq⟩
  · rintro ⟨hyear, hmonth⟩
    rw [monthIndex, Invoicing.monthIndex, hyear, hmonth]
    omega

theorem exists_boundary (hday : 1 ≤ day) (h : 12 ≤ index) (h' : index < 120000) :
    ∃ d : Date, d.monthIndex = index ∧ d.IsBoundary day := by
  have hpos : 1 ≤ monthDays index := daysInMonth_pos _ _
  let d : Date := ⟨index / 12, index % 12 + 1, min day (monthDays index), by omega, by omega,
    ⟨by omega, min_le_right _ _⟩⟩
  have hd : d.monthIndex = index := monthIndex_eq_iff.2 ⟨rfl, rfl⟩
  exact ⟨d, hd, by rw [IsBoundary, hd]⟩

/-! ## Boundaries some months away -/

theorem make_eq_ok_iff :
    make year month day = .ok d ↔ d.year = year ∧ d.month = month ∧ d.day = day := by
  refine ⟨make_eq_ok, ?_⟩
  rintro ⟨rfl, rfl, rfl⟩
  have hy := d.year_mem
  have hm := d.month_mem
  have hd := d.day_mem
  have hle := daysInMonth_le d.year d.month
  have hfits : (fitsWord d.year && fitsWord d.month && fitsWord d.day) = true := by
    simp only [fitsWord, Bool.and_eq_true, decide_eq_true_eq]
    omega
  rw [make, if_pos hfits, of?_eq_some_iff.2 ⟨rfl, rfl, rfl⟩]

theorem boundary_eq_ok_iff :
    d.boundary months day = .ok e ↔ e.monthIndex = d.monthIndex + months ∧ e.IsBoundary day := by
  have hmonth : monthLength ((d.monthIndex + months) / 12) ((d.monthIndex + months) % 12 + 1) =
      .ok (monthDays (d.monthIndex + months)) := if_pos (by omega)
  rw [boundary_eq, alignedDate, hmonth, make_eq_ok_iff, ← and_assoc, ← monthIndex_eq_iff, IsBoundary]
  refine and_congr_right fun h => ?_
  rw [h]

theorem boundary_isOk (hday : 1 ≤ day) (h : 12 ≤ d.monthIndex + months)
    (h' : d.monthIndex + months < 120000) : ∃ e, d.boundary months day = .ok e := by
  obtain ⟨e, he, hboundary⟩ := exists_boundary hday h h'
  exact ⟨e, boundary_eq_ok_iff.2 ⟨he, hboundary⟩⟩

end Date

namespace BillingCycle

variable {start first : Date} {day : Int}

theorem firstBoundary_isOk {q : Date} (h : start ≤ q) (hq : q.IsBoundary day) :
    ∃ first, firstBoundary start day = .ok first := by
  have hday := hq.one_le_day
  obtain ⟨b, hb, hb'⟩ := Date.exists_boundary hday start.le_monthIndex start.monthIndex_lt
  unfold firstBoundary
  rw [Date.alignedDate_eq, Date.boundary_eq_ok_iff.2 ⟨by omega, hb'⟩]
  dsimp only
  split
  case isTrue hlt =>
    -- the boundary of the first month lies before the start, so that on or after it is of a later month
    have hlater := (hb'.lt_iff hq).1 (hlt.trans_le h)
    have hlow := start.le_monthIndex
    have hhigh := q.monthIndex_lt
    exact Date.boundary_isOk hday (by omega) (by omega)
  case isFalse => exact ⟨b, rfl⟩

theorem firstBoundary_isLeast (h : firstBoundary start day = .ok first) :
    IsLeast {d | start ≤ d ∧ d.IsBoundary day} first := by
  have hfirst := firstBoundary_spec h
  have hboundary := (Date.boundary_eq_ok_iff.1 hfirst.2).2
  refine ⟨⟨hfirst.1, hboundary⟩, fun d hd => ?_⟩
  rw [hboundary.le_iff hd.2]
  have hle := Date.monthIndex_le hd.1
  unfold firstBoundary at h
  rw [Date.alignedDate_eq] at h
  split at h
  case h_1 => cases h
  case h_2 b hb =>
  have hb := Date.boundary_eq_ok_iff.1 hb
  split at h
  case isTrue hlt =>
    have hlater := (hb.2.lt_iff hd.2).1 (hlt.trans_le hd.1)
    have := (Date.boundary_eq_ok_iff.1 h).1
    omega
  case isFalse =>
    obtain rfl := Except.ok.inj h
    omega

/-- The first boundary of a segment is the first date on or after its start that is the billing-cycle
day of its month. -/
theorem firstBoundary_eq_ok_iff : firstBoundary start day = .ok first ↔
    IsLeast {d | start ≤ d ∧ d.IsBoundary day} first := by
  refine ⟨firstBoundary_isLeast, fun hleast => ?_⟩
  obtain ⟨first', h⟩ := firstBoundary_isOk hleast.1.1 hleast.1.2
  rw [h, (firstBoundary_isLeast h).unique hleast]

end BillingCycle

end Invoicing
