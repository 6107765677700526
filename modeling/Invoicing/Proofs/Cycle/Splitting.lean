import Invoicing.Proofs.Cycle.Counts
import Invoicing.Proofs.Cycle.Segments

/-!
# Splitting a segment

The days of a monthly period advance the position in the calendar evenly by one (`Date.position`). So
the exact number of months that the cycles of a segment count for is the difference of the positions
of its ends (`BillingCycle.exists_countsFor_iff`), and a segment that is split at a day counts for as
much as its parts (`BillingCycle.inAdvance_split`).
-/

namespace Invoicing

/-- The day number of the billing-cycle day of a month, or of its last day if it is shorter. -/
def boundaryDay (day index : Int) : Int := monthStart index + min day (monthDays index)

variable {day index : Int}

theorem boundaryDay_lt_succ (hday : 1 ≤ day) (index : Int) :
    boundaryDay day index < boundaryDay day (index + 1) := by
  have hpos : 1 ≤ monthDays (index + 1) := daysInMonth_pos _ _
  have hnext := monthStart_succ index
  unfold boundaryDay
  omega

theorem boundaryDay_lt_iff (hday : 1 ≤ day) {i j : Int} :
    boundaryDay day i < boundaryDay day j ↔ i < j :=
  (strictMono_int_of_lt_succ (boundaryDay_lt_succ hday)).lt_iff_lt

namespace Date

variable {d p q : Date}

theorem IsBoundary.dayNumber_eq (h : p.IsBoundary day) :
    p.dayNumber = boundaryDay day p.monthIndex := by
  rw [Date.dayNumber_eq, h, boundaryDay]

/-- The month in which the monthly period of a date begins. -/
def periodMonth (day : Int) (d : Date) : Int :=
  if boundaryDay day d.monthIndex ≤ d.dayNumber then d.monthIndex else d.monthIndex - 1

/-- The number of monthly periods before a date, its own period in proportion to the days before it. -/
def position (day : Int) (d : Date) : ℚ :=
  d.periodMonth day + (d.dayNumber - boundaryDay day (d.periodMonth day)) /
    (boundaryDay day (d.periodMonth day + 1) - boundaryDay day (d.periodMonth day))

theorem periodMonth_bounds (hday : 1 ≤ day) (d : Date) :
    boundaryDay day (d.periodMonth day) ≤ d.dayNumber ∧
      d.dayNumber < boundaryDay day (d.periodMonth day + 1) := by
  have hfirst := d.day_mem.1
  have hlast := d.day_le
  have hnumber := d.dayNumber_eq
  have hnext := monthStart_succ d.monthIndex
  have hprevious := monthStart_succ (d.monthIndex - 1)
  have hpos : 1 ≤ monthDays (d.monthIndex + 1) := daysInMonth_pos _ _
  rw [sub_add_cancel] at hprevious
  unfold periodMonth
  split
  case isTrue h =>
    refine ⟨h, ?_⟩
    unfold boundaryDay
    omega
  case isFalse h =>
    rw [sub_add_cancel]
    refine ⟨?_, not_le.1 h⟩
    unfold boundaryDay
    omega

theorem periodMonth_eq (hday : 1 ≤ day) (hlow : boundaryDay day index ≤ d.dayNumber)
    (hhigh : d.dayNumber < boundaryDay day (index + 1)) : d.periodMonth day = index := by
  obtain ⟨hle, hlt⟩ := periodMonth_bounds hday d
  have := (boundaryDay_lt_iff hday).1 (hlow.trans_lt hlt)
  have := (boundaryDay_lt_iff hday).1 (hle.trans_lt hhigh)
  omega

theorem position_eq (hp : p.IsBoundary day) (hq : q.IsBoundary day)
    (hmonth : q.monthIndex = p.monthIndex + 1) (hpd : p ≤ d) (hdq : d ≤ q) :
    d.position day = p.monthIndex + (p.daysUntil d / p.daysUntil q : ℚ) := by
  have hday := hp.one_le_day
  have hnext := boundaryDay_lt_succ hday (p.monthIndex + 1)
  have hlen := boundaryDay_lt_succ hday p.monthIndex
  have hp' := hp.dayNumber_eq
  have hq' := hq.dayNumber_eq
  rw [hmonth] at hq'
  rw [← hp', ← hq'] at hlen
  rw [← hq'] at hnext
  rcases hdq.lt_or_eq with hlt | rfl
  · have hmonth' := periodMonth_eq hday (hp' ▸ Date.le_iff.1 hpd) (hq' ▸ Date.lt_iff.1 hlt)
    rw [position, hmonth', ← hp', ← hq', daysUntil, daysUntil]
    push_cast
    rfl
  · have hne : ((p.daysUntil d : Int) : ℚ) ≠ 0 := by
      exact_mod_cast (sub_pos.2 hlen).ne'
    rw [position, periodMonth_eq hday hq'.ge hnext, ← hq', sub_self, zero_div, div_self hne]
    push_cast
    rw [add_zero]

end Date

namespace BillingCycle

variable {start stop finish target p q : Date} {period : BillingPeriod} {c : BillingCycle}
  {cs : List BillingCycle} {x y : ℚ}

/-- The exact number of periods that cycles of a segment count for: for each cycle the share that its
days are of those of its period. -/
inductive CountsFor (start : Date) (day : Int) (period : BillingPeriod) :
    List BillingCycle → ℚ → Prop
  | nil : CountsFor start day period [] 0
  | cons {c : BillingCycle} {cs : List BillingCycle} {p q : Date} {x : ℚ} :
      IsPeriod start day period p q → c.Within p q → CountsFor start day period cs x →
      CountsFor start day period (c :: cs) (c.start.daysUntil c.finish / p.daysUntil q + x)

theorem IsPeriod.monthIndex_eq (h : IsPeriod start day period p q) :
    q.monthIndex = p.monthIndex + period.months := by
  obtain ⟨first, -, k, -, hp, hq⟩ := h
  rw [(Date.boundary_eq_ok_iff.1 hp).1, (Date.boundary_eq_ok_iff.1 hq).1, add_one_mul, add_assoc]

theorem share_eq_position (hperiod : IsPeriod start day .monthly p q) (hc : c.Within p q) :
    (c.start.daysUntil c.finish / p.daysUntil q : ℚ) =
      c.finish.position day - c.start.position day := by
  obtain ⟨hp, hq⟩ := hperiod.isBoundary
  have hmonth := hperiod.monthIndex_eq
  have hdays : c.start.daysUntil c.finish = p.daysUntil c.finish - p.daysUntil c.start := by
    unfold Date.daysUntil
    omega
  rw [Date.position_eq hp hq hmonth hc.start_le (hc.start_lt.le.trans hc.finish_le),
    Date.position_eq hp hq hmonth (hc.start_le.trans hc.start_lt.le) hc.finish_le, hdays]
  push_cast
  ring

theorem countsFor_iff_of_tiles {d : Date} (h : Tiles d cs stop)
    (hcs : ∀ c ∈ cs, ∃ p q, IsPeriod start day .monthly p q ∧ c.Within p q) :
    CountsFor start day .monthly cs x ↔ x = stop.position day - d.position day := by
  -- The induction is on the tiling; the positions between the cycles cancel out.
  induction h generalizing x with
  | nil d =>
    rw [sub_self]
    constructor
    · rintro ⟨⟩
      rfl
    · rintro rfl
      exact .nil
  | @cons c cs stop hlt hrest ih =>
    obtain ⟨⟨p, q, hperiod, hwithin⟩, hcs⟩ := List.forall_mem_cons.1 hcs
    constructor
    · rintro (_ | ⟨hperiod, hwithin, hx⟩)
      rw [share_eq_position hperiod hwithin, (ih hcs).1 hx]
      ring
    · rintro rfl
      have hcons := CountsFor.cons hperiod hwithin ((ih hcs).2 rfl)
      rw [share_eq_position hperiod hwithin] at hcons
      convert hcons using 1
      ring

/-! ## Segments that are due up to their end -/

theorem inAdvance_monthly (hopen : start < stop) (hdue : stop ≤ target)
    (hbefore : ∃ p, p ≤ start ∧ p.IsBoundary day) (hbehind : ∃ q, stop ≤ q ∧ q.IsBoundary day) :
    ∃ cs, inAdvance start (some stop) target day .monthly = .ok cs ∧ Tiles start cs stop := by
  obtain ⟨p, hps, hp⟩ := hbefore
  obtain ⟨q, hsq, hq⟩ := hbehind
  have hstartq := hopen.le.trans hsq
  obtain ⟨first, hfirst⟩ := firstBoundary_isOk hstartq hq
  obtain ⟨⟨hle, hboundary⟩, hleast⟩ := firstBoundary_isLeast hfirst
  have hprevious : start < first → ∃ r, first.boundary (-(1 : Nat)) day = .ok r := by
    intro hlt
    have hpf := (hp.lt_iff hboundary).1 (hps.trans_lt hlt)
    have hlow := p.le_monthIndex
    have hhigh := first.monthIndex_lt
    exact Date.boundary_isOk hp.one_le_day (by omega) (by omega)
  have hreach : Reaches first (some stop) target day 1 := by
    have hfq := Date.monthIndex_le (hleast ⟨hstartq, hq⟩)
    exact ⟨q, ⟨(q.monthIndex - first.monthIndex).toNat, by omega, hq⟩, .inr ⟨stop, rfl, hsq⟩⟩
  obtain ⟨cs, hcs⟩ := inAdvance_isOk (by decide : 0 < BillingPeriod.monthly.months)
    (by rintro f ⟨⟩; exact hopen) (hopen.le.trans hdue) hfirst hprevious hreach
  obtain ⟨stop', htiles, hstop'⟩ := inAdvance_tiles hcs (hopen.le.trans hdue)
  have hiff : ∀ d, start ≤ d → (d < stop' ↔ d < stop) := fun d hd =>
    (hstop' d hd).trans ⟨fun hb => hb.1 stop rfl, fun hlt =>
      ⟨by rintro f ⟨⟩; exact hlt, fun _ _ _ g _ hg => hlt.trans (hdue.trans_lt hg)⟩⟩
  obtain rfl : stop' = stop := le_antisymm
    (not_lt.1 fun hlt => lt_irrefl stop ((hiff stop hopen.le).1 hlt))
    (not_lt.1 fun hlt => lt_irrefl stop' ((hiff stop' htiles.le).2 hlt))
  exact ⟨cs, hcs, htiles⟩

/-- The cycles of a segment that is due up to its end are found, and the exact number of months that
they count for is the difference of the positions of its ends. -/
theorem exists_countsFor_iff (hopen : start < stop) (hdue : stop ≤ target)
    (hbefore : ∃ p, p ≤ start ∧ p.IsBoundary day) (hbehind : ∃ q, stop ≤ q ∧ q.IsBoundary day) :
    ∃ cs, inAdvance start (some stop) target day .monthly = .ok cs ∧
      ∀ x, CountsFor start day .monthly cs x ↔ x = stop.position day - start.position day := by
  obtain ⟨cs, hcs, htiles⟩ := inAdvance_monthly hopen hdue hbefore hbehind
  exact ⟨cs, hcs, fun _ => countsFor_iff_of_tiles htiles (mem_inAdvance hcs)⟩

variable {middle : Date}

/-- A segment that is split at a day counts for exactly as many months as its two parts together, no
matter where the boundaries lie. -/
theorem inAdvance_split (hleft : start < middle) (hright : middle < stop) (hdue : stop ≤ target)
    (hbefore : ∃ p, p ≤ start ∧ p.IsBoundary day) (hbehind : ∃ q, stop ≤ q ∧ q.IsBoundary day) :
    ∃ whole left right x y, inAdvance start (some stop) target day .monthly = .ok whole ∧
      inAdvance start (some middle) target day .monthly = .ok left ∧
      inAdvance middle (some stop) target day .monthly = .ok right ∧
      (∀ z, CountsFor start day .monthly left z ↔ z = x) ∧
      (∀ z, CountsFor middle day .monthly right z ↔ z = y) ∧
      ∀ z, CountsFor start day .monthly whole z ↔ z = x + y := by
  obtain ⟨whole, hwhole, hall⟩ := exists_countsFor_iff (hleft.trans hright) hdue hbefore hbehind
  obtain ⟨left, hleft', hx⟩ := exists_countsFor_iff hleft (hright.le.trans hdue) hbefore
    (hbehind.imp fun q hq => ⟨hright.le.trans hq.1, hq.2⟩)
  obtain ⟨right, hright', hy⟩ := exists_countsFor_iff hright hdue
    (hbefore.imp fun p hp => ⟨hp.1.trans hleft.le, hp.2⟩) hbehind
  refine ⟨whole, left, right, _, _, hwhole, hleft', hright', hx, hy, fun z => ?_⟩
  rw [hall, add_comm, sub_add_sub_cancel]

/-- A segment from the middle of a month on, split in a period that ends with a leap February. -/
theorem inAdvance_split_leap :
    ∃ whole left right x y,
      inAdvance midJanuary (some tenthOfMay) endOfJune 31 .monthly = .ok whole ∧
      inAdvance midJanuary (some tenthOfFebruary) endOfJune 31 .monthly = .ok left ∧
      inAdvance tenthOfFebruary (some tenthOfMay) endOfJune 31 .monthly = .ok right ∧
      CountsFor midJanuary 31 .monthly left x ∧ CountsFor tenthOfFebruary 31 .monthly right y ∧
      CountsFor midJanuary 31 .monthly whole (x + y) := by
  let endOfDecember : Date := (Date.of? 2023 12 31).get rfl
  obtain ⟨whole, left, right, x, y, hwhole, hleft, hright, hx, hy, hall⟩ :=
    inAdvance_split (by decide : midJanuary < tenthOfFebruary)
      (by decide : tenthOfFebruary < tenthOfMay) (by decide : tenthOfMay ≤ endOfJune)
      ⟨endOfDecember, by decide, (by decide : endOfDecember.IsBoundary 31)⟩
      ⟨endOfJune, by decide, (by decide : endOfJune.IsBoundary 31)⟩
  exact ⟨whole, left, right, x, y, hwhole, hleft, hright, (hx x).2 rfl, (hy y).2 rfl,
    (hall (x + y)).2 rfl⟩

end BillingCycle

end Invoicing
