import Invoicing.Proofs.Alignment.FreeDays
import Invoicing.Proofs.Calendar.WholeMonths
import Invoicing.Proofs.Decimal.Sign

/-!
# The end of the free phases

A duration leads from a date to the one so many days on, or to the same day so many months on, the last
one of a shorter month (`Duration.Leads`), and the clock is moved there without fail
(`Duration.addTo_of_leads`). The search for the first charge walks over free phases to the date that their
durations lead to one after another (`Plan.firstChargeFrom_free`), whatever stands behind them. Only the
last phase of a plan goes on without end (`Plan.unit_ne_unlimited`), so the free phases before a charge all
have an end, and a subscriber is first charged at it (`Plan.firstCharge_after_free`).
-/

namespace Invoicing

variable {t u : Timestamp} {a b c : Date} {d : Duration} {ds : List Duration}

/-! ## Moving by durations -/

namespace Duration

/-- Whether a duration leads from one date to another: days to the date so many days on, months and
years to the month so many on, and there to the same day or to the last one of a shorter month. -/
def Leads (d : Duration) (a b : Date) : Prop :=
  match d.unit with
  | .days => b.dayNumber = a.dayNumber + d.number
  | .months => b.monthIndex = a.monthIndex + d.number ∧ b.IsBoundary a.day
  | .years => b.monthIndex = a.monthIndex + d.number * 12 ∧ b.IsBoundary a.day
  | .unlimited => False

/-- Whether durations that follow one another lead from one date to another. -/
inductive LeadThrough : List Duration → Date → Date → Prop
  | nil (a : Date) : LeadThrough [] a a
  | cons {d : Duration} {ds : List Duration} {a b c : Date} (first : d.Leads a b)
      (rest : LeadThrough ds b c) : LeadThrough (d :: ds) a c

theorem shiftMonths_of_leads {months : Int}
    (h : b.monthIndex = t.date.monthIndex + months ∧ b.IsBoundary t.date.day) :
    shiftMonths t months = .ok (t.onDate b) := by
  rw [shiftMonths, Date.addMonths_eq_ok_iff.2 h]
  rfl

theorem move_of_dayNumber {days : Int} (h : b.dayNumber = t.wall.date.dayNumber + days) :
    t.move (days * 86400000000) = .ok ⟨{ t.wall with date := b }, t.place, false⟩ := by
  have hwall : WallTime.ofCount? (t.wall.count + days * 86400000000) = some { t.wall with date := b } := by
    rw [WallTime.ofCount?_add_days, Date.ofDayNumber?_eq_some_iff.2 h, Option.map_some]
  unfold Timestamp.move
  rw [hwall]

theorem addTo_of_leads (h : d.Leads t.date b) :
    ∃ u, d.addTo t = .ok u ∧ u.date = b ∧ u.SameTime t := by
  unfold Leads at h
  unfold addTo
  cases hunit : d.unit with
  | days =>
    rw [hunit] at h
    refine ⟨⟨{ t.wall with date := b }, t.place, false⟩, ?_, rfl, rfl, rfl⟩
    dsimp only
    rw [move_of_dayNumber h]
    rfl
  | months =>
    rw [hunit] at h
    refine ⟨t.onDate b, ?_, rfl, rfl, rfl⟩
    dsimp only
    rw [shiftMonths_of_leads h]
    rfl
  | years =>
    rw [hunit] at h
    refine ⟨t.onDate b, ?_, rfl, rfl, rfl⟩
    dsimp only
    rw [shiftMonths_of_leads h]
    rfl
  | unlimited => rw [hunit] at h; exact h.elim

theorem Leads.unit_ne (h : d.Leads a b) : d.unit ≠ .unlimited := by
  intro hunit
  unfold Leads at h
  rw [hunit] at h
  exact h

theorem le_of_isBoundary {months : Int} (hmonths : 0 ≤ months)
    (h : b.monthIndex = a.monthIndex + months ∧ b.IsBoundary a.day) : a ≤ b := by
  obtain ⟨hindex, hday⟩ := h
  rcases hmonths.lt_or_eq with hpos | rfl
  · exact (Date.lt_of_monthIndex_lt (by omega)).le
  · rw [add_zero] at hindex
    have hsame : a.IsBoundary a.day := by
      unfold Date.IsBoundary
      have := a.day_le
      omega
    exact (hsame.eq hday hindex.symm).le

theorem Leads.le (h : d.Leads a b) (hnumber : 0 ≤ d.number) : a ≤ b := by
  unfold Leads at h
  split at h
  case h_1 => exact Date.le_iff.2 (by omega)
  case h_2 => exact le_of_isBoundary hnumber h
  case h_3 => exact le_of_isBoundary (by omega) h
  case h_4 => exact h.elim

theorem LeadThrough.le (h : LeadThrough ds a c) (hnumber : ∀ d ∈ ds, 0 ≤ d.number) : a ≤ c := by
  induction h with
  | nil => exact le_rfl
  | cons first _ ih =>
    obtain ⟨hd, hds⟩ := List.forall_mem_cons.1 hnumber
    exact (first.le hd).trans (ih hds)

theorem addTo_fails (h : d.unit ≠ .unlimited) :
    FailsOnly (fun f => ∃ cause, f = .calendar cause) (d.addTo t) := by
  unfold addTo
  split
  case h_4 hunit => exact absurd hunit h
  all_goals exact .mapError fun cause => ⟨cause, rfl⟩

end Duration

open Duration

/-! ## Free phases -/

/-- Whether a phase has a recurring price other than zero. -/
def PlanPhase.Charges (phase : PlanPhase) : Prop :=
  ∃ price, phase.recurringPrice = some price ∧ price.isFinite ∧ price.toRat ≠ 0

/-- Whether the recurring price of a phase, if it has one, is a number. -/
def PlanPhase.IsPriced (phase : PlanPhase) : Prop :=
  ∀ price, phase.recurringPrice = some price → price.isFinite

namespace Plan

variable {phase : PlanPhase} {free phases : List PlanPhase}

theorem charges?_of_charges (h : phase.Charges) : charges? phase = .ok true := by
  obtain ⟨price, hprice, hfinite, hvalue⟩ := h
  unfold charges?
  rw [hprice]
  dsimp only
  rw [Decimal.equal?_eq hfinite rfl, Decimal.toRat_zero, decide_eq_false hvalue]
  rfl

theorem charges?_of_not_charges (hpriced : phase.IsPriced) (h : ¬ phase.Charges) :
    charges? phase = .ok false := by
  unfold charges?
  cases hprice : phase.recurringPrice with
  | none => rfl
  | some price =>
    have hfinite := hpriced price hprice
    have hvalue : price.toRat = 0 := by
      by_contra hvalue
      exact h ⟨price, hprice, hfinite, hvalue⟩
    dsimp only
    rw [Decimal.equal?_eq hfinite rfl, Decimal.toRat_zero, decide_eq_true hvalue]
    rfl

/-- The search goes on behind free phases, at the date that their durations lead to. -/
theorem firstChargeFrom_free (hfree : ∀ q ∈ free, q.IsPriced ∧ ¬ q.Charges)
    (h : LeadThrough (free.map (·.duration)) t.date b) :
    ∃ u : Timestamp, u.date = b ∧ u.SameTime t ∧
      ∀ rest, firstChargeFrom t (free ++ rest) = firstChargeFrom u rest := by
  -- on the phases in turn: each of them moves the clock that the next one starts with
  induction free generalizing t with
  | nil =>
    cases h
    exact ⟨t, rfl, ⟨rfl, rfl⟩, fun _ => rfl⟩
  | cons q free ih =>
    obtain ⟨hq, hfree⟩ := List.forall_mem_cons.1 hfree
    cases h with
    | cons first rest =>
    obtain ⟨next, hnext, rfl, hsame⟩ := addTo_of_leads first
    obtain ⟨u, hdate, hu, hsearch⟩ := ih hfree rest
    refine ⟨u, hdate, hu.trans hsame, fun behind => ?_⟩
    rw [List.cons_append, firstChargeFrom, charges?_of_not_charges hq.1 hq.2]
    dsimp only
    rw [if_neg first.unit_ne, hnext]
    exact hsearch behind

theorem firstChargeFrom_charges {rest : List PlanPhase} (h : phase.Charges) :
    firstChargeFrom t (phase :: rest) = .ok (some t) := by
  rw [firstChargeFrom, charges?_of_charges h]

theorem firstChargeFrom_fails (h : ∀ q ∈ phases, q.IsPriced) :
    FailsOnly (fun f => ∃ cause, f = .calendar cause) (firstChargeFrom t phases) := by
  induction phases generalizing t with
  | nil => exact .ok none
  | cons q phases ih =>
    obtain ⟨hq, h⟩ := List.forall_mem_cons.1 h
    unfold firstChargeFrom
    by_cases hcharges : q.Charges
    · rw [charges?_of_charges hcharges]
      exact .ok _
    · rw [charges?_of_not_charges hq hcharges]
      dsimp only
      split
      case isTrue => exact .ok none
      case isFalse hunit =>
      cases hnext : q.duration.addTo t with
      | error f => exact .error (addTo_fails hunit f hnext)
      | ok next => exact ih h

theorem unit_ne_unlimited (p : Plan) (h : phase ∈ p.phases.dropLast) :
    phase.duration.unit ≠ .unlimited := by
  have hsound := p.sound
  unfold planFault? at hsound
  split at hsound
  case isTrue => cases hsound
  case isFalse =>
  rw [Option.isNone_map, Option.isNone_iff_eq_none, List.find?_eq_none] at hsound
  simpa using hsound phase h

/-- The durations of the phases of a plan that have an end. -/
def bounded (p : Plan) : List Duration :=
  (p.phases.filter (·.duration.unit ≠ .unlimited)).map (·.duration)

theorem bounded_cases (p : Plan) :
    p.bounded = p.phases.map (·.duration) ∨
      ∃ last, p.phases = p.phases.dropLast ++ [last] ∧ last.duration.unit = .unlimited ∧
        p.bounded = p.phases.dropLast.map (·.duration) := by
  have hinit : p.phases.dropLast.filter (·.duration.unit ≠ .unlimited) = p.phases.dropLast :=
    List.filter_eq_self.2 fun q hq => decide_eq_true (p.unit_ne_unlimited hq)
  rcases List.eq_nil_or_concat p.phases with hnil | ⟨init, last, hphases⟩
  · exact .inl (by rw [bounded, hnil]; rfl)
  · rw [List.concat_eq_append] at hphases
    have hdrop : p.phases.dropLast = init := by rw [hphases, List.dropLast_concat]
    rw [hdrop] at hinit
    by_cases hunit : last.duration.unit = .unlimited
    · refine .inr ⟨last, by rw [hdrop, ← hphases], hunit, ?_⟩
      rw [bounded, hphases, List.filter_append, hinit, List.dropLast_concat]
      simp [hunit]
    · refine .inl ?_
      rw [bounded, hphases, List.filter_append, hinit]
      simp [hunit]

theorem firstChargeFrom_none (p : Plan) (hpriced : ∀ q ∈ p.phases, q.IsPriced)
    (hfree : ∀ q ∈ p.phases, ¬ q.Charges) (h : LeadThrough p.bounded t.date b) :
    firstChargeFrom t p.phases = .ok none := by
  rcases p.bounded_cases with hall | ⟨last, hphases, hunit, hinit⟩
  · rw [hall] at h
    obtain ⟨u, -, -, hsearch⟩ := firstChargeFrom_free (fun q hq => ⟨hpriced q hq, hfree q hq⟩) h
    rw [← List.append_nil p.phases, hsearch]
    rfl
  · rw [hinit] at h
    have hlast : last ∈ p.phases := by rw [hphases]; simp
    obtain ⟨u, -, -, hsearch⟩ := firstChargeFrom_free (fun q hq =>
      ⟨hpriced q (List.mem_of_mem_dropLast hq), hfree q (List.mem_of_mem_dropLast hq)⟩) h
    rw [hphases, hsearch, firstChargeFrom, charges?_of_not_charges (hpriced last hlast) (hfree last hlast)]
    dsimp only
    rw [if_pos hunit]

/-- A subscriber is first charged when the phases before the first one that charges are over: the clock is
then moved by their durations in turn, to a date in the calendar, and not before the start. Other plans
with the same free phases before a charge charge at the same instant. A plan that never charges gives the
start. Without a date in the calendar there is no instant, and nothing else can fail: the phases
before a charge all have an end. -/
theorem firstCharge_after_free (p : Plan) {start : Timestamp} (hstart : start.HasOffset)
    (hpriced : ∀ q ∈ p.phases, q.IsPriced) (hnumber : ∀ q ∈ p.phases, 0 ≤ q.duration.number) :
    FailsOnly (fun f => ∃ cause, f = .calendar cause) (p.firstCharge start) ∧
    (∀ free phase rest, p.phases = free ++ phase :: rest → (∀ q ∈ free, ¬ q.Charges) →
      phase.Charges →
      (∀ q ∈ free, q.duration.unit ≠ .unlimited) ∧
      ∀ finish, LeadThrough (free.map (·.duration)) start.date finish →
        ∃ u : Timestamp, p.firstCharge start = .ok u ∧ u.date = finish ∧ u.SameTime start ∧
          start.micros ≤ u.micros ∧
          ∀ (other : Plan) (phase' : PlanPhase) (rest' : List PlanPhase),
            other.phases = free ++ phase' :: rest' → phase'.Charges →
              other.firstCharge start = .ok u) ∧
    ((∀ q ∈ p.phases, ¬ q.Charges) →
      ∀ finish, LeadThrough p.bounded start.date finish → p.firstCharge start = .ok start) := by
  refine ⟨(firstChargeFrom_fails hpriced).map, ?_, ?_⟩
  · intro free phase rest hphases hfree hcharges
    have hmem : ∀ q ∈ free, q ∈ p.phases := fun q hq => by rw [hphases]; simp [hq]
    refine ⟨fun q hq => p.unit_ne_unlimited ?_, fun finish hlead => ?_⟩
    · rw [hphases, List.dropLast_append_cons]
      exact List.mem_append_left _ hq
    · obtain ⟨u, hdate, hsame, hsearch⟩ :=
        firstChargeFrom_free (fun q hq => ⟨hpriced q (hmem q hq), hfree q hq⟩) hlead
      -- the search comes to the phase with the clock at `u`, and what stands behind it is not looked at
      have hcharge : ∀ (other : Plan) (phase' : PlanPhase) (rest' : List PlanPhase),
          other.phases = free ++ phase' :: rest' → phase'.Charges →
            other.firstCharge start = .ok u := by
        intro other phase' rest' hother hphase'
        rw [firstCharge, hother, hsearch, firstChargeFrom_charges hphase']
        rfl
      have hle : start.date ≤ finish := by
        refine hlead.le fun d hd => ?_
        obtain ⟨q, hq, rfl⟩ := List.mem_map.1 hd
        exact hnumber q (hmem q hq)
      refine ⟨u, hcharge p phase rest hphases hcharges, hdate, hsame, ?_, hcharge⟩
      have hmicros := hsame.micros_eq hstart.steady
      rw [hdate, Date.daysUntil] at hmicros
      have := Date.le_iff.1 hle
      omega
  · intro hfree finish hlead
    rw [firstCharge, p.firstChargeFrom_none hpriced hfree hlead]
    rfl

end Plan

/-! ## A free month from the end of January -/

namespace LongTrial

/-- The evening of 31 January in a leap year, five hours behind UTC. -/
def start : Timestamp :=
  ⟨⟨(Date.of? 2024 1 31).get rfl, 72000000000, by decide⟩, some (.offset (-18000)), false⟩

def free : List PlanPhase :=
  [⟨"trial", .trial, .none, ⟨.months, 1⟩, none, none⟩,
    ⟨"discount", .discount, .monthly, ⟨.days, 30⟩, none, some (.finite false 0 (-2))⟩]

def evergreen : PlanPhase :=
  ⟨"evergreen", .evergreen, .monthly, .unlimited, none, some (.finite false 25000 (-2))⟩

def plan : Plan := ⟨"standard", "Standard", .base, free ++ [evergreen], by decide⟩

end LongTrial

open LongTrial

/-- The month ends on 29 February, the last day there is, and the thirty days from there on 30 March. -/
theorem Plan.firstCharge_after_free_month : ∃ u : Timestamp,
    plan.firstCharge start = .ok u ∧ u.date = (Date.of? 2024 3 30).get rfl ∧ u.SameTime start := by
  have hpriced : ∀ q ∈ plan.phases, q.IsPriced := by
    simp [plan, free, evergreen, PlanPhase.IsPriced, Decimal.isFinite]
  have hfree : ∀ q ∈ free, ¬ q.Charges := by
    simp [free, PlanPhase.Charges, Decimal.toRat]
  have hcharges : evergreen.Charges := ⟨_, rfl, rfl, by norm_num [Decimal.toRat, Decimal.magnitude]⟩
  have hmonth : Leads ⟨.months, 1⟩ start.date ((Date.of? 2024 2 29).get rfl) := ⟨rfl, by decide⟩
  have hdays : Leads ⟨.days, 30⟩ ((Date.of? 2024 2 29).get rfl) ((Date.of? 2024 3 30).get rfl) := rfl
  have hlead : LeadThrough (free.map (·.duration)) start.date ((Date.of? 2024 3 30).get rfl) :=
    .cons hmonth (.cons hdays (.nil _))
  have hstart : start.HasOffset := ⟨-18000, rfl⟩
  obtain ⟨-, hcharge, -⟩ := plan.firstCharge_after_free hstart hpriced (by decide)
  obtain ⟨u, hu, hdate, hsame, -⟩ := (hcharge free evergreen [] rfl hfree hcharges).2 _ hlead
  exact ⟨u, hu, hdate, hsame⟩

end Invoicing
