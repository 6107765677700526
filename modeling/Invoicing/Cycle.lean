import Invoicing.Event
import Invoicing.Run

/-!
# Billing cycles

A subscription on unchanged terms is billed in cycles that start on its billing-cycle day. `inAdvance`
splits the days of a segment into such cycles, each with the share of a whole period that it covers:
a partial cycle up to the first boundary, whole periods, and a partial one where the segment ends. A
cycle is billed once its first day is reached.
-/

namespace Invoicing

/-- The days from `start` up to `finish`, and the number of periods they count for. -/
structure BillingCycle where
  start : Date
  finish : Date
  count : Decimal
  deriving DecidableEq

namespace BillingCycle

/-- The share of a period that some days are, to the working precision. -/
def share (start finish periodStart periodFinish : Date) : Decimal :=
  Decimal.ratio working (start.daysUntil finish).toNat (periodStart.daysUntil periodFinish).toNat

/-- A cycle that is part of a period. -/
def partOf (start finish periodStart periodFinish : Date) : BillingCycle :=
  ⟨start, finish, share start finish periodStart periodFinish⟩

def whole (start finish : Date) : BillingCycle := ⟨start, finish, .ofInt 1⟩

/-- The first day on or after `start` that is the billing-cycle day of its month. -/
def firstBoundary (start : Date) (day : Int) : Except CalendarFault Date :=
  match alignedDate start.year start.month day with
  | .error e => .error e
  | .ok d => if d < start then start.boundary 1 day else .ok d

/-- The cycles that start `k` periods after the boundary `first` or later, on or before the target and
before the end of the segment. -/
def cyclesFrom (first : Date) (finish : Option Date) (target : Date) (day : Int) (months : Nat)
    (hm : 0 < months) (k : Nat) : Except CalendarFault (List BillingCycle) :=
  match _h : first.boundary (k * months : Nat) day with
  | .error e => .error e
  | .ok start =>
    if target < start ∨ finish.any (· ≤ start) then .ok []
    else
      match first.boundary ((k + 1) * months : Nat) day with
      | .error e => .error e
      | .ok next =>
        match finish.filter (· < next) with
        | some f => .ok [partOf start f start next]
        | none => (cyclesFrom first finish target day months hm (k + 1)).map (whole start next :: ·)
termination_by (120000 - (first.monthIndex + (k * months : Nat))).toNat
decreasing_by
  have h₁ := Date.monthIndex_boundary _h
  have h₂ := start.monthIndex_lt
  have h₃ : (k + 1) * months = k * months + months := Nat.succ_mul k months
  omega

/-- The cycles of the days from `start` on, up to `finish` if there is an end, as far as they are due
on the target date. -/
def inAdvance (start : Date) (finish : Option Date) (target : Date) (day : Int)
    (period : BillingPeriod) : Except Fault (List BillingCycle) :=
  match finish.filter (· < start) with
  | some f => .error (.datesOutOfOrder start f target)
  | none =>
    if hm : 0 < period.months then
      if finish = some start ∨ target < start then .ok []
      else Except.mapError .calendar do
        let first ← firstBoundary start day
        if start < first then
          let previous ← first.boundary (-period.months) day
          match finish.filter (· < first) with
          | some f => return [partOf start f previous first]
          | none =>
            let rest ← cyclesFrom first finish target day period.months hm 0
            return partOf start first previous first :: rest
        else cyclesFrom first finish target day period.months hm 0
    else .error .noBillingPeriod

end BillingCycle

end Invoicing
