import Invoicing.Catalog
import Invoicing.Trace

/-!
# Billing-cycle days

When a subscription changes, its billing-cycle day follows from what the catalog aligns the phase with:
the account's own day, the base subscription of the bundle, or the subscription itself. The last two
have the day of month, in UTC, of their first recurring charge. `Catalog.resolve` finds plan and
alignment, `cycleDay` the day.
-/

namespace Invoicing

/-- A change of a subscription: its kind and times, and the names of plans, phases and price list around
it. -/
structure Transition where
  subscription : Id
  bundle : Id
  kind : TransitionType
  effective : Timestamp
  requested : Timestamp
  /-- The start of the subscription. -/
  start : Timestamp
  previousPlan : Option String
  previousPhase : Option String
  nextPlan : Option String
  nextPhase : Option String
  nextPriceList : Option String
  deriving DecidableEq

namespace Transition

def fields (t : Transition) : List (String × Value) :=
  [("subscription_id", .id t.subscription),
   ("bundle_id", .id t.bundle),
   ("transition_type", .member "SubscriptionTransitionType" t.kind.name),
   ("effective_transition_time", .timestamp t.effective),
   ("requested_transition_time", .timestamp t.requested),
   ("subscription_start_date", .timestamp t.start),
   ("previous_plan", .ofText? t.previousPlan),
   ("previous_phase", .ofText? t.previousPhase),
   ("next_plan", .ofText? t.nextPlan),
   ("next_phase", .ofText? t.nextPhase),
   ("next_price_list", .ofText? t.nextPriceList)]

def written (t : Transition) : String :=
  "SubscriptionTransition(" ++
    String.intercalate ", " (t.fields.map fun f => f.1 ++ "=" ++ f.2.written) ++ ")"

/-- A cancellation is judged by what was before, every other change by what comes after. -/
def judgedByPrevious (t : Transition) : Bool := t.kind = .cancel

/-- The names of plan and phase that a change is judged by, if it has both. -/
def planAndPhase? (t : Transition) : Option (String × String) :=
  if t.judgedByPrevious then t.previousPlan.bind fun p => t.previousPhase.map fun q => (p, q)
  else t.nextPlan.bind fun p => t.nextPhase.map fun q => (p, q)

end Transition

/-- Plan and alignment that a change leads to. -/
def Catalog.resolve (c : Catalog) (t : Transition) : Except Fault (Plan × Option BillingAlignment) :=
  match t.planAndPhase? with
  | none =>
    .error (.unusableAlignment "UNRESOLVED" ("transition " ++ t.kind.name ++ " has no " ++
      (if t.judgedByPrevious then "previous" else "next") ++ " plan/phase"))
  | some (planName, phaseName) => do
    let plan ← c.findPlan planName
    let phase ← c.findPhase phaseName
    return (plan, c.alignment? ⟨plan.product, plan.category, phase.period, t.nextPriceList,
      phase.kind⟩)

/-- The day of month, in UTC, of the first recurring charge of a subscription on a plan. -/
def Subscription.chargeDay (s : Subscription) (p : Plan) : Except Fault Int := do
  let t ← p.firstCharge s.start
  let d ← utcDate t
  return d.day

/-- What an unset billing-cycle day is written as. -/
def unsetCycleDay : Int := 0

/-- What stands for a day that could not be found. -/
def noCycleDay : Int := -1

/-- The billing-cycle day that an alignment leads to; an account whose day is not set takes that of the
subscription. -/
def alignedDay (c : Catalog) (bases : BaseSubscriptions) (s : Subscription) (accountDay : Int)
    (plan : Plan) : Option BillingAlignment → Except Fault Int
  | some .account => if accountDay = unsetCycleDay then s.chargeDay plan else .ok accountDay
  | some .bundle => do
    let base ← bases.find s.bundle
    let basePlan ← c.findPlan base.plan
    base.chargeDay basePlan
  | some .subscription => s.chargeDay plan
  | none => .ok noCycleDay

/-- The alignment as errors and warnings name it. -/
def alignmentText (a : Option BillingAlignment) : String :=
  match a with
  | some a => "BillingAlignment." ++ a.name
  | none => "None"

/-- The calculation of billing-cycle days as an engine. -/
def alignmentEngine : Engine :=
  ⟨"billing_alignment", "1.0", "BillingAlignmentResolver.calculate_bcd", ["transition"]⟩

/-- The billing-cycle day of a subscription after a change, on an account with a day of its own. -/
def cycleDay (c : Catalog) (bases : BaseSubscriptions) (s : Subscription) (t : Transition)
    (accountDay : Int) : Run Int :=
  alignmentEngine.traced [("transition", .text t.written)] do
    let (plan, alignment) ← c.resolve t
    let day ← alignedDay c bases s accountDay plan alignment
    let shown := alignmentText alignment
    let subscription := ("subscription_id", Value.text s.id.text)
    if day = noCycleDay then
      Run.log .error "engines.alignment" "billing_alignment_unresolved"
        [subscription, ("alignment", .text shown)]
      throw (.unusableAlignment shown "")
    else
      Run.log .debug "engines.alignment" "billing_cycle_day_resolved"
        [subscription, ("alignment", .ofText? (alignment.map (·.name))), ("bcd", .int day)]
      return day

end Invoicing
