import Invoicing.Money

/-!
# Billing events

A `BillingEvent` is a change of a subscription that matters for billing: from its instant on, a plan
phase with its prices, its billing period and the day of month that periods start on.
`BillingEvent.make` checks what an event must satisfy.
-/

namespace Invoicing

/-- Length of the periods that a recurring price is charged for. -/
inductive BillingPeriod where
  | monthly | quarterly | biannual | annual | biennial
  /-- No recurring charge. -/
  | none
  deriving DecidableEq

namespace BillingPeriod

def all : List BillingPeriod := [monthly, quarterly, biannual, annual, biennial, none]

def name : BillingPeriod → String
  | monthly => "MONTHLY"
  | quarterly => "QUARTERLY"
  | biannual => "BIANNUAL"
  | annual => "ANNUAL"
  | biennial => "BIENNIAL"
  | none => "NO_BILLING_PERIOD"

def ofName? (s : String) : Option BillingPeriod := all.find? (·.name = s)

def months : BillingPeriod → Nat
  | monthly => 1
  | quarterly => 3
  | biannual => 6
  | annual => 12
  | biennial => 24
  | none => 0

end BillingPeriod

/-- When a period is billed relative to the service it covers. -/
inductive BillingMode where
  | inAdvance | inArrear
  deriving DecidableEq

namespace BillingMode

def all : List BillingMode := [inAdvance, inArrear]

def name : BillingMode → String
  | inAdvance => "IN_ADVANCE"
  | inArrear => "IN_ARREAR"

def ofName? (s : String) : Option BillingMode := all.find? (·.name = s)

end BillingMode

/-- What happened to the subscription. -/
inductive TransitionType where
  | migrateEntitlement | create | migrateBilling | transfer | change | reCreate | cancel | uncancel
  | phase | startBillingDisabled | endBillingDisabled
  deriving DecidableEq

namespace TransitionType

def all : List TransitionType :=
  [migrateEntitlement, create, migrateBilling, transfer, change, reCreate, cancel, uncancel, phase,
   startBillingDisabled, endBillingDisabled]

def name : TransitionType → String
  | migrateEntitlement => "MIGRATE_ENTITLEMENT"
  | create => "CREATE"
  | migrateBilling => "MIGRATE_BILLING"
  | transfer => "TRANSFER"
  | change => "CHANGE"
  | reCreate => "RE_CREATE"
  | cancel => "CANCEL"
  | uncancel => "UNCANCEL"
  | phase => "PHASE"
  | startBillingDisabled => "START_BILLING_DISABLED"
  | endBillingDisabled => "END_BILLING_DISABLED"

def ofName? (s : String) : Option TransitionType := all.find? (·.name = s)

end TransitionType

/-- A metered usage that belongs to a plan phase. -/
structure Usage where
  name : String
  mode : BillingMode
  period : BillingPeriod
  unitType : Option String
  deriving DecidableEq

/-- A change of a subscription that matters for billing. -/
structure BillingEvent where
  subscription : Id
  bundle : Id
  plan : String
  phase : String
  effective : Timestamp
  zone : String
  cycleDay : Int
  period : BillingPeriod
  transition : TransitionType
  fixedPrice : Option Decimal
  recurringPrice : Option Decimal
  mode : BillingMode
  usages : List Usage
  /-- Position among the events of one instant. -/
  ordering : Int
  description : String
  placed : effective.place.isSome
  cycleDay_mem : 1 ≤ cycleDay ∧ cycleDay ≤ 31

def priceOf (field : String) (v : Value) : Except Fault (Option Decimal) :=
  match v with
  | .null => .ok none
  | .decimal d => .ok (some d)
  | _ => .error (.priceNotDecimal field v)

namespace BillingEvent

/-- An event whose prices are given by values. The instant needs a place, the day of month must be one,
and prices must be decimals. -/
def make (subscription bundle : Id) (plan phase : String) (effective : Timestamp) (zone : String)
    (cycleDay : Int) (period : BillingPeriod) (transition : TransitionType)
    (fixedPrice recurringPrice : Value) (mode : BillingMode) (usages : List Usage) (ordering : Int)
    (description : String) : Except Fault BillingEvent :=
  if placed : effective.place.isSome then
    if mem : 1 ≤ cycleDay ∧ cycleDay ≤ 31 then do
      let fixed ← priceOf "fixed_price" fixedPrice
      let recurring ← priceOf "recurring_price" recurringPrice
      return ⟨subscription, bundle, plan, phase, effective, zone, cycleDay, period, transition, fixed,
        recurring, mode, usages, ordering, description, placed, mem⟩
    else .error (.cycleDayOutOfRange cycleDay)
  else .error .placelessEvent

def localDate [TimeZones] (e : BillingEvent) : Except Fault Date :=
  Invoicing.localDate e.effective e.zone

def isRecurring (e : BillingEvent) : Bool := e.period ≠ .none

/-- Whether two events say the same, their descriptions aside. The parts are compared in turn, and no
further than to the first that differs. -/
def equal? (a b : BillingEvent) : Except DecimalSignal Bool :=
  if a.subscription = b.subscription ∧ a.bundle = b.bundle ∧ a.plan = b.plan ∧ a.phase = b.phase ∧
      a.effective.same b.effective ∧ a.zone = b.zone ∧ a.cycleDay = b.cycleDay ∧
      a.period = b.period ∧ a.transition = b.transition then
    match equalPrices? a.fixedPrice b.fixedPrice with
    | .ok true =>
      match equalPrices? a.recurringPrice b.recurringPrice with
      | .ok true => .ok (a.mode = b.mode ∧ a.usages = b.usages ∧ a.ordering = b.ordering)
      | r => r
    | r => r
  else .ok false

def trace (e : BillingEvent) : Value :=
  .fields
    [("subscription_id", .text e.subscription.text),
     ("transition_type", .text e.transition.name),
     ("plan", .text e.plan),
     ("phase", .text e.phase),
     ("effective_date", .text e.effective.iso),
     ("billing_period", .text e.period.name),
     ("bcd", .int e.cycleDay),
     ("fixed_price", .ofText? (e.fixedPrice.map Decimal.text)),
     ("recurring_price", .ofText? (e.recurringPrice.map Decimal.text))]

end BillingEvent

end Invoicing
