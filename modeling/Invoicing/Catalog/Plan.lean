import Invoicing.Event

/-!
# Plans

A `Plan` offers a product through a sequence of phases, each for a `Duration`; only the last phase may
go on without end. `Plan.firstCharge` is the instant at which a subscriber's free phases are over.
-/

namespace Invoicing

inductive ProductCategory where
  | base | addOn | standalone
  deriving DecidableEq

namespace ProductCategory

def all : List ProductCategory := [base, addOn, standalone]

def name : ProductCategory → String
  | base => "BASE"
  | addOn => "ADD_ON"
  | standalone => "STANDALONE"

def ofName? (s : String) : Option ProductCategory := all.find? (·.name = s)

end ProductCategory

inductive PhaseType where
  | trial | discount | fixedTerm | evergreen
  deriving DecidableEq

namespace PhaseType

def all : List PhaseType := [trial, discount, fixedTerm, evergreen]

def name : PhaseType → String
  | trial => "TRIAL"
  | discount => "DISCOUNT"
  | fixedTerm => "FIXEDTERM"
  | evergreen => "EVERGREEN"

def ofName? (s : String) : Option PhaseType := all.find? (·.name = s)

end PhaseType

inductive DurationUnit where
  | days | months | years
  /-- Without end. -/
  | unlimited
  deriving DecidableEq

namespace DurationUnit

def all : List DurationUnit := [days, months, years, unlimited]

def name : DurationUnit → String
  | days => "DAYS"
  | months => "MONTHS"
  | years => "YEARS"
  | unlimited => "UNLIMITED"

def ofName? (s : String) : Option DurationUnit := all.find? (·.name = s)

end DurationUnit

/-- A number of units of time. -/
structure Duration where
  unit : DurationUnit
  number : Int
  deriving DecidableEq

namespace Duration

def unlimited : Duration := ⟨.unlimited, 0⟩

/-- The same time of day some months later, on a day that the month reached has. -/
def shiftMonths (t : Timestamp) (months : Int) : Except CalendarFault Timestamp :=
  (t.date.addMonths months).map t.onDate

def addTo (d : Duration) (t : Timestamp) : Except Fault Timestamp :=
  match d.unit with
  | .days => (t.move (d.number * 86400000000)).mapError .calendar
  | .months => (shiftMonths t d.number).mapError .calendar
  | .years => (shiftMonths t (d.number * 12)).mapError .calendar
  | .unlimited => .error .unlimitedDuration

end Duration

/-- A stretch of a plan with one price. -/
structure PlanPhase where
  name : String
  kind : PhaseType
  period : BillingPeriod
  duration : Duration
  fixedPrice : Option Decimal
  recurringPrice : Option Decimal
  deriving DecidableEq

/-- What is wrong with a plan made of some phases: that there are none, or that one before the last goes
on without end. -/
def planFault? (name : String) (phases : List PlanPhase) : Option Fault :=
  if phases.isEmpty then some (.planWithoutPhases name)
  else
    (phases.dropLast.find? (·.duration.unit = .unlimited)).map fun p =>
      .unlimitedBeforeLast name p.name

/-- A product as it is offered. -/
structure Plan where
  name : String
  product : String
  category : ProductCategory
  phases : List PlanPhase
  sound : (planFault? name phases).isNone
  deriving DecidableEq

namespace Plan

/-- A plan with these parts, unless something is wrong with its phases. -/
def make (name product : String) (category : ProductCategory) (phases : List PlanPhase) :
    Except Fault Plan :=
  match h : planFault? name phases with
  | some f => .error f
  | none => .ok ⟨name, product, category, phases, by rw [h]; rfl⟩

def findPhase? (p : Plan) (name : String) : Option PlanPhase := p.phases.find? (·.name = name)

/-- Whether a phase has a recurring price other than zero. -/
def charges? (phase : PlanPhase) : Except DecimalSignal Bool :=
  match phase.recurringPrice with
  | none => .ok false
  | some price => (price.equal? .zero).map (!·)

/-- The start of the first phase that charges a recurring price, for phases that begin at `t` and follow
on one another; `none` if no phase does. -/
def firstChargeFrom (t : Timestamp) : List PlanPhase → Except Fault (Option Timestamp)
  | [] => .ok none
  | phase :: rest =>
    match charges? phase with
    | .error s => .error (.decimal s)
    | .ok true => .ok (some t)
    | .ok false =>
      if phase.duration.unit = .unlimited then .ok none
      else
        match phase.duration.addTo t with
        | .error f => .error f
        | .ok next => firstChargeFrom next rest

/-- The instant of the first recurring charge for a subscriber who begins at `start`; `start` itself if
the plan never charges one. -/
def firstCharge (p : Plan) (start : Timestamp) : Except Fault Timestamp :=
  (firstChargeFrom start p.phases).map (·.getD start)

end Plan

end Invoicing
