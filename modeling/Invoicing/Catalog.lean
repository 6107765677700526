import Invoicing.Catalog.Plan

/-!
# Catalogs

A `Catalog` holds plans under their names, phases under theirs, and the rules that say what a phase's
billing-cycle day is aligned with. `BaseSubscriptions` knows the base subscription of every bundle.
-/

namespace Invoicing

/-- What a billing-cycle day is aligned with. -/
inductive BillingAlignment where
  | account | bundle | subscription
  deriving DecidableEq

namespace BillingAlignment

def all : List BillingAlignment := [account, bundle, subscription]

def name : BillingAlignment → String
  | account => "ACCOUNT"
  | bundle => "BUNDLE"
  | subscription => "SUBSCRIPTION"

def ofName? (s : String) : Option BillingAlignment := all.find? (·.name = s)

end BillingAlignment

/-- What an alignment is looked up by. -/
structure PhaseSpecifier where
  product : String
  category : ProductCategory
  period : BillingPeriod
  priceList : Option String
  phaseType : PhaseType
  deriving DecidableEq

/-- An alignment for all specifiers that agree with the fields given. -/
structure AlignmentRule where
  alignment : BillingAlignment
  category : Option ProductCategory
  period : Option BillingPeriod
  priceList : Option String
  phaseType : Option PhaseType
  deriving DecidableEq

/-- Whether every field that a rule gives is that of the specifier. -/
def AlignmentRule.matchesWith (r : AlignmentRule) (s : PhaseSpecifier) : Bool :=
  r.category.all (· = s.category) && r.period.all (· = s.period) &&
    r.priceList.all (some · = s.priceList) && r.phaseType.all (· = s.phaseType)

/-- Plans and phases by name, and the rules for alignments. -/
structure Catalog where
  plans : List Plan
  rules : List AlignmentRule
  defaultAlignment : Option BillingAlignment

namespace Catalog

/-- Puts a plan under its name; a name that is there keeps its place. -/
def putPlan (plans : List Plan) (p : Plan) : List Plan :=
  if plans.any (·.name = p.name) then plans.map fun q => if q.name = p.name then p else q
  else plans ++ [p]

/-- A catalog of plans, of one name the last. -/
def ofPlans (plans : List Plan) (rules : List AlignmentRule)
    (defaultAlignment : Option BillingAlignment) : Catalog :=
  ⟨plans.foldl putPlan [], rules, defaultAlignment⟩

def phases (c : Catalog) : List PlanPhase := c.plans.flatMap (·.phases)

def findPlan (c : Catalog) (name : String) : Except Fault Plan :=
  match c.plans.find? (·.name = name) with
  | some p => .ok p
  | none => .error (.notInCatalog "Plan" name)

/-- The phase with a name; of several the last. -/
def findPhase (c : Catalog) (name : String) : Except Fault PlanPhase :=
  match c.phases.reverse.find? (·.name = name) with
  | some p => .ok p
  | none => .error (.notInCatalog "PlanPhase" name)

/-- The alignment of the first rule that matches, or else the default. -/
def alignment? (c : Catalog) (s : PhaseSpecifier) : Option BillingAlignment :=
  match c.rules.find? (·.matchesWith s) with
  | some r => some r.alignment
  | none => c.defaultAlignment

end Catalog

/-- A subscription to a plan. -/
structure Subscription where
  id : Id
  bundle : Id
  start : Timestamp
  plan : String
  category : ProductCategory
  placed : start.place.isSome

/-- A subscription, whose start needs a place. -/
def Subscription.make (id bundle : Id) (start : Timestamp) (plan : String)
    (category : ProductCategory) : Except Fault Subscription :=
  if placed : start.place.isSome then .ok ⟨id, bundle, start, plan, category, placed⟩
  else .error .placelessStart

/-- The subscriptions among which base subscriptions are looked up. -/
abbrev BaseSubscriptions := List Subscription

/-- The base subscription of a bundle; of several the last. -/
def BaseSubscriptions.find (subscriptions : BaseSubscriptions) (bundle : Id) :
    Except Fault Subscription :=
  match subscriptions.reverse.find? fun s => s.category = .base && s.bundle = bundle with
  | some s => .ok s
  | none => .error (.notInCatalog "BaseSubscription" bundle.text)

end Invoicing
