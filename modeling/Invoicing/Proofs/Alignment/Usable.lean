import Invoicing.Alignment
import Invoicing.Proofs.Run

/-!
# Days that billing events accept

Which billing-cycle days come out, whatever the lookups of a catalog and of base subscriptions answer.
A day of month is one that events accept (`BillingEvent.remake_eq_ok`). A day that is taken from a
subscription is one (`Subscription.chargeDay_mem`), so only the day of an account need not be: it is
handed on as it is (`Lookups.cycleDay_usable`, `cycleDay_unusable`).
-/

namespace Invoicing

variable {s : Subscription} {p : Plan} {t : Transition} {accountDay day : Int} {σ : Session}

/-! ## Lookups of any kind -/

/-- What a catalog and the base subscriptions answer at the instants of one change. -/
structure Lookups where
  plan : String → Except Fault Plan
  phase : String → Except Fault PlanPhase
  alignment : PhaseSpecifier → Except Fault (Option BillingAlignment)
  base : Id → Except Fault Subscription
  /-- The plan that a base subscription is on. -/
  basePlan : Subscription → Except Fault Plan

namespace Lookups

variable (l : Lookups)

/-- Plan and alignment that a change leads to. -/
def resolve (t : Transition) : Except Fault (Plan × Option BillingAlignment) :=
  match t.planAndPhase? with
  | none =>
    .error (.unusableAlignment "UNRESOLVED" ("transition " ++ t.kind.name ++ " has no " ++
      (if t.judgedByPrevious then "previous" else "next") ++ " plan/phase"))
  | some (planName, phaseName) => do
    let plan ← l.plan planName
    let phase ← l.phase phaseName
    let alignment ← l.alignment ⟨plan.product, plan.category, phase.period, t.nextPriceList, phase.kind⟩
    return (plan, alignment)

/-- The billing-cycle day that an alignment leads to. -/
def alignedDay (s : Subscription) (accountDay : Int) (plan : Plan) :
    Option BillingAlignment → Except Fault Int
  | some .account => if accountDay = unsetCycleDay then s.chargeDay plan else .ok accountDay
  | some .bundle => do
    let base ← l.base s.bundle
    let basePlan ← l.basePlan base
    base.chargeDay basePlan
  | some .subscription => s.chargeDay plan
  | none => .ok noCycleDay

/-- The billing-cycle day of a subscription after a change, on an account with a day of its own. -/
def cycleDay (s : Subscription) (t : Transition) (accountDay : Int) : Run Int :=
  alignmentEngine.traced [("transition", .text t.written)] do
    let (plan, alignment) ← l.resolve t
    let day ← l.alignedDay s accountDay plan alignment
    let shown := alignmentText alignment
    let subscription := ("subscription_id", Value.text s.id.text)
    if day = noCycleDay then
      Run.log .error "engines.alignment" "billing_alignment_unresolved"
        [subscription, ("alignment", .text shown)]
      throw (.unusableAlignment shown "")
    else
      Run.log .debug "engines.alignment" "billing_cycle_day_resolved"
        [subscription, ("alignment", .ofText? (alignment.map (·.name))), ("bcd", .int day)]
      return day

end Lookups

/-- The lookups of a catalog and of the base subscriptions that are known. -/
def Catalog.lookups (c : Catalog) (bases : BaseSubscriptions) : Lookups where
  plan := c.findPlan
  phase := c.findPhase
  alignment specifier := .ok (c.alignment? specifier)
  base := bases.find
  basePlan base := c.findPlan base.plan

theorem Catalog.cycleDay_lookups (c : Catalog) (bases : BaseSubscriptions) :
    (c.lookups bases).cycleDay s t accountDay = Invoicing.cycleDay c bases s t accountDay := by
  have hresolve : (c.lookups bases).resolve t = c.resolve t := rfl
  have haligned : ∀ plan alignment, (c.lookups bases).alignedDay s accountDay plan alignment =
      Invoicing.alignedDay c bases s accountDay plan alignment := by
    rintro plan (_ | _ | _ | _) <;> rfl
  unfold Lookups.cycleDay Invoicing.cycleDay
  simp only [hresolve, haligned]

/-! ## Days of a month -/

/-- Whether a number is a day of some month. -/
def IsDayOfMonth (day : Int) : Prop := 1 ≤ day ∧ day ≤ 31

/-- A price as a value; without a price nothing. -/
def Value.ofPrice? (price : Option Decimal) : Value := (price.map .decimal).getD .null

/-- An event made anew, with another day. -/
def BillingEvent.remake (e : BillingEvent) (day : Int) : Except Fault BillingEvent :=
  make e.subscription e.bundle e.plan e.phase e.effective e.zone day e.period e.transition
    (.ofPrice? e.fixedPrice) (.ofPrice? e.recurringPrice) e.mode e.usages e.ordering e.description

namespace BillingEvent

variable (e : BillingEvent)

theorem priceOf_ofPrice? (field : String) (price : Option Decimal) :
    priceOf field (.ofPrice? price) = .ok price := by
  cases price <;> rfl

theorem remake_eq_ok (h : 1 ≤ day ∧ day ≤ 31) :
    e.remake day = .ok { e with cycleDay := day, cycleDay_mem := h } := by
  unfold remake make
  rw [dif_pos e.placed, dif_pos h, priceOf_ofPrice?, priceOf_ofPrice?]
  rfl

theorem remake_eq_error (h : ¬ (1 ≤ day ∧ day ≤ 31)) :
    e.remake day = .error (.cycleDayOutOfRange day) := by
  unfold remake make
  rw [dif_pos e.placed, dif_neg h]

end BillingEvent

theorem Date.isDayOfMonth (d : Date) : IsDayOfMonth d.day :=
  ⟨d.day_mem.1, Int.le_trans d.day_mem.2 (daysInMonth_le _ _)⟩

theorem Subscription.chargeDay_mem (h : s.chargeDay p = .ok day) : IsDayOfMonth day := by
  obtain ⟨_, -, h⟩ := bind_eq_ok_iff.1 h
  obtain ⟨d, -, h⟩ := bind_eq_ok_iff.1 h
  obtain rfl := Except.ok.inj h
  exact d.isDayOfMonth

/-! ## What comes out -/

theorem Run.lift_bind_outcome {α β : Type} (x : Except Fault α) (f : α → Run β) :
    (((liftM x : Run α) >>= f).from_ σ).1 = x >>= fun a => ((f a).from_ σ).1 := by
  cases x <;> rfl

theorem Engine.traced_outcome {α : Type} (e : Engine) (arguments : List (String × Value)) (call : Run α) :
    ((e.traced arguments call).from_ σ).1 = (call.from_ σ).1 := by
  unfold traced
  rw [Run.from_bind]
  rcases call.from_ σ with ⟨_ | a, s'⟩ <;> rfl

namespace Lookups

variable (l : Lookups)

/-- Whether a change leads to an alignment with the account, and its day is set to one that does not
stand for a day that could not be found. -/
def FollowsAccount (t : Transition) (accountDay : Int) : Prop :=
  (∃ plan, l.resolve t = .ok (plan, some .account)) ∧
    accountDay ≠ unsetCycleDay ∧ accountDay ≠ noCycleDay

variable {l}

theorem cycleDay_outcome : ((l.cycleDay s t accountDay).from_ σ).1 = (do
    let (plan, alignment) ← l.resolve t
    let day ← l.alignedDay s accountDay plan alignment
    if day = noCycleDay then .error (.unusableAlignment (alignmentText alignment) "") else .ok day) := by
  unfold cycleDay
  rw [Engine.traced_outcome, Run.lift_bind_outcome]
  refine bind_congr fun ⟨plan, alignment⟩ => ?_
  refine (Run.lift_bind_outcome ..).trans (bind_congr fun day => ?_)
  dsimp only
  split <;> rfl

theorem alignedDay_cases {alignment : Option BillingAlignment}
    (h : l.alignedDay s accountDay p alignment = .ok day) :
    IsDayOfMonth day ∨
      (alignment = some .account ∧ day = accountDay ∧ accountDay ≠ unsetCycleDay) ∨
      (alignment = none ∧ day = noCycleDay) := by
  unfold alignedDay at h
  split at h
  case h_1 =>
    split at h
    case isTrue => exact .inl (Subscription.chargeDay_mem h)
    case isFalse hset => exact .inr (.inl ⟨rfl, (Except.ok.inj h).symm, hset⟩)
  case h_2 =>
    obtain ⟨base, -, h⟩ := bind_eq_ok_iff.1 h
    obtain ⟨basePlan, -, h⟩ := bind_eq_ok_iff.1 h
    exact .inl (Subscription.chargeDay_mem h)
  case h_3 => exact .inl (Subscription.chargeDay_mem h)
  case h_4 => exact .inr (.inr ⟨rfl, (Except.ok.inj h).symm⟩)

theorem cycleDay_cases (h : ((l.cycleDay s t accountDay).from_ σ).1 = .ok day) :
    IsDayOfMonth day ∨ (day = accountDay ∧ l.FollowsAccount t accountDay) := by
  rw [cycleDay_outcome] at h
  obtain ⟨⟨plan, alignment⟩, hresolve, h⟩ := bind_eq_ok_iff.1 h
  obtain ⟨found, hfound, h⟩ := bind_eq_ok_iff.1 h
  split at h
  case isTrue => cases h
  case isFalse hfail =>
  obtain rfl := Except.ok.inj h
  rcases alignedDay_cases hfound with hday | ⟨rfl, rfl, hset⟩ | ⟨-, hnone⟩
  · exact .inl hday
  · exact .inr ⟨rfl, ⟨plan, hresolve⟩, hset, hfail⟩
  · exact absurd hnone hfail

theorem cycleDay_of_followsAccount (h : l.FollowsAccount t accountDay) :
    ((l.cycleDay s t accountDay).from_ σ).1 = .ok accountDay := by
  obtain ⟨⟨plan, hresolve⟩, hset, hfail⟩ := h
  have haligned : l.alignedDay s accountDay plan (some .account) = .ok accountDay := if_neg hset
  rw [cycleDay_outcome, hresolve]
  refine bind_eq_ok_iff.2 ⟨_, rfl, bind_eq_ok_iff.2 ⟨accountDay, haligned, ?_⟩⟩
  exact if_neg hfail

/-- Whatever the lookups answer, every event accepts a day that comes out, unless the change is aligned
with an account whose day is none of a month. This day comes out as it is, and no event accepts it. -/
theorem cycleDay_usable (l : Lookups) (s : Subscription) (t : Transition) (accountDay : Int)
    (σ : Session) :
    (∀ day, ((l.cycleDay s t accountDay).from_ σ).1 = .ok day →
      (l.FollowsAccount t accountDay → IsDayOfMonth accountDay) →
        1 ≤ day ∧ day ≤ 31 ∧ ∀ e : BillingEvent, ∃ e', e.remake day = .ok e' ∧ e'.cycleDay = day) ∧
    (l.FollowsAccount t accountDay → ((l.cycleDay s t accountDay).from_ σ).1 = .ok accountDay ∧
      (¬ IsDayOfMonth accountDay →
        ∀ e : BillingEvent, e.remake accountDay = .error (.cycleDayOutOfRange accountDay))) ∧
    ∀ c bases, Invoicing.cycleDay c bases s t accountDay =
      (c.lookups bases).cycleDay s t accountDay := by
  refine ⟨fun day hday haccount => ?_, fun h => ?_, fun c bases => (c.cycleDay_lookups bases).symm⟩
  · have hmonth : IsDayOfMonth day := by
      rcases cycleDay_cases hday with hmonth | ⟨rfl, hfollows⟩
      · exact hmonth
      · exact haccount hfollows
    exact ⟨hmonth.1, hmonth.2, fun e => ⟨_, e.remake_eq_ok hmonth, rfl⟩⟩
  · exact ⟨cycleDay_of_followsAccount h, fun hmonth e => e.remake_eq_error hmonth⟩

end Lookups

/-! ## An account whose day is none of a month -/

namespace AccountDay

def plan : Plan :=
  ⟨"standard", "Standard", .base,
    [⟨"evergreen", .evergreen, .monthly, .unlimited, none, some (.finite false 25000 (-2))⟩], rfl⟩

/-- A catalog of one plan, with one alignment for all changes. -/
def catalog (alignment : BillingAlignment) : Catalog := ⟨[plan], [], some alignment⟩

def subscription : Subscription :=
  ⟨.known 1, .known 2, .utc ⟨(Date.of? 2023 5 31).get rfl, 39600000000, by decide⟩, "standard", .base, rfl⟩

def creation : Transition :=
  ⟨subscription.id, subscription.bundle, .create, subscription.start, subscription.start,
    subscription.start, none, none, some "standard", some "evergreen", none⟩

end AccountDay

open AccountDay

/-- The day 99 of an account comes out, which no event accepts. -/
theorem cycleDay_unusable :
    ((cycleDay (catalog .account) [] subscription creation 99).from_ .start).1 = .ok 99 ∧
      ∀ e : BillingEvent, e.remake 99 = .error (.cycleDayOutOfRange 99) :=
  ⟨rfl, fun e => e.remake_eq_error (by decide)⟩

/-- A change aligned with the subscription does not take the day 99 of the account. -/
theorem Lookups.cycleDay_usable_subscription :
    ((((catalog .subscription).lookups []).cycleDay subscription creation 99).from_ .start).1 = .ok 31 ∧
      ∀ e : BillingEvent, ∃ e', e.remake 31 = .ok e' ∧ e'.cycleDay = 31 := by
  have hday : ((((catalog .subscription).lookups []).cycleDay subscription creation 99).from_ .start).1 =
    .ok 31 := rfl
  have haccount : ¬ ((catalog .subscription).lookups []).FollowsAccount creation 99 := by
    rintro ⟨⟨_, hresolve⟩, -⟩
    cases hresolve
  exact ⟨hday, ((cycleDay_usable _ _ _ _ _).1 31 hday fun h => (haccount h).elim).2.2⟩

end Invoicing
