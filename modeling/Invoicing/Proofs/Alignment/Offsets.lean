import Invoicing.Proofs.Alignment.FreeDays

/-!
# Starts written on different clocks

The billing-cycle day of a subscription is taken in UTC, but the phases before the first charge are
counted on the clock that the start is written on. Where they last as many days on both clocks, the day
is the same for both (`cycleDay_restated`); where a month begins on one clock and not yet on the other,
it need not be (`cycleDay_offset`).
-/

namespace Invoicing

/-- Whether two subscriptions differ only in the clock that shows the instant of their start. -/
structure Subscription.Restated (s s' : Subscription) : Prop where
  id_eq : s.id = s'.id
  bundle_eq : s.bundle = s'.bundle
  plan_eq : s.plan = s'.plan
  category_eq : s.category = s'.category
  start_eq : s.start = s'.start ∨
    s.start.Steady ∧ s'.start.Steady ∧ s.start.micros = s'.start.micros

/-- Whether the free phases of every plan last as many days from one date as from another. -/
def Catalog.EvenlyFree (c : Catalog) (d d' : Date) : Prop := ∀ p ∈ c.plans, p.freeDays d = p.freeDays d'

variable {c : Catalog} {bases bases' : BaseSubscriptions} {s s' : Subscription} {p : Plan}

theorem Subscription.Restated.chargeDay_eq (h : s.Restated s')
    (hfree : p.freeDays s.start.date = p.freeDays s'.start.date) : s.chargeDay p = s'.chargeDay p := by
  rcases h.start_eq with hstart | ⟨hs, hs', hmicros⟩
  · rw [chargeDay, chargeDay, hstart]
  · rw [Subscription.chargeDay_eq hs, Subscription.chargeDay_eq hs', hfree, hmicros]

theorem Catalog.mem_of_findPlan {name : String} (h : c.findPlan name = .ok p) : p ∈ c.plans := by
  unfold findPlan at h
  split at h
  case h_1 q hq =>
    obtain rfl := Except.ok.inj h
    exact List.mem_of_find?_eq_some hq
  case h_2 => cases h

theorem find?_rel {α : Type} {R : α → α → Prop} {l l' : List α} {f : α → Bool}
    (h : List.Forall₂ R l l') (hf : ∀ a b, R a b → f a = f b) :
    Option.Rel R (l.find? f) (l'.find? f) := by
  induction h with
  | nil => exact .none
  | @cons a b _ _ hab _ ih =>
    rw [List.find?_cons, List.find?_cons, hf a b hab]
    cases f b with
    | true => exact .some hab
    | false => exact ih

theorem BaseSubscriptions.find_alongside {R : Subscription → Subscription → Prop}
    (h : List.Forall₂ R bases bases') (hR : ∀ b b', R b b' → b.Restated b') (bundle : Id) :
    Alongside R (bases.find bundle) (bases'.find bundle) := by
  have hfound := find?_rel (f := fun b => b.category = .base && b.bundle = bundle)
    (List.forall₂_reverse_iff.2 h) fun b b' hb => by
      rw [(hR b b' hb).category_eq, (hR b b' hb).bundle_eq]
  unfold find
  generalize bases.reverse.find? _ = x at hfound ⊢
  generalize bases'.reverse.find? _ = y at hfound ⊢
  cases hfound with
  | some hb => exact .ok hb
  | none => exact .error _

/-- Whether two lookups have the same base subscriptions, of which some are written on other clocks, and
the free phases of every plan of the catalog last as many days on both clocks. -/
def BaseSubscriptions.Restated (c : Catalog) (bases bases' : BaseSubscriptions) : Prop :=
  List.Forall₂ (fun b b' => b.Restated b' ∧ c.EvenlyFree b.start.date b'.start.date) bases bases'

theorem alignedDay_restated {plan : Plan} (hs : s.Restated s')
    (hfree : c.EvenlyFree s.start.date s'.start.date) (hbases : bases.Restated c bases')
    (hplan : plan ∈ c.plans) (accountDay : Int) (alignment : Option BillingAlignment) :
    alignedDay c bases s accountDay plan alignment =
      alignedDay c bases' s' accountDay plan alignment := by
  have hday := hs.chargeDay_eq (hfree plan hplan)
  unfold alignedDay
  split
  case h_1 => rw [hday]
  case h_2 =>
    rw [hs.bundle_eq]
    refine ((BaseSubscriptions.find_alongside hbases (fun _ _ hb => hb.1) s'.bundle).bind
      fun b b' hb => ?_).eq
    rw [hb.1.plan_eq]
    cases hbase : c.findPlan b'.plan with
    | error e => exact .error e
    | ok basePlan =>
      show Alongside _ (b.chargeDay basePlan) (b'.chargeDay basePlan)
      rw [hb.1.chargeDay_eq (hb.2 basePlan (Catalog.mem_of_findPlan hbase))]
      exact .refl (fun _ => rfl) _
  case h_3 => exact hday
  case h_4 => rfl

theorem Catalog.mem_of_resolve {t : Transition} {r : Plan × Option BillingAlignment}
    (h : c.resolve t = .ok r) : r.1 ∈ c.plans := by
  unfold resolve at h
  split at h
  case h_1 => cases h
  case h_2 =>
    obtain ⟨plan, hplan, h⟩ := bind_eq_ok_iff.1 h
    obtain ⟨phase, -, h⟩ := bind_eq_ok_iff.1 h
    obtain rfl := Except.ok.inj h
    exact mem_of_findPlan hplan

/-- A subscription whose start is written on another clock has the same billing-cycle day, or fails in
the same way, if the free phases of every plan last as many days on both clocks. The same holds for the
base subscriptions. -/
theorem cycleDay_restated (hs : s.Restated s') (hfree : c.EvenlyFree s.start.date s'.start.date)
    (hbases : bases.Restated c bases') (t : Transition) (accountDay : Int) :
    cycleDay c bases s t accountDay = cycleDay c bases' s' t accountDay := by
  unfold cycleDay
  cases hresolve : c.resolve t with
  | error e => rfl
  | ok r =>
    obtain ⟨plan, alignment⟩ := r
    have haligned := alignedDay_restated hs hfree hbases (Catalog.mem_of_resolve hresolve) accountDay
      alignment
    have hlift : (liftM (Except.ok (plan, alignment) : Except Fault _) : Run _) =
        pure (plan, alignment) := rfl
    rw [hs.id_eq, hlift, pure_bind, pure_bind]
    dsimp only
    rw [haligned]

/-! ## A start in the night after a leap day -/

namespace LeapStart

/-- The evening of a leap day, five hours behind UTC. -/
def evening : Timestamp :=
  ⟨⟨(Date.of? 2024 2 29).get rfl, 75600000000, by decide⟩, some (.offset (-18000)), false⟩

/-- The same instant on a clock that shows UTC, where it is March already. -/
def night : Timestamp := .utc ⟨(Date.of? 2024 3 1).get rfl, 7200000000, by decide⟩

/-- A plan that charges nothing for some time, and then a price every month. -/
def phases (trial : Duration) : List PlanPhase :=
  [⟨"trial", .trial, .none, trial, none, none⟩,
    ⟨"evergreen", .evergreen, .monthly, .unlimited, none, some (.finite false 25000 (-2))⟩]

/-- A catalog with a plan that is free for a month. -/
def monthFree : Catalog :=
  ⟨[⟨"standard", "Standard", .base, phases ⟨.months, 1⟩, by decide⟩], [], some .subscription⟩

/-- A catalog with a plan that is free for thirty days. -/
def daysFree : Catalog :=
  ⟨[⟨"standard", "Standard", .base, phases ⟨.days, 30⟩, by decide⟩], [], some .subscription⟩

def subscription : Subscription := ⟨.known 1, .known 2, evening, "standard", .base, rfl⟩

def restated : Subscription := ⟨.known 1, .known 2, night, "standard", .base, rfl⟩

def creation : Transition :=
  ⟨subscription.id, subscription.bundle, .create, subscription.start, subscription.start,
    subscription.start, none, none, some "standard", some "evergreen", none⟩

theorem subscription_restated : subscription.Restated restated :=
  ⟨rfl, rfl, rfl, rfl, .inr ⟨Timestamp.HasOffset.steady ⟨-18000, rfl⟩, Timestamp.steady_utc _, rfl⟩⟩

end LeapStart

open LeapStart

/-- A free month ends on different days, depending on the clock that the start is written on. -/
theorem cycleDay_offset : subscription.Restated restated ∧
    ((cycleDay monthFree [] subscription creation 0).from_ .start).1 = .ok 30 ∧
    ((cycleDay monthFree [] restated creation 0).from_ .start).1 = .ok 1 :=
  ⟨subscription_restated, rfl, rfl⟩

/-- Thirty free days end on one day, whichever clock the start is written on. -/
theorem cycleDay_restated_days :
    cycleDay daysFree [subscription] subscription creation 0 =
        cycleDay daysFree [restated] restated creation 0 ∧
      ((cycleDay daysFree [restated] restated creation 0).from_ .start).1 = .ok 31 := by
  have hfree : daysFree.EvenlyFree subscription.start.date restated.start.date := by
    intro p hp
    have hdays : ∀ phase ∈ p.phases,
        phase.duration.unit = .days ∨ phase.duration.unit = .unlimited := by
      obtain rfl := List.mem_singleton.1 hp
      decide
    have hok : ∀ d ∈ [subscription.start.date, restated.start.date], (p.freeDays d).isOk = true := by
      obtain rfl := List.mem_singleton.1 hp
      decide +kernel
    obtain ⟨m, hm⟩ := isOk_iff.1 (hok subscription.start.date (by simp))
    obtain ⟨n, hn⟩ := isOk_iff.1 (hok restated.start.date (by simp))
    rw [hm, hn, Plan.freeDays_eq_of_days hdays hm hn]
  exact ⟨cycleDay_restated subscription_restated hfree
    (.cons ⟨subscription_restated, hfree⟩ .nil) creation 0, rfl⟩

end Invoicing
