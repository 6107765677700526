import Invoicing.Proofs.Proposal.Drafts

/-!
# What is due

`Billing.due` are the drafts of all charges of a timeline up to a target date, computed without a
session. `BillingRules.propose_drafts` shows that a proposal with the strategies at the start makes
just these items. Everything about proposed charges is shown of `due`.
-/

namespace Invoicing

namespace Item

theorem make_issuedAs (kind : ItemKind) (account : Id) (start : Date) (amount : Money)
    (subscription bundle : Option Id) (plan phase : Option String) (finish : Option Date)
    (rate : Option Decimal) (linked invoice : Option Id) (id : Id) (description : String) :
    make kind account start amount subscription bundle plan phase finish rate linked invoice id
      description =
    (make kind account start amount subscription bundle plan phase finish rate linked none
      (.minted 0)
      description).map (·.issuedAs id invoice) := by
  unfold make
  split <;> rfl

end Item

namespace Billing

/-- The fixed charge of an event on its day, if it is due. -/
def fixedDue (b : Billing) (e : BillingEvent) (start : Date) : Except Fault (List Item) :=
  if b.target < start then .ok []
  else
    match e.fixedPrice with
    | none => .ok []
    | some price => do
      let amount ← Money.of (.decimal price) b.currency
      (Item.fixed (.minted 0) b.account e.subscription e.bundle e.plan e.phase start amount
        none).map
        ([·])

/-- The charge of a recurring event for a cycle. -/
def cycleDue (b : Billing) (rounding : Option RoundingMode) (e : BillingEvent) (rate : Decimal)
    (c : BillingCycle) : Except Fault Item := do
  let amount ← b.cycleAmount rounding c.count rate
  Item.recurring (.minted 0) b.account e.subscription e.bundle e.plan e.phase c.start c.finish
    amount
    rate none

section Charges

variable [TimeZones]

/-- The recurring charges due of an event that begins on `start` and lasts up to `next`. -/
def recurringDue (b : Billing) (rounding : Option RoundingMode) (calendar : AccountCalendar)
    (e : BillingEvent) (next : Option BillingEvent) (start : Date) : Except Fault (List Item) :=
  if !e.isRecurring || b.target < start then .ok []
  else do
    let _ ← BillingModes.initial.get e.mode.name
    let finish ← next.mapM fun n => calendar.dateOf n.effective
    let cycles ← BillingCycle.inAdvance start finish b.target e.cycleDay e.period
    match e.recurringPrice with
    | none => .ok []
    | some rate => cycles.mapM (b.cycleDue rounding e rate)

/-- All charges due of an event. -/
def eventDue (b : Billing) (rounding : Option RoundingMode) (calendar : AccountCalendar)
    (e : BillingEvent) (next : Option BillingEvent) : Except Fault (List Item) := do
  let start ← calendar.dateOf e.effective
  let fixed ← b.fixedDue e start
  let recurring ← b.recurringDue rounding calendar e next start
  .ok (fixed ++ recurring)

/-- The charges due of a subscription, event by event. -/
def subscriptionDue (b : Billing) (rounding : Option RoundingMode) (calendar : AccountCalendar) :
    List BillingEvent → Except Fault (List Item)
  | [] => .ok []
  | e :: rest => do
    let items ← b.eventDue rounding calendar e rest.head?
    let others ← b.subscriptionDue rounding calendar rest
    .ok (items ++ others)

/-- The subscriptions of a timeline that are not marked off, with their events. -/
def billed (t : Timeline) : List (Id × List BillingEvent) :=
  t.bySubscription.filter fun s => !t.off.contains s.1

/-- The charges due of all subscriptions of a timeline that are not marked off. -/
def due (b : Billing) (rounding : Option RoundingMode) (t : Timeline) : Except Fault (List Item) :=
  if t.length = 0 then .ok []
  else do
    let b ← b.resolved
    let calendar ← t.accountCalendar
    ((billed t).mapM fun s => b.subscriptionDue rounding calendar s.2).map List.flatten

end Charges

/-! ## Proposals make what is due -/

open Run

variable {b : Billing} {rounding : Option RoundingMode} {calendar : AccountCalendar}
  {e : BillingEvent}

theorem fixedItem_drafts (start : Date) :
    Drafts b.invoice Option.toList (b.fixedItem e start) (b.fixedDue e start) := by
  unfold fixedItem fixedDue
  split
  · exact Drafts.pure_nil (Option.toList_none _)
  cases e.fixedPrice with
  | none => exact Drafts.pure_nil (Option.toList_none _)
  | some price =>
    refine Drafts.quiet_bind (Quiet.lift _) fun amount _ => ?_
    exact Drafts.mint _ _ (fun id => Item.make_issuedAs ..) fun _ => rfl

theorem cycleItem_drafts (rules : BillingRules) (rate : Decimal) (c : BillingCycle) :
    Drafts b.invoice (fun i => [i]) (b.cycleItem rules.rounding e rate c)
      ((b.cycleDue rules.rounding e rate c).map ([·])) := by
  have hplan : (b.cycleDue rules.rounding e rate c).map ([·]) =
      b.cycleAmount rules.rounding c.count rate >>= fun amount =>
        (Item.recurring (.minted 0) b.account e.subscription e.bundle e.plan e.phase c.start
          c.finish
          amount rate none).map ([·]) := by
    unfold cycleDue
    cases b.cycleAmount rules.rounding c.count rate <;> rfl
  rw [hplan]
  refine Drafts.quiet_bind (Quiet.lift _) fun amount _ => ?_
  have h := Drafts.mint (fun i => [i]) (fun i => i)
    (fun id => Item.make_issuedAs .recurring b.account c.start amount (some e.subscription)
      (some e.bundle) (some e.plan) (some e.phase) (some c.finish) (some rate) none b.invoice id "")
    fun _ => rfl
  simp only [bind_pure] at h
  exact h

theorem quiet_cycles (start : Date) (finish : Option Date) (target : Date) (day : Int)
    (period : BillingPeriod) : Quiet (Strategy.inAdvance.cycles start finish target day period)
      (BillingCycle.inAdvance start finish target day period) := by
  unfold Strategy.inAdvance
  dsimp only
  split
  case h_1 s f t h =>
    rw [h]
    exact (Quiet.log _ _ _ _).bind (y := fun _ => .error _) fun _ _ => Quiet.throw _
  case h_2 => exact Quiet.ofExcept _

theorem get_initial {mode : BillingMode} {s : Strategy}
    (h : BillingModes.initial.get mode.name = .ok s) : mode = .inAdvance ∧ s = .inAdvance := by
  cases mode with
  | inAdvance => exact ⟨rfl, (Except.ok.inj h).symm⟩
  | inArrear => cases h

theorem mapM_map_singleton {α β : Type} (f : α → Except Fault β) (l : List α) :
    (l.mapM fun a => (f a).map ([·])).map List.flatten = l.mapM f := by
  induction l with
  | nil => rfl
  | cons a l ih =>
    rw [List.mapM_cons, List.mapM_cons, ← ih]
    cases f a with
    | error _ => rfl
    | ok b => cases l.mapM fun a => (f a).map ([·]) <;> rfl

theorem resolved_parts {b' : Billing} (h : b.resolved = .ok b') :
    b'.invoice = b.invoice ∧ b'.target = b.target := by
  unfold resolved at h
  split at h
  · obtain ⟨c, -, rfl⟩ := map_eq_ok_iff.1 h
    exact ⟨rfl, rfl⟩
  · obtain rfl := Except.ok.inj h
    exact ⟨rfl, rfl⟩

theorem resolved_target {b' : Billing} {target : Date} (h : b.resolved = .ok b') :
    ({ b with target := target } : Billing).resolved = .ok { b' with target := target } := by
  unfold resolved at h ⊢
  split at h
  case isTrue hc =>
    obtain ⟨c, hmake, rfl⟩ := map_eq_ok_iff.1 h
    rw [if_pos hc]
    exact map_eq_ok_iff.2 ⟨c, hmake, rfl⟩
  case isFalse hc =>
    obtain rfl := Except.ok.inj h
    rw [if_neg hc]

theorem resolved_eq {currency : Currency} (hc : b.currency = .currency currency) :
    b.resolved = .ok b := by
  simp [resolved, hc, Value.asText?]

variable [TimeZones]

theorem quiet_dates (next : Option BillingEvent) :
    Quiet (next.mapM fun n => (liftM (calendar.dateOf n.effective) : Run Date))
      (next.mapM fun n => calendar.dateOf n.effective) := by
  cases next with
  | none => exact Quiet.pure none
  | some n =>
    change Quiet (some <$> (liftM (calendar.dateOf n.effective) : Run Date))
      (some <$> calendar.dateOf n.effective)
    rw [← bind_pure_comp, ← bind_pure_comp]
    exact (Quiet.lift _).bind fun _ _ => Quiet.pure _

theorem recurringItems_drafts (next : Option BillingEvent) (start : Date) :
    Drafts b.invoice (fun is => is) (b.recurringItems ⟨rounding, .initial⟩ calendar e next start)
      (b.recurringDue rounding calendar e next start) := by
  unfold recurringItems recurringDue
  split
  · exact Drafts.pure_nil (a := []) rfl
  refine Drafts.quiet_bind (Quiet.lift _) fun strategy hs => ?_
  refine Drafts.quiet_bind (quiet_dates next) fun finish _ => ?_
  rw [(get_initial hs).2]
  refine Drafts.quiet_bind (quiet_cycles _ _ _ _ _) fun cycles _ => ?_
  cases e.recurringPrice with
  | none => exact Drafts.pure_nil (a := []) rfl
  | some rate =>
    have h := Drafts.mapM cycles fun c _ =>
      cycleItem_drafts (b := b) (e := e) ⟨rounding, .initial⟩ rate c
    simpa only [mapM_map_singleton, List.flatMap_singleton'] using h

theorem eventItems_drafts (next : Option BillingEvent) :
    Drafts b.invoice (fun is => is) (b.eventItems ⟨rounding, .initial⟩ calendar e next)
      (b.eventDue rounding calendar e next) := by
  refine Drafts.quiet_bind (Quiet.lift _) fun start _ => ?_
  exact (fixedItem_drafts start).pair (recurringItems_drafts next start) fun _ _ => rfl

theorem subscriptionItems_drafts (b : Billing) (rounding : Option RoundingMode)
    (calendar : AccountCalendar) (events : List BillingEvent) :
    Drafts b.invoice (fun cs => cs.flatMap (·.2))
      (b.subscriptionItems ⟨rounding, .initial⟩ calendar events)
      (b.subscriptionDue rounding calendar events) := by
  induction events with
  | nil => exact Drafts.pure_nil rfl
  | cons e rest ih => exact (eventItems_drafts rest.head?).pair ih fun _ _ => rfl

theorem items_drafts (b : Billing) (t : Timeline) :
    Drafts b.invoice (fun is => is) (b.items ⟨rounding, .initial⟩ t) (b.due rounding t) := by
  unfold items due
  split
  · exact Drafts.pure_nil (a := []) rfl
  refine Drafts.quiet_bind (Quiet.lift _) fun b' hb' => ?_
  refine Drafts.quiet_bind (Quiet.lift _) fun calendar _ => ?_
  rw [← (resolved_parts hb').1]
  have h := Drafts.mapM (billed t) fun s _ =>
    subscriptionItems_drafts b' rounding calendar s.2
  refine h.bind_quiet (g := fun cs => cs.flatten.flatMap (·.2)) (fun cs => ?_) fun cs => ?_
  · exact (Quiet.log _ _ _ _).bind (y := fun _ => .ok _) fun _ _ => Quiet.pure _
  · rw [← List.flatMap_id (L := cs), List.flatMap_assoc]; rfl

end Billing

/-- A proposal with the strategies at the start makes what is due. -/
theorem BillingRules.propose_drafts [TimeZones] (rounding : Option RoundingMode) (account : Id) (t : Timeline)
    (target : Date) (currency : Value) (invoice : Option Id) :
    Run.Drafts invoice (fun is => is)
      (BillingRules.propose ⟨rounding, .initial⟩ account t target currency invoice)
      (Billing.due ⟨account, target, currency, invoice⟩ rounding t) := by
  unfold propose Engine.traced
  refine (Billing.items_drafts _ t).bind_quiet (g := fun is => is) (fun is => ?_) fun _ => rfl
  exact (Run.Quiet.log _ _ _ _).bind (y := fun _ => .ok is) fun _ _ => Run.Quiet.pure is

end Invoicing
