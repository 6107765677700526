import Invoicing.Generation
import Invoicing.Proofs.Run

/-!
# What runs do to their sessions

A run keeps a relation of sessions if it leads from each session to one related to it, whatever it comes
to. For a relation that steps one after the other keep together (`Session.IsFrame`), a run keeps it as
soon as its parts do. So whatever is said of the strategies in force holds of the charges of a proposal
(`Billing.keeps_subscriptionItems`), which do nothing else to a session but mint ids. A relation that
logging and bound fields keep as well (`Session.IsCallFrame`) is kept by a whole call for an invoice
(`Invoicer.keeps_generate`).
-/

namespace Invoicing

/-- Whether a relation of sessions is kept by doing nothing, by steps one after the other, and by
minting. -/
structure Session.IsFrame (I : Session → Session → Prop) : Prop where
  refl : ∀ s, I s s
  trans : ∀ {s₁ s₂ s₃}, I s₁ s₂ → I s₂ s₃ → I s₁ s₃
  mint : ∀ s n, I s { s with minted := n }

theorem Run.context_within {α : Type} (fields : List (Log.Field × String)) (r : Run α) (s : Session) :
    ((Run.within fields r).from_ s).2.context =
      (r.from_ { s with context := (s.context.bind fields).1 }).2.context.restore
        (s.context.bind fields).2 := rfl

/-- Whether a run leads from each session to one that stands to it as `I` says. -/
def Run.Keeps {α : Type} (I : Session → Session → Prop) (r : Run α) : Prop := ∀ s, I s (r.from_ s).2

/-- Whether a relation of sessions is also kept by logging, and by binding fields around what keeps it. -/
structure Session.IsCallFrame (I : Session → Session → Prop) : Prop extends Session.IsFrame I where
  log : ∀ level logger message extra, Run.Keeps I (Run.log level logger message extra)
  within : ∀ {α : Type} (fields : List (Log.Field × String)) {r : Run α}, Run.Keeps I r →
    Run.Keeps I (Run.within fields r)

/-- Whether the strategies of some modes keep a relation of sessions, whatever they are asked. -/
def BillingModes.Keep (I : Session → Session → Prop) (modes : BillingModes) : Prop :=
  ∀ mode strategy, (mode, strategy) ∈ modes → ∀ start finish target day period,
    Run.Keeps I (strategy.cycles start finish target day period)

namespace Run.Keeps

variable {α β : Type} {I : Session → Session → Prop}

theorem bind_of {r : Run α} {f : α → Run β} (htrans : ∀ {s₁ s₂ s₃}, I s₁ s₂ → I s₂ s₃ → I s₁ s₃)
    (hr : Keeps I r) (hf : ∀ a, Keeps I (f a)) : Keeps I (r >>= f) := by
  intro s
  have h := hr s
  cases hrun : r.from_ s with
  | mk x s₁ =>
    rw [hrun] at h
    cases x with
    | error e => rwa [from_bind_error hrun]
    | ok a =>
      rw [from_bind_ok hrun]
      exact htrans h (hf a s₁)

variable (hI : Session.IsFrame I)

include hI

theorem pure (a : α) : Keeps I (Pure.pure a) := fun s => hI.refl s

theorem lift (x : Except Fault α) : Keeps I (liftM x : Run α) := fun s => hI.refl s

theorem liftCalendar (x : Except CalendarFault α) : Keeps I (liftM x : Run α) := fun s => hI.refl s

theorem ofExcept (x : Except Fault α) : Keeps I (Run.ofExcept x) := fun s => hI.refl s

theorem throw (f : Fault) : Keeps I (MonadExcept.throw f : Run α) := fun s => hI.refl s

theorem mint : Keeps I Run.mint := fun s => hI.mint s _

theorem mintMany (count : Nat) : Keeps I (Run.mintMany count) := fun s => hI.mint s _

theorem bind {r : Run α} {f : α → Run β} (hr : Keeps I r) (hf : ∀ a, Keeps I (f a)) :
    Keeps I (r >>= f) := bind_of hI.trans hr hf

theorem lift_bind {x : Except Fault α} {f : α → Run β} (hf : ∀ a, x = .ok a → Keeps I (f a)) :
    Keeps I ((liftM x : Run α) >>= f) := by
  cases x with
  | error e => exact fun s => hI.refl s
  | ok a => exact fun s => hf a rfl s

theorem mapM {f : α → Run β} (l : List α) (h : ∀ a ∈ l, Keeps I (f a)) : Keeps I (l.mapM f) := by
  induction l with
  | nil => exact pure hI []
  | cons a l ih =>
    rw [List.mapM_cons]
    refine bind hI (h a (by simp)) fun b => ?_
    exact bind hI (ih fun x hx => h x (by simp [hx])) fun bs => pure hI _

theorem option_mapM {f : α → Run β} (o : Option α) (h : ∀ a, Keeps I (f a)) : Keeps I (o.mapM f) := by
  cases o with
  | none => exact pure hI none
  | some a =>
    change Keeps I (some <$> f a)
    rw [← bind_pure_comp]
    exact bind hI (h a) fun b => pure hI _

theorem forM {f : α → Run Unit} (l : List α) (h : ∀ a ∈ l, Keeps I (f a)) : Keeps I (l.forM f) := by
  induction l with
  | nil => exact pure hI ()
  | cons a l ih =>
    change Keeps I (f a >>= fun _ => l.forM f)
    exact bind hI (h a (by simp)) fun _ => ih fun x hx => h x (by simp [hx])

end Run.Keeps

/-! ## Strategies at the start -/

theorem BillingModes.keep_initial {I : Session → Session → Prop} (hI : Session.IsFrame I)
    (hlog : ∀ extra, (Run.log .error "engines.billing_mode" "billing_mode_invalid_date_sequence"
      extra).Keeps I) : BillingModes.initial.Keep I := by
  intro mode strategy hmem start finish target day period
  obtain ⟨rfl, rfl⟩ : mode = .inAdvance ∧ strategy = .inAdvance := by simpa [initial] using hmem
  unfold Strategy.inAdvance
  dsimp only
  split
  · exact .bind hI (hlog _) fun _ => .throw hI _
  · exact .ofExcept hI _

/-! ## Charges -/

namespace Billing

variable {I : Session → Session → Prop} (hI : Session.IsFrame I) (b : Billing)

include hI

theorem keeps_fixedItem (e : BillingEvent) (start : Date) : (b.fixedItem e start).Keeps I := by
  unfold fixedItem
  split
  · exact .pure hI _
  · split
    · exact .pure hI _
    · refine .bind hI (.lift hI _) fun amount => ?_
      refine .bind hI (.mint hI) fun id => ?_
      exact .bind hI (.lift hI _) fun item => .pure hI _

theorem keeps_cycleItem (rounding : Option RoundingMode) (e : BillingEvent) (rate : Decimal)
    (c : BillingCycle) : (b.cycleItem rounding e rate c).Keeps I := by
  unfold cycleItem
  refine .bind hI (.lift hI _) fun amount => ?_
  exact .bind hI (.mint hI) fun id => .lift hI _

variable {rules : BillingRules} (hmodes : rules.modes.Keep I) (calendar : AccountCalendar)

include hmodes

omit b hI in
theorem keeps_strategy {mode : String} {strategy : Strategy} (h : rules.modes.get mode = .ok strategy)
    (start : Date) (finish : Option Date) (target : Date) (day : Int) (period : BillingPeriod) :
    (strategy.cycles start finish target day period).Keeps I := by
  unfold BillingModes.get at h
  split at h
  case h_1 s hs =>
    obtain rfl := Except.ok.inj h
    obtain ⟨m, -, hm⟩ := Option.bind_eq_some_iff.1 hs
    obtain ⟨before, after, heq, -⟩ := List.lookup_eq_some_iff.1 hm
    exact hmodes m s (by rw [heq]; simp) start finish target day period
  case h_2 => cases h

variable [TimeZones]

theorem keeps_recurringItems (e : BillingEvent) (next : Option BillingEvent) (start : Date) :
    (b.recurringItems rules calendar e next start).Keeps I := by
  unfold recurringItems
  split
  case isTrue => exact .pure hI _
  case isFalse =>
    refine .lift_bind hI fun strategy hget => ?_
    refine .bind hI (.option_mapM hI _ fun n => .lift hI _) fun finish => ?_
    refine .bind hI (keeps_strategy hmodes hget _ _ _ _ _) fun cycles => ?_
    split
    · exact .pure hI _
    · exact .mapM hI _ fun c _ => b.keeps_cycleItem hI _ _ _ c

theorem keeps_eventItems (e : BillingEvent) (next : Option BillingEvent) :
    (b.eventItems rules calendar e next).Keeps I := by
  unfold eventItems
  refine .bind hI (.lift hI _) fun start => ?_
  refine .bind hI (b.keeps_fixedItem hI e start) fun fixed => ?_
  exact .bind hI (b.keeps_recurringItems hI hmodes calendar e next start) fun recurring => .pure hI _

theorem keeps_subscriptionItems (events : List BillingEvent) :
    (b.subscriptionItems rules calendar events).Keeps I := by
  induction events with
  | nil => exact .pure hI []
  | cons e rest ih =>
    unfold subscriptionItems
    refine .bind hI (b.keeps_eventItems hI hmodes calendar e rest.head?) fun items => ?_
    exact .bind hI ih fun charges => .pure hI _

end Billing

/-! ## Proposals and reconciliations -/

section

variable {I : Session → Session → Prop} (hL : Session.IsCallFrame I)

include hL

theorem Run.Keeps.traced {α : Type} (e : Engine) (arguments : List (String × Value)) {call : Run α}
    (h : Keeps I call) : Keeps I (e.traced arguments call) :=
  .bind hL.toIsFrame h fun result => .bind hL.toIsFrame (hL.log _ _ _ _) fun _ => .pure hL.toIsFrame result

theorem BillingRules.keeps_propose [TimeZones] {rules : BillingRules} (hmodes : rules.modes.Keep I)
    (account : Id) (t : Timeline) (target : Date) (currency : Value) (invoice : Option Id) :
    (rules.propose account t target currency invoice).Keeps I := by
  have hI := hL.toIsFrame
  unfold propose
  refine .traced hL _ _ ?_
  unfold Billing.items
  split
  · exact .pure hI _
  · refine .bind hI (.lift hI _) fun b => ?_
    refine .bind hI (.lift hI _) fun calendar => ?_
    refine .bind hI (.mapM hI _ fun x _ => b.keeps_subscriptionItems hI hmodes calendar x.2) fun charges => ?_
    exact .bind hI (hL.log _ _ _ _) fun _ => .pure hI _

theorem keeps_reconcileLedger (ids : Nat → Id) (subscription : Option Id) (l : Ledger) :
    (reconcileLedger ids subscription l).Keeps I := by
  have hI := hL.toIsFrame
  unfold reconcileLedger
  refine .bind hI (.lift hI _) fun d => ?_
  split
  · exact .bind hI (hL.log _ _ _ _) fun _ => .pure hI _
  · exact .pure hI _

theorem keeps_reconcile (existing proposed : List Item) (pinned : List Id) :
    (reconcile existing proposed pinned).Keeps I := by
  have hI := hL.toIsFrame
  unfold reconcile
  refine .traced hL _ _ ?_
  refine .bind hI (.forM hI _ fun _ _ => hL.log _ _ _ _) fun _ => ?_
  refine .bind hI (.lift hI _) fun issued => ?_
  refine .bind hI (.mintMany hI _) fun ids => ?_
  refine .bind hI (.bind hI (.mapM hI _ fun x _ => keeps_reconcileLedger hL ids x.1 x.2) fun ds =>
    .pure hI _) fun difference => ?_
  exact .bind hI (hL.log _ _ _ _) fun _ => .pure hI _

/-! ## Invoices -/

namespace Invoicer

variable (v : Invoicer) (r : InvoiceRequest)

theorem keeps_validate (today target : Date) : (v.validate today target).Keeps I := by
  have hI := hL.toIsFrame
  unfold validate
  refine .bind hI (.liftCalendar hI _) fun months => ?_
  split
  · exact .bind hI (hL.log _ _ _ _) fun _ => .throw hI _
  · exact .pure hI _

theorem keeps_adjust (issued : List Invoice) (target : Date) :
    (adjust issued target).Keeps I := by
  have hI := hL.toIsFrame
  unfold adjust
  dsimp only
  split
  · exact .bind hI (hL.log _ _ _ _) fun _ => .pure hI _
  · exact .pure hI _

variable {v} (hmodes : v.rules.modes.Keep I) [TimeZones]

include hmodes

theorem keeps_build (t : Timeline) (today target : Date) (currency : Currency) (id : Id) :
    (v.build r t today target currency id).Keeps I := by
  have hI := hL.toIsFrame
  unfold build
  refine .bind hI (BillingRules.keeps_propose hL hmodes _ _ _ _ _) fun proposed => ?_
  refine .bind hI (keeps_reconcile hL _ _ _) fun result => ?_
  split
  · exact .bind hI (hL.log _ _ _ _) fun _ => .pure hI _
  · exact .bind hI (hL.log _ _ _ _) fun _ => .pure hI _

theorem keeps_complete (t : Timeline) (today target : Date) (currency : Currency) (id : Id) :
    (v.complete r t today target currency id).Keeps I := by
  have hI := hL.toIsFrame
  unfold complete
  refine hL.within _ (.bind hI (keeps_build hL r hmodes t today target currency id) fun invoice => ?_)
  cases invoice with
  | none => exact .pure hI _
  | some i =>
    refine .bind hI (.lift hI _) fun charged => ?_
    exact .bind hI (hL.log _ _ _ _) fun _ => .pure hI _

theorem keeps_generateFrom (t : Timeline) (currency : Currency) :
    (v.generateFrom r t currency).Keeps I := by
  have hI := hL.toIsFrame
  unfold generateFrom
  split
  · exact .bind hI (hL.log _ _ _ _) fun _ => .pure hI _
  · refine .bind hI (.lift hI _) fun today => ?_
    refine .bind hI (keeps_validate hL v _ _) fun _ => ?_
    refine .bind hI (keeps_adjust hL _ _) fun target => ?_
    exact .bind hI (.mint hI) fun id => keeps_complete hL r hmodes t today target currency id

/-- A call for an invoice keeps what its strategies and all other steps keep. -/
theorem keeps_generate : (v.generate r).Keeps I := by
  have hI := hL.toIsFrame
  unfold generate
  refine .bind hI (.lift hI _) fun currency => hL.within _ (.bind hI (hL.log _ _ _ _) fun _ => ?_)
  split
  · exact .bind hI (hL.log _ _ _ _) fun _ => .pure hI _
  · exact keeps_generateFrom hL r hmodes _ currency

end Invoicer

end

end Invoicing
