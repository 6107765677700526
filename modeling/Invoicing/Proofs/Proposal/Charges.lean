import Invoicing.Proofs.Cycle.Periods
import Invoicing.Proofs.Proposal.Due
import Invoicing.Proofs.Reconciliation.Revision
import Invoicing.Proofs.Timeline.Groups

/-!
# Charges that are due

Every draft due is a charge of one event, of a subscription for which invoices are made
(`Billing.mem_due`). With prices that are finite and not negative it is fair (`ChargeOf.fair`). A
later target date only adds charges that start after the earlier one (`Billing.due_target`), and
which invoice is made does not count (`Billing.due_invoice`).
-/

namespace Invoicing

namespace Billing

/-- What a draft says as a charge of an event. -/
structure ChargeOf (b : Billing) (rounding : Option RoundingMode) (e : BillingEvent) (i : Item) :
    Prop where
  subscription : i.subscription = some e.subscription
  start_le : i.start ≤ b.target
  amount : (i.kind = .fixed ∧ i.rate = none ∧
      ∃ price ∈ e.fixedPrice, Money.of (.decimal price) b.currency = .ok i.amount) ∨
    i.kind = .recurring ∧ ∃ rate ∈ e.recurringPrice, i.rate = some rate ∧
      ∃ n x, b.cycleAmount rounding (.finite false n x) rate = .ok i.amount

variable {b : Billing} {rounding : Option RoundingMode} {calendar : AccountCalendar}
  {e : BillingEvent} {next : Option BillingEvent} {start : Date} {drafts : List Item} {i : Item}

/-! ## Taking what is due apart -/

theorem mem_fixedDue (rounding : Option RoundingMode) (h : b.fixedDue e start = .ok drafts)
    (hi : i ∈ drafts) :
    i.start = start ∧ i.kind = .fixed ∧ b.ChargeOf rounding e i := by
  unfold fixedDue at h
  split at h
  case isTrue =>
    obtain rfl := Except.ok.inj h
    simp at hi
  case isFalse hdue =>
  cases hprice : e.fixedPrice with
  | none =>
    rw [hprice] at h
    obtain rfl := Except.ok.inj h
    simp at hi
  | some price =>
    rw [hprice] at h
    obtain ⟨amount, hamount, h⟩ := bind_eq_ok_iff.1 h
    obtain ⟨j, hj, rfl⟩ := map_eq_ok_iff.1 h
    obtain rfl := List.mem_singleton.1 hi
    obtain ⟨_, rfl⟩ := Item.make_eq_ok_iff.1 hj
    exact ⟨rfl, rfl, rfl, not_lt.1 hdue, .inl ⟨rfl, rfl, price, hprice, hamount⟩⟩

theorem cycleDue_eq_ok {rate : Decimal} {c : BillingCycle}
    (h : b.cycleDue rounding e rate c = .ok i) :
    i.kind = .recurring ∧ i.subscription = some e.subscription ∧ i.start = c.start ∧
      i.finish = some c.finish ∧ i.rate = some rate ∧
      b.cycleAmount rounding c.count rate = .ok i.amount := by
  obtain ⟨amount, hamount, h⟩ := bind_eq_ok_iff.1 h
  obtain ⟨_, rfl⟩ := Item.make_eq_ok_iff.1 h
  exact ⟨rfl, rfl, rfl, rfl, rfl, hamount⟩

theorem fixedDue_target {target : Date} (ht : target ≤ b.target) (h : b.fixedDue e start = .ok drafts) :
    ({ b with target := target } : Billing).fixedDue e start =
      .ok (drafts.filter (·.start ≤ target)) := by
  have hstart : ∀ i ∈ drafts, i.start = start := fun i hi => (mem_fixedDue none h hi).1
  by_cases hlt : target < start
  · have hnone : drafts.filter (·.start ≤ target) = [] :=
      List.filter_eq_nil_iff.2 fun i hi => by simpa [hstart i hi] using hlt
    rw [hnone, fixedDue, if_pos hlt]
  · have hall : drafts.filter (·.start ≤ target) = drafts :=
      List.filter_eq_self.2 fun i hi => by simpa [hstart i hi] using hlt
    rw [hall, ← h, fixedDue, fixedDue, if_neg hlt, if_neg fun hlt' => hlt (ht.trans_lt hlt')]

section Timelines

variable [TimeZones]

theorem recurringDue_cases (h : b.recurringDue rounding calendar e next start = .ok drafts) :
    (drafts = [] ∧ (e.isRecurring = false ∨ b.target < start ∨ e.recurringPrice = none)) ∨
    e.isRecurring ∧ start ≤ b.target ∧ ∃ finish cycles rate,
      (next.mapM fun n => calendar.dateOf n.effective) = .ok finish ∧
      BillingCycle.inAdvance start finish b.target e.cycleDay e.period = .ok cycles ∧
      e.recurringPrice = some rate ∧ cycles.mapM (b.cycleDue rounding e rate) = .ok drafts := by
  unfold recurringDue at h
  split at h
  case isTrue hout =>
    refine .inl ⟨(Except.ok.inj h).symm, ?_⟩
    simp only [Bool.or_eq_true, Bool.not_eq_true', decide_eq_true_eq] at hout
    exact hout.imp_right .inl
  case isFalse hin =>
  simp only [Bool.or_eq_true, Bool.not_eq_true', decide_eq_true_eq, not_or, Bool.not_eq_false,
    not_lt] at hin
  obtain ⟨strategy, -, h⟩ := bind_eq_ok_iff.1 h
  obtain ⟨finish, hfinish, h⟩ := bind_eq_ok_iff.1 h
  obtain ⟨cycles, hcycles, h⟩ := bind_eq_ok_iff.1 h
  cases hrate : e.recurringPrice with
  | none =>
    rw [hrate] at h
    exact .inl ⟨(Except.ok.inj h).symm, .inr (.inr rfl)⟩
  | some rate =>
    rw [hrate] at h
    exact .inr ⟨hin.1, hin.2, finish, cycles, rate, hfinish, hcycles, rfl, h⟩

theorem start_le_of_mem_recurringDue
    (h : b.recurringDue rounding calendar e next start = .ok drafts)
    (hi : i ∈ drafts) : start ≤ i.start := by
  rcases recurringDue_cases h with ⟨rfl, -⟩ | ⟨-, hdue, finish, cycles, rate, -, hcycles, -, h⟩
  · simp at hi
  obtain ⟨c, hc, hci⟩ := mem_of_mapM h hi
  obtain ⟨stop, htiles, -⟩ := BillingCycle.inAdvance_tiles hcycles hdue
  rw [(cycleDue_eq_ok hci).2.2.1]
  exact htiles.start_le c hc

theorem mem_recurringDue (h : b.recurringDue rounding calendar e next start = .ok drafts)
    (hi : i ∈ drafts) : i.kind = .recurring ∧ b.ChargeOf rounding e i := by
  rcases recurringDue_cases h with ⟨rfl, -⟩ | ⟨-, hdue, finish, cycles, rate, -, hcycles, hrate, h⟩
  · simp at hi
  obtain ⟨c, hc, hci⟩ := mem_of_mapM h hi
  obtain ⟨hk, hs, hstart, -, hr, hamount⟩ := cycleDue_eq_ok hci
  obtain ⟨n, x, hcount⟩ := BillingCycle.count_of_mem hcycles c hc
  refine ⟨hk, hs, ?_, .inr ⟨hk, rate, hrate, hr, n, x, hcount ▸ hamount⟩⟩
  rw [hstart]
  exact BillingCycle.start_le_target hcycles c hc

theorem eventDue_eq_ok (h : b.eventDue rounding calendar e next = .ok drafts) :
    ∃ start fixed recurring, calendar.dateOf e.effective = .ok start ∧
      b.fixedDue e start = .ok fixed ∧
      b.recurringDue rounding calendar e next start = .ok recurring ∧
      drafts = fixed ++ recurring := by
  obtain ⟨start, hstart, h⟩ := bind_eq_ok_iff.1 h
  obtain ⟨fixed, hfixed, h⟩ := bind_eq_ok_iff.1 h
  obtain ⟨recurring, hrecurring, h⟩ := bind_eq_ok_iff.1 h
  exact ⟨start, fixed, recurring, hstart, hfixed, hrecurring, (Except.ok.inj h).symm⟩

theorem subscriptionDue_cons_eq_ok {rest : List BillingEvent}
    (h : b.subscriptionDue rounding calendar (e :: rest) = .ok drafts) :
    ∃ items others, b.eventDue rounding calendar e rest.head? = .ok items ∧
      b.subscriptionDue rounding calendar rest = .ok others ∧ drafts = items ++ others := by
  obtain ⟨items, hitems, h⟩ := bind_eq_ok_iff.1 h
  obtain ⟨others, hothers, h⟩ := bind_eq_ok_iff.1 h
  exact ⟨items, others, hitems, hothers, (Except.ok.inj h).symm⟩

theorem mem_eventDue (h : b.eventDue rounding calendar e next = .ok drafts) (hi : i ∈ drafts) :
    b.ChargeOf rounding e i := by
  obtain ⟨start, fixed, recurring, -, hfixed, hrecurring, rfl⟩ := eventDue_eq_ok h
  rcases List.mem_append.1 hi with hi | hi
  · exact (mem_fixedDue _ hfixed hi).2.2
  · exact (mem_recurringDue hrecurring hi).2

theorem mem_subscriptionDue_event {events : List BillingEvent}
    (h : b.subscriptionDue rounding calendar events = .ok drafts) (hi : i ∈ drafts) :
    ∃ e ∈ events, ∃ next part, b.eventDue rounding calendar e next = .ok part ∧ i ∈ part := by
  induction events generalizing drafts with
  | nil =>
    obtain rfl := Except.ok.inj h
    simp at hi
  | cons e rest ih =>
    obtain ⟨items, others, hitems, hothers, rfl⟩ := subscriptionDue_cons_eq_ok h
    rcases List.mem_append.1 hi with hi | hi
    · exact ⟨e, by simp, rest.head?, items, hitems, hi⟩
    · obtain ⟨e', he', hof⟩ := ih hothers hi
      exact ⟨e', by simp [he'], hof⟩

theorem mem_subscriptionDue {events : List BillingEvent}
    (h : b.subscriptionDue rounding calendar events = .ok drafts) (hi : i ∈ drafts) :
    ∃ e ∈ events, b.ChargeOf rounding e i := by
  obtain ⟨e, he, next, part, hpart, hi⟩ := mem_subscriptionDue_event h hi
  exact ⟨e, he, mem_eventDue hpart hi⟩

theorem due_parts {t : Timeline} (ht : t.length ≠ 0) (h : b.due rounding t = .ok drafts) :
    ∃ b' calendar parts, b.resolved = .ok b' ∧ t.calendar = some calendar ∧
      ((billed t).mapM fun s => b'.subscriptionDue rounding calendar s.2) = .ok parts ∧
      drafts = parts.flatten := by
  rw [due, if_neg ht] at h
  obtain ⟨b', hb', h⟩ := bind_eq_ok_iff.1 h
  obtain ⟨calendar, hcalendar, h⟩ := bind_eq_ok_iff.1 (show (t.accountCalendar >>= _) = _ from h)
  obtain ⟨parts, hparts, rfl⟩ := map_eq_ok_iff.1 h
  refine ⟨b', calendar, parts, hb', ?_, hparts, rfl⟩
  unfold Timeline.accountCalendar at hcalendar
  split at hcalendar
  case h_1 c hc => rw [hc, Except.ok.inj hcalendar]
  case h_2 => simp at hcalendar

theorem due_eq_ok {t : Timeline} {currency : Currency} (hc : b.currency = .currency currency)
    (ht : t.length ≠ 0) (h : b.due rounding t = .ok drafts) : ∃ calendar parts,
      t.calendar = some calendar ∧
      ((billed t).mapM fun s => b.subscriptionDue rounding calendar s.2) = .ok parts ∧
      drafts = parts.flatten := by
  obtain ⟨b', calendar, parts, hb', h⟩ := due_parts ht h
  obtain rfl : b = b' := Except.ok.inj ((resolved_eq hc).symm.trans hb')
  exact ⟨calendar, parts, h⟩

theorem mem_due_event {t : Timeline} (h : b.due rounding t = .ok drafts) (hi : i ∈ drafts) :
    ∃ b' calendar, b.resolved = .ok b' ∧ t.calendar = some calendar ∧
      ∃ e ∈ t.events, e.subscription ∉ t.off ∧
        ∃ next part, b'.eventDue rounding calendar e next = .ok part ∧ i ∈ part := by
  have ht : t.length ≠ 0 := by
    intro hempty
    rw [due, if_pos hempty] at h
    obtain rfl := Except.ok.inj h
    simp at hi
  obtain ⟨b', calendar, parts, hb', hcalendar, hparts, rfl⟩ := due_parts ht h
  obtain ⟨part, hpart, hi⟩ := List.mem_flatten.1 hi
  obtain ⟨s, hs, hdue⟩ := mem_of_mapM hparts hpart
  obtain ⟨hs, hoff⟩ := List.mem_filter.1 hs
  rw [Timeline.bySubscription_eq] at hs
  obtain ⟨id, -, rfl⟩ := List.mem_map.1 hs
  obtain ⟨e, he, hevent⟩ := mem_subscriptionDue_event hdue hi
  obtain ⟨he, hid⟩ := List.mem_filter.1 he
  refine ⟨b', calendar, hb', hcalendar, e, he, ?_, hevent⟩
  rw [show e.subscription = id by simpa using hid]
  simpa using hoff

theorem mem_due {t : Timeline} {currency : Currency} (hc : b.currency = .currency currency)
    (h : b.due rounding t = .ok drafts) (hi : i ∈ drafts) :
    ∃ e ∈ t.events, e.subscription ∉ t.off ∧ b.ChargeOf rounding e i := by
  obtain ⟨b', calendar, hb', -, e, he, hoff, next, part, hpart, hi⟩ := mem_due_event h hi
  obtain rfl : b = b' := Except.ok.inj ((resolved_eq hc).symm.trans hb')
  exact ⟨e, he, hoff, mem_eventDue hpart hi⟩

/-! ## Earlier targets and other invoices -/

variable {target : Date}

theorem recurringDue_target (ht : target ≤ b.target)
    (h : b.recurringDue rounding calendar e next start = .ok drafts) :
    ({ b with target := target } : Billing).recurringDue rounding calendar e next start =
      .ok (drafts.filter (·.start ≤ target)) := by
  by_cases hout : !e.isRecurring || target < start
  · have hnone : drafts.filter (·.start ≤ target) = [] := by
      refine List.filter_eq_nil_iff.2 fun i hi => ?_
      simp only [Bool.or_eq_true, Bool.not_eq_true', decide_eq_true_eq] at hout
      rcases hout with hout | hlt
      · rw [recurringDue, if_pos (by simp [hout])] at h
        cases Except.ok.inj h
        simp at hi
      · simpa using hlt.trans_le (start_le_of_mem_recurringDue h hi)
    rw [hnone, recurringDue, if_pos hout]
  have hout' : ¬ (!e.isRecurring || b.target < start) := by
    simp only [Bool.or_eq_true, Bool.not_eq_true', decide_eq_true_eq] at hout ⊢
    exact fun h' => hout (h'.imp_right ht.trans_lt)
  rw [recurringDue, if_neg hout'] at h
  rw [recurringDue, if_neg hout]
  obtain ⟨strategy, hstrategy, h⟩ := bind_eq_ok_iff.1 h
  obtain ⟨finish, hfinish, h⟩ := bind_eq_ok_iff.1 h
  obtain ⟨cycles, hcycles, h⟩ := bind_eq_ok_iff.1 h
  refine bind_eq_ok_iff.2 ⟨strategy, hstrategy, bind_eq_ok_iff.2 ⟨finish, hfinish,
    bind_eq_ok_iff.2 ⟨_, BillingCycle.inAdvance_target ht hcycles, ?_⟩⟩⟩
  cases hrate : e.recurringPrice with
  | none =>
    rw [hrate] at h
    cases Except.ok.inj h
    rfl
  | some rate =>
    rw [hrate] at h
    -- The cycles up to the earlier target come to the charges that start up to it.
    exact mapM_filter h fun c _ i hi => by rw [(cycleDue_eq_ok hi).2.2.1]

theorem eventDue_target (ht : target ≤ b.target)
    (h : b.eventDue rounding calendar e next = .ok drafts) :
    ({ b with target := target } : Billing).eventDue rounding calendar e next =
      .ok (drafts.filter (·.start ≤ target)) := by
  obtain ⟨start, fixed, recurring, hstart, hfixed, hrecurring, rfl⟩ := eventDue_eq_ok h
  rw [List.filter_append]
  exact bind_eq_ok_iff.2 ⟨start, hstart, bind_eq_ok_iff.2 ⟨_, fixedDue_target ht hfixed,
    bind_eq_ok_iff.2 ⟨_, recurringDue_target ht hrecurring, rfl⟩⟩⟩

theorem subscriptionDue_target (ht : target ≤ b.target) {events : List BillingEvent}
    (h : b.subscriptionDue rounding calendar events = .ok drafts) :
    ({ b with target := target } : Billing).subscriptionDue rounding calendar events =
      .ok (drafts.filter (·.start ≤ target)) := by
  induction events generalizing drafts with
  | nil =>
    cases Except.ok.inj h
    rfl
  | cons e rest ih =>
    obtain ⟨items, others, hitems, hothers, rfl⟩ := subscriptionDue_cons_eq_ok h
    rw [List.filter_append]
    exact bind_eq_ok_iff.2 ⟨_, eventDue_target ht hitems, bind_eq_ok_iff.2 ⟨_, ih hothers, rfl⟩⟩

/-- What is due on an earlier target date are the charges that start up to it. -/
theorem due_target {t : Timeline} (ht : target ≤ b.target) (h : b.due rounding t = .ok drafts) :
    ({ b with target := target } : Billing).due rounding t =
      .ok (drafts.filter (·.start ≤ target)) := by
  by_cases hempty : t.length = 0
  · rw [due, if_pos hempty] at h ⊢
    cases Except.ok.inj h
    rfl
  obtain ⟨b', calendar, parts, hb', hcalendar, hparts, rfl⟩ := due_parts hempty h
  have ht' : target ≤ b'.target := by rwa [(resolved_parts hb').2]
  have hcalendar' : t.accountCalendar = .ok calendar := by
    rw [Timeline.accountCalendar, hcalendar]
  rw [due, if_neg hempty]
  exact bind_eq_ok_iff.2 ⟨_, resolved_target hb', bind_eq_ok_iff.2 ⟨calendar, hcalendar',
    flatten_mapM_filter hparts fun s _ _ hs => subscriptionDue_target ht' hs⟩⟩

theorem subscriptionDue_invoice (v : Option Id) (events : List BillingEvent) :
    ({ b with invoice := v } : Billing).subscriptionDue rounding calendar events =
      b.subscriptionDue rounding calendar events := by
  induction events with
  | nil => rfl
  | cons e rest ih =>
    rw [subscriptionDue, ih]
    rfl

theorem due_invoice (v : Option Id) {t : Timeline} {currency : Currency}
    (hc : b.currency = .currency currency) :
    ({ b with invoice := v } : Billing).due rounding t = b.due rounding t := by
  unfold due
  rw [resolved_eq hc, resolved_eq (b := { b with invoice := v }) hc]
  simp only [bind, Except.bind, subscriptionDue_invoice]

end Timelines

/-! ## Amounts -/

variable {currency : Currency}

theorem of_eq_ok {d : Decimal} {m : Money}
    (h : Money.of (.decimal d) (.currency currency) = .ok m) :
    m = ⟨d, currency⟩ := (Except.ok.inj h).symm

theorem cycleAmount_eq_ok {n : Nat} {x : Int} {rate : Decimal} {m : Money}
    (hc : b.currency = .currency currency) (hf : rate.isFinite)
    (h : b.cycleAmount rounding (.finite false n x) rate = .ok m) :
    m.currency = currency ∧ ∃ k, m.Counts (-currency.places) k ∧ k.natAbs < 10 ^ working.digits ∧
      (0 ≤ rate.toRat → 0 ≤ k) := by
  obtain ⟨exact, hexact, h⟩ := bind_eq_ok_iff.1 h
  obtain ⟨amount, hamount, h⟩ := bind_eq_ok_iff.1 h
  rw [hc] at hamount
  obtain rfl := of_eq_ok hamount
  obtain ⟨hfin, hsign⟩ := Decimal.mul_nonneg hf (mapError_eq_ok_iff.1 hexact)
  unfold Money.round at h
  split at h
  case h_1 => simp at h
  case h_2 mode =>
  obtain ⟨d, hd, rfl⟩ := map_eq_ok_iff.1 h
  obtain ⟨k, hk, hlt, hle⟩ := Decimal.quantize_counts hfin (by decide) (mapError_eq_ok_iff.1 hd)
  exact ⟨rfl, k, hk, hlt, fun hr => hle (hsign hr)⟩

namespace ChargeOf

variable (hof : b.ChargeOf rounding e i) (hc : b.currency = .currency currency)
  (hfixed : ∀ d ∈ e.fixedPrice, d.isFinite) (hrate : ∀ d ∈ e.recurringPrice, d.isFinite)
include hof

theorem kind : i.kind = .fixed ∨ i.kind = .recurring :=
  hof.amount.imp (·.1) (·.1)

theorem isPinned : i.isPinned = false := by
  rcases hof.kind with hk | hk <;> simp [Item.isPinned, hof.subscription, hk, ItemKind.isGenerated]

include hrate in
theorem rate_finite : ∀ d ∈ i.rate, d.isFinite := by
  rcases hof.amount with ⟨-, hr, -⟩ | ⟨-, rate, hrec, hr, -⟩
  · simp [hr]
  · rw [hr]
    rintro d ⟨⟩
    exact hrate rate hrec

include hc hfixed hrate in
theorem amount_finite : i.amount.amount.isFinite := by
  rcases hof.amount with ⟨-, -, price, hprice, ha⟩ | ⟨-, rate, hrec, -, n, x, ha⟩
  · rw [hc] at ha
    rw [of_eq_ok ha]
    exact hfixed price hprice
  · obtain ⟨-, k, hk, -⟩ := cycleAmount_eq_ok hc (hrate rate hrec) ha
    exact hk.isFinite

include hc hfixed hrate in
/-- A charge is fair if its prices are not negative. -/
theorem fair (hfixed' : ∀ d ∈ e.fixedPrice, 0 ≤ d.toRat)
    (hrate' : ∀ d ∈ e.recurringPrice, 0 ≤ d.toRat)
    (h : Nat) : (Charge.proposed h i).Fair currency := by
  have hactive : (Charge.proposed h i).isActive :=
    isActive_proposed hof.isPinned (by rcases hof.kind with hk | hk <;> simp [hk]) h
  have hcomparable : (Charge.proposed h i).Comparable :=
    ⟨hof.amount_finite hc hfixed hrate, fun d hd =>
      Decimal.isSignaling_of_isFinite (hof.rate_finite hrate d hd)⟩
  rcases hof.amount with ⟨hk, -, price, hprice, ha⟩ | ⟨hk, rate, hrec, -, n, x, ha⟩
  · rw [hc] at ha
    have hm := of_eq_ok ha
    refine ⟨hcomparable, ?_, .inl hk, fun _ => ?_, fun hr => ?_⟩
    · exact congrArg Money.currency hm
    · rw [show (Charge.proposed h i).amount = _ from hm]
      exact hfixed' price hprice
    · rw [show i.kind = .recurring from hr] at hk
      simp at hk
  · obtain ⟨hcur, k, hk', hlt, hle⟩ := cycleAmount_eq_ok hc (hrate rate hrec) ha
    obtain ⟨n, rfl⟩ := Int.eq_ofNat_of_zero_le (hle (hrate' rate hrec))
    refine ⟨hcomparable, hcur, .inr hk, fun _ => Charge.toRat_of_counts hk', fun _ =>
      ⟨n, by simpa using hlt, hk', fun hout => ?_⟩⟩
    rw [hactive] at hout
    simp at hout

end ChargeOf

end Billing

end Invoicing
