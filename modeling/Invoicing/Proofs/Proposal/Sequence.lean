import Invoicing.Proofs.Cycle.Tiling
import Invoicing.Proofs.Failure
import Invoicing.Proofs.Proposal.Due
import Invoicing.Proofs.Timeline.Groups
import Invoicing.Proofs.Timeline.Order

/-!
# Segments in sequence

A segment of a subscription lasts from the day of one event up to the day of the next. A proposal
refuses none of its own items, and besides plain faults it only fails where of two such events the
later one falls on an earlier day (`Billing.due_fails`). Events are kept in the order of their
instants, so this needs a clock that is set back over midnight between the two
(`BillingRules.propose_out_of_order`).
-/

namespace Invoicing

theorem BillingCycle.inAdvance_fails (start : Date) (finish : Option Date) (target : Date)
    (day : Int) (period : BillingPeriod) :
    FailsOnly (fun f => f.IsPlain ∨ ∃ d ∈ finish, d < start ∧ f = .datesOutOfOrder start d target)
      (inAdvance start finish target day period) := by
  unfold inAdvance
  split
  case h_1 d hd =>
    obtain ⟨hd, hlt⟩ := Option.filter_eq_some_iff.1 hd
    exact .error (.inr ⟨d, hd, by simpa using hlt, rfl⟩)
  case h_2 =>
    split
    case isFalse => exact .error (.inl fun h => h)
    case isTrue =>
      split
      case isTrue => exact .ok _
      case isFalse => exact .mapError fun _ => .inl fun h => h

namespace Billing

variable {b : Billing} {rounding : Option RoundingMode} {calendar : AccountCalendar}
  {e : BillingEvent} {start : Date}

theorem fixedDue_plain : FailsOnly Fault.IsPlain (b.fixedDue e start) := by
  unfold fixedDue
  split
  · exact .ok _
  · cases e.fixedPrice with
    | none => exact .ok _
    | some price =>
      exact (Money.of_plain _ _).bind fun amount _ => (Item.fixed_plain start).map

theorem cycleAmount_plain (count rate : Decimal) :
    FailsOnly Fault.IsPlain (b.cycleAmount rounding count rate) := by
  have hmul : FailsOnly Fault.IsPlain ((Decimal.mul working count rate).mapError Fault.decimal) :=
    .mapError fun _ h => h
  exact hmul.bind fun _ _ => (Money.of_plain _ _).bind fun m _ => m.round_plain _

theorem cycleDue_plain {c : BillingCycle} (hc : c.start < c.finish) (rate : Decimal) :
    FailsOnly Fault.IsPlain (b.cycleDue rounding e rate c) :=
  (cycleAmount_plain c.count rate).bind fun _ _ => Item.recurring_plain hc rate

section Timelines

variable [TimeZones]

/-- Whether a fault says that of two events the later one falls on an earlier day. -/
def Back (calendar : AccountCalendar) (target : Date) (e n : BillingEvent) (f : Fault) : Prop :=
  ∃ start finish, calendar.dateOf e.effective = .ok start ∧
    calendar.dateOf n.effective = .ok finish ∧ finish < start ∧
    f = .datesOutOfOrder start finish target

theorem recurringDue_fails (next : Option BillingEvent)
    (hstart : calendar.dateOf e.effective = .ok start) :
    FailsOnly (fun f => f.IsPlain ∨ ∃ n ∈ next, Back calendar b.target e n f)
      (b.recurringDue rounding calendar e next start) := by
  unfold recurringDue
  split
  case isTrue => exact .ok _
  case isFalse hin =>
    have hdue : start ≤ b.target := by
      simp only [Bool.or_eq_true, not_or, decide_eq_true_eq, not_lt] at hin
      exact hin.2
    refine ((BillingModes.get_plain _ _).mono fun f => .inl).bind fun _ _ => ?_
    have hdates : FailsOnly Fault.IsPlain (next.mapM fun n => calendar.dateOf n.effective) := by
      cases next with
      | none => exact .ok _
      | some n => exact (localDate_plain _ _).map
    refine (hdates.mono fun f => .inl).bind fun finish hfinish => ?_
    refine FailsOnly.bind ?_ fun cycles hcycles => ?_
    · refine (BillingCycle.inAdvance_fails _ _ _ _ _).mono fun f hf => hf.imp_right ?_
      rintro ⟨d, hd, hlt, rfl⟩
      cases next with
      | none =>
        obtain rfl : none = finish := Except.ok.inj hfinish
        cases hd
      | some n =>
        obtain ⟨d', hd', rfl⟩ := map_eq_ok_iff.1 hfinish
        obtain rfl := Option.some.inj hd
        exact ⟨n, rfl, start, d', hstart, hd', hlt, rfl⟩
    · obtain ⟨stop, htiles, -⟩ := BillingCycle.inAdvance_tiles hcycles hdue
      cases e.recurringPrice with
      | none => exact .ok _
      | some rate =>
        exact (FailsOnly.mapM fun c hc => cycleDue_plain (htiles.start_lt c hc) rate).mono
          fun f => .inl

theorem eventDue_fails (next : Option BillingEvent) :
    FailsOnly (fun f => f.IsPlain ∨ ∃ n ∈ next, Back calendar b.target e n f)
      (b.eventDue rounding calendar e next) := by
  unfold eventDue
  refine ((localDate_plain _ _).mono fun f => .inl).bind fun start hstart => ?_
  refine (fixedDue_plain.mono fun f => .inl).bind fun fixed _ => ?_
  exact (recurringDue_fails next hstart).bind fun recurring _ => .ok _

theorem subscriptionDue_fails (events : List BillingEvent) :
    FailsOnly (fun f => f.IsPlain ∨ ∃ e n, [e, n] <:+: events ∧ Back calendar b.target e n f)
      (b.subscriptionDue rounding calendar events) := by
  induction events with
  | nil => exact .ok _
  | cons e rest ih =>
    unfold subscriptionDue
    refine FailsOnly.bind ?_ fun items _ => FailsOnly.bind ?_ fun others _ => .ok _
    · refine (eventDue_fails rest.head?).mono fun f hf => hf.imp_right ?_
      rintro ⟨n, hn, hback⟩
      obtain ⟨rest', rfl⟩ : ∃ rest', rest = n :: rest' := by
        cases rest with
        | nil => cases hn
        | cons n' rest' => exact ⟨rest', by rw [Option.some.inj hn]⟩
      exact ⟨e, n, ⟨[], rest', rfl⟩, hback⟩
    · refine ih.mono fun f hf => hf.imp_right ?_
      rintro ⟨a, n, hinfix, hback⟩
      exact ⟨a, n, hinfix.trans (List.suffix_cons e rest).isInfix, hback⟩

theorem due_fails (t : Timeline) :
    FailsOnly (fun f => f.IsPlain ∨ ∃ calendar ∈ t.calendar, ∃ s ∈ billed t,
        ∃ e n, [e, n] <:+: s.2 ∧ Back calendar b.target e n f)
      (b.due rounding t) := by
  unfold due
  split
  case isTrue => exact .ok _
  case isFalse =>
    have hresolved : FailsOnly Fault.IsPlain b.resolved := by
      unfold resolved
      split
      · exact (Currency.make_plain _).map
      · exact .ok _
    refine (hresolved.mono fun f => .inl).bind fun b' hb' => ?_
    unfold Timeline.accountCalendar
    cases hcalendar : t.calendar with
    | none => exact .error (.inl fun h => h)
    | some calendar =>
      refine FailsOnly.map (FailsOnly.mapM fun s hs => ?_)
      refine (subscriptionDue_fails s.2).mono fun f hf => hf.imp_right ?_
      rintro ⟨e, n, hinfix, hback⟩
      exact ⟨calendar, rfl, s, hs, e, n, hinfix, (resolved_parts hb').2 ▸ hback⟩

end Timelines

end Billing

theorem Timeline.rel_of_eventsOf {t : Timeline} {r : BillingEvent → BillingEvent → Prop}
    (h : t.events.Pairwise r) {id : Id} {a b : BillingEvent} (hab : [a, b] <:+: t.eventsOf id) :
    r a b := by
  have hpair := (h.sublist List.filter_sublist).sublist hab.sublist
  exact List.rel_of_pairwise_cons hpair (by simp)

section Timelines

variable [TimeZones]

theorem zone_of_localDate {t : Timestamp} {name : String} {d : Date} (h : localDate t name = .ok d) :
    ∃ z, TimeZones.named? name = some z := by
  unfold localDate at h
  split at h
  · simp at h
  · split at h
    · simp at h
    case h_2 z hz => exact ⟨z, hz⟩

/-- Whether the clocks of the account's zone are set back over midnight after one instant and up to
another. -/
def Timeline.ClockSetBack (t : Timeline) (a b : Timestamp) : Prop :=
  ∃ z, TimeZones.named? t.zone = some z ∧
    z.SetBackBetween (a.micros / 1000000) (b.micros / 1000000)

namespace Timeline.Made

variable {t : Timeline}

theorem dates_back (h : t.Made) (hsteady : t.Steady) {c : AccountCalendar}
    (hc : t.calendar = some c) : t.events.Pairwise fun a b =>
      ∀ d e, c.dateOf a.effective = .ok d → c.dateOf b.effective = .ok e → e < d →
        t.ClockSetBack a.effective b.effective := by
  cases hz : TimeZones.named? t.zone with
  | none =>
    refine List.pairwise_of_forall fun a b d e hd _ _ => ?_
    rw [AccountCalendar.dateOf, h.calendar_zone c hc] at hd
    obtain ⟨z, hz'⟩ := zone_of_localDate hd
    rw [hz] at hz'
    cases hz'
  | some z =>
    refine (h.dates_le hsteady hz hc).imp fun hback d e hd he hlt => ?_
    exact ⟨z, hz, hback d e hd he hlt⟩

end Timeline.Made

namespace BillingRules

variable {t : Timeline} {rounding : Option RoundingMode} {account : Id} {target : Date}
  {currency : Value} {invoice : Option Id} {s : Session}

/-- In the timeline of an account the days go back from one event to a later one only around a change
that sets the account's clocks back over midnight. Only there a proposal can fail because a segment
ends before it starts: it names the days of two events of a subscription that are next to each other,
before the change and after it. -/
theorem propose_out_of_order (hmade : t.Made) (hsteady : t.Steady) :
    (∀ c ∈ t.calendar, t.events.Pairwise fun a b =>
      ∀ d e, c.dateOf a.effective = .ok d → c.dateOf b.effective = .ok e → e < d →
        t.ClockSetBack a.effective b.effective) ∧
    ∀ start finish target',
      ((propose ⟨rounding, .initial⟩ account t target currency invoice).from_ s).1 =
        .error (.datesOutOfOrder start finish target') →
      target' = target ∧ finish < start ∧ ∃ c ∈ t.calendar, ∃ id ∉ t.off, ∃ a b,
        [a, b] <:+: t.eventsOf id ∧ c.dateOf a.effective = .ok start ∧
        c.dateOf b.effective = .ok finish ∧ t.ClockSetBack a.effective b.effective := by
  refine ⟨fun c hc => hmade.dates_back hsteady hc, fun start finish target' h => ?_⟩
  have hdrafts := propose_drafts rounding account t target currency invoice s
  have hdue : Billing.due ⟨account, target, currency, invoice⟩ rounding t =
      .error (.datesOutOfOrder start finish target') := by
    cases hd : Billing.due ⟨account, target, currency, invoice⟩ rounding t with
    | error f =>
      rw [hd] at hdrafts
      obtain ⟨s', hs', -⟩ := hdrafts
      rw [hs'] at h
      exact congrArg Except.error (Except.error.inj h)
    | ok drafts =>
      rw [hd] at hdrafts
      obtain ⟨items, s', hs', -⟩ := hdrafts
      rw [hs'] at h
      cases h
  rcases Billing.due_fails t _ hdue with hplain | ⟨c, hc, p, hp, a, b, hab, hback⟩
  · exact hplain.elim
  · obtain ⟨start', finish', ha, hb, hlt, heq⟩ := hback
    obtain ⟨rfl, rfl, rfl⟩ := Fault.datesOutOfOrder.inj heq
    obtain ⟨hp, hoff⟩ := List.mem_filter.1 hp
    rw [Timeline.bySubscription_eq] at hp
    obtain ⟨id, -, rfl⟩ := List.mem_map.1 hp
    refine ⟨rfl, hlt, c, hc, id, by simpa using hoff, a, b, hab, ha, hb, ?_⟩
    exact Timeline.rel_of_eventsOf (hmade.dates_back hsteady hc) hab start finish ha hb hlt

end BillingRules

end Timelines

/-! ## A night in Newfoundland -/

namespace TimeZones.Newfoundland

/-- The clocks go back from 00:01 to 23:01 on 7 November 2010. -/
def stJohns : Zone where
  name := "America/St_Johns"
  first := -9000
  changes := [⟨86400 * Date.dayNumber ⟨2010, 11, 7, by decide, by decide, by decide⟩ + 9060, -12600⟩]
  ordered := List.pairwise_singleton _ _

scoped instance newfoundland : TimeZones where
  named? name :=
    if name = "UTC" then some .utc
    else if name = "America/St_Johns" then some stJohns
    else none
  utc := rfl

end TimeZones.Newfoundland

namespace BillingRules

open TimeZones.Newfoundland

/-- 7 November 2010, and the day before. -/
def nightDay : Date := ⟨2010, 11, 7, by decide, by decide, by decide⟩

def dayBefore : Date := ⟨2010, 11, 6, by decide, by decide, by decide⟩

/-- A subscription without a price that changes at a second of 7 November 2010 in UTC. -/
def nightEvent (second : Int) (h : 0 ≤ second * 1000000 ∧ second * 1000000 < 86400000000) :
    BillingEvent :=
  { monthlyFrom 1 nightDay none with
    effective := .utc ⟨nightDay, second * 1000000, h⟩
    zone := "America/St_Johns"
    placed := rfl }

/-- Half a minute before and just when the clocks go back from 00:01 to 23:01. -/
def nightEvents : List BillingEvent := [nightEvent 9030 (by decide), nightEvent 9060 (by decide)]

def nightTimeline : Timeline :=
  ((Timeline.empty false .inAdvance "America/St_Johns" []).addAll nightEvents).2

/-- The dates of a fault that says that a segment ends before it starts. -/
def outOfOrder? {α : Type} : Except Fault α → Option (Date × Date × Date)
  | .error (.datesOutOfOrder start finish target) => some (start, finish, target)
  | _ => none

theorem eq_of_outOfOrder? {α : Type} {x : Except Fault α} {start finish target : Date}
    (h : outOfOrder? x = some (start, finish, target)) :
    x = .error (.datesOutOfOrder start finish target) := by
  unfold outOfOrder? at h
  split at h
  · simp only [Option.some.injEq, Prod.mk.injEq] at h
    obtain ⟨rfl, rfl, rfl⟩ := h
    rfl
  · simp at h

theorem mem_nightTimeline {e : BillingEvent} (h : e ∈ nightTimeline.events) : e ∈ nightEvents :=
  Timeline.mem_events_addAll_empty h

theorem nightTimeline_made : nightTimeline.Made := (Timeline.Made.empty ..).addAll _

theorem propose_nightTimeline :
    ((propose ⟨some .halfUp, .initial⟩ (.known 0) nightTimeline nightDay (.currency .usd) none).from_
      .start).1 = .error (.datesOutOfOrder nightDay dayBefore nightDay) :=
  eq_of_outOfOrder? (by decide +kernel)

/-- A timeline with events in UTC can yield a segment that ends before it starts. -/
theorem propose_backward : nightTimeline.Made ∧
    (∀ e ∈ nightTimeline.events, e.effective.place = some .utc) ∧
    ((propose ⟨some .halfUp, .initial⟩ (.known 0) nightTimeline nightDay (.currency .usd) none).from_
      .start).1 = .error (.datesOutOfOrder nightDay dayBefore nightDay) := by
  refine ⟨nightTimeline_made, fun e he => ?_, propose_nightTimeline⟩
  rcases List.mem_pair.1 (mem_nightTimeline he) with rfl | rfl
  · rfl
  · rfl

/-- What fails in that night are the days of two events around the change of the clocks. -/
theorem propose_out_of_order_night : nightTimeline.Made ∧ nightTimeline.Steady ∧
    ∃ c ∈ nightTimeline.calendar, ∃ id ∉ nightTimeline.off, ∃ a b,
      [a, b] <:+: nightTimeline.eventsOf id ∧ c.dateOf a.effective = .ok nightDay ∧
      c.dateOf b.effective = .ok dayBefore ∧
      nightTimeline.ClockSetBack a.effective b.effective := by
  have hsteady : nightTimeline.Steady := fun e he => by
    rcases List.mem_pair.1 (mem_nightTimeline he) with rfl | rfl
    · exact Timestamp.steady_utc _
    · exact Timestamp.steady_utc _
  have hnight := (propose_out_of_order nightTimeline_made hsteady).2 nightDay dayBefore nightDay
    propose_nightTimeline
  exact ⟨nightTimeline_made, hsteady, hnight.2.2⟩

end BillingRules

end Invoicing
