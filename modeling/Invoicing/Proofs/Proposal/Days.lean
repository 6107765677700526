import Invoicing.Proofs.Proposal.Charges
import Invoicing.Proofs.Timeline.Order

/-!
# Days that charges are due for

The recurring charges of an event are for the days of its segment up to the end of the cycle in
progress on the target date, each of them once (`count_eventDue`). Segments of one subscription
follow each other, so a day is in the segment of one event at most, and the charges of a
subscription are for the days that one of its events bills, each once (`count_due`).
-/

namespace Invoicing

/-- Whether some terms are those of a recurring charge for a day. -/
def Terms.serves (d : Date) (t : Terms) : Bool :=
  t.kind = .recurring && t.start ≤ d && t.finish.any (d < ·)

/-- Whether an event that lasts up to another one bills a day by a target date: it is recurring and
has a price, it has begun by then, and the day is one of its segment, before the first period that
starts behind the target date. -/
def BillingEvent.Bills [TimeZones] (calendar : AccountCalendar) (target d : Date) (e : BillingEvent)
    (next : Option BillingEvent) : Prop :=
  e.isRecurring ∧ e.recurringPrice.isSome ∧ ∃ start finish,
    calendar.dateOf e.effective = .ok start ∧
    (next.mapM fun n => calendar.dateOf n.effective) = .ok finish ∧ start ≤ target ∧ start ≤ d ∧
    BillingCycle.Billed start finish target e.cycleDay e.period d

/-- Whether one of some events, each of which lasts up to the next, bills a day. -/
def BillDay [TimeZones] (calendar : AccountCalendar) (target d : Date)
    (events : List BillingEvent) : Prop :=
  ∃ (k : Nat) (e : BillingEvent), events[k]? = some e ∧ e.Bills calendar target d events[k + 1]?

/-- A number that tells whether something holds. -/
def Tells (n : Nat) (p : Prop) : Prop := (p → n = 1) ∧ (¬ p → n = 0)

theorem Tells.le_one {n : Nat} {p : Prop} (h : Tells n p) : n ≤ 1 := by
  by_cases hp : p
  · exact (h.1 hp).le
  · rw [h.2 hp]
    exact Nat.zero_le 1

theorem billDay_cons [TimeZones] {calendar : AccountCalendar} {target d : Date} {e : BillingEvent}
    {rest : List BillingEvent} : BillDay calendar target d (e :: rest) ↔
      e.Bills calendar target d rest.head? ∨ BillDay calendar target d rest := by
  constructor
  · rintro ⟨k, x, hx, hbills⟩
    cases k with
    | zero =>
      obtain rfl : e = x := by simpa using hx
      rw [List.head?_eq_getElem?]
      exact .inl (by simpa using hbills)
    | succ k => exact .inr ⟨k, x, by simpa using hx, by simpa using hbills⟩
  · rintro (hbills | ⟨k, x, hx, hbills⟩)
    · rw [List.head?_eq_getElem?] at hbills
      exact ⟨0, e, rfl, by simpa using hbills⟩
    · exact ⟨k + 1, x, by simpa using hx, by simpa using hbills⟩

namespace Billing

variable {b : Billing} {rounding : Option RoundingMode} {calendar : AccountCalendar}
  {e : BillingEvent} {next : Option BillingEvent} {start d : Date} {drafts : List Item}
  {events : List BillingEvent}

theorem count_fixedDue (h : b.fixedDue e start = .ok drafts) (d : Date) :
    drafts.countP (·.terms.serves d) = 0 := by
  refine List.countP_eq_zero.2 fun i hi => ?_
  have hk : i.terms.kind = .fixed := (mem_fixedDue none h hi).2.1
  simp [Terms.serves, hk]

theorem count_cyclesDue {cycles : List BillingCycle} {rate : Decimal}
    (h : cycles.mapM (b.cycleDue rounding e rate) = .ok drafts) (d : Date) :
    drafts.countP (·.terms.serves d) = cycles.countP (·.holds d) := by
  have hpart := mapM_filter (p := (·.holds d)) (q := (·.terms.serves d)) h fun c _ i hi => by
    obtain ⟨hk, -, hs, hf, -⟩ := cycleDue_eq_ok hi
    have hterms : i.terms.kind = .recurring ∧ i.terms.start = c.start ∧
      i.terms.finish = some c.finish := ⟨hk, hs, hf⟩
    simp [Terms.serves, BillingCycle.holds, hterms]
  rw [List.countP_eq_length_filter, List.countP_eq_length_filter]
  exact (mapM_eq_ok_iff_forall₂.1 hpart).length_eq.symm

variable [TimeZones]

/-- The charges of an event are for the days that it bills, each once. -/
theorem count_eventDue (h : b.eventDue rounding calendar e next = .ok drafts) (d : Date) :
    Tells (drafts.countP (·.terms.serves d)) (e.Bills calendar b.target d next) := by
  obtain ⟨start, fixed, recurring, hstart, hfixed, hrecurring, rfl⟩ := eventDue_eq_ok h
  rw [List.countP_append, count_fixedDue hfixed, Nat.zero_add]
  rcases recurringDue_cases hrecurring with
    ⟨rfl, hout⟩ | ⟨hrec, hdue, finish, cycles, rate, hfinish, hcycles, hrate, hmade⟩
  · refine ⟨?_, fun _ => rfl⟩
    rintro ⟨hrec, hprice, start', finish, hstart', -, hdue, -⟩
    obtain rfl : start = start' := Except.ok.inj (hstart.symm.trans hstart')
    rcases hout with hout | hlt | hout
    · simp [hrec] at hout
    · exact absurd hdue (not_le.2 hlt)
    · simp [hout] at hprice
  · obtain ⟨stop, htiles, hstop⟩ := BillingCycle.inAdvance_tiles hcycles hdue
    rw [count_cyclesDue hmade, htiles.count_eq]
    have hiff : e.Bills calendar b.target d next ↔ start ≤ d ∧ d < stop := by
      constructor
      · rintro ⟨-, -, start', finish', hstart', hfinish', -, hd, hbilled⟩
        obtain rfl : start = start' := Except.ok.inj (hstart.symm.trans hstart')
        obtain rfl : finish = finish' := Except.ok.inj (hfinish.symm.trans hfinish')
        exact ⟨hd, (hstop d hd).2 hbilled⟩
      · rintro ⟨hd, hlt⟩
        exact ⟨hrec, by simp [hrate], start, finish, hstart, hfinish, hdue, hd, (hstop d hd).1 hlt⟩
    rw [hiff]
    exact ⟨fun hin => if_pos hin, fun hout => if_neg hout⟩

/-- Whether events come in the order of their days. -/
def InOrder (calendar : AccountCalendar) (events : List BillingEvent) : Prop :=
  events.Pairwise fun a b =>
    ∀ x y, calendar.dateOf a.effective = .ok x → calendar.dateOf b.effective = .ok y → x ≤ y

theorem not_billDay_of_bills {rest : List BillingEvent} (ho : InOrder calendar (e :: rest))
    (hrest : b.subscriptionDue rounding calendar rest = .ok drafts)
    (h : e.Bills calendar b.target d rest.head?) : ¬ BillDay calendar b.target d rest := by
  rintro ⟨k, x, hx, -, -, start, -, hstart, -, -, hd, -⟩
  obtain ⟨-, -, -, finish, -, hfinish, -, -, hbilled, -⟩ := h
  cases rest with
  | nil => simp at hx
  | cons n rest =>
    -- The day is before that of the next event, and so before that of any later one.
    obtain ⟨items, others, hitems, -, -⟩ := subscriptionDue_cons_eq_ok hrest
    obtain ⟨f, -, -, hf, -⟩ := eventDue_eq_ok hitems
    have hfin : finish = some f := by
      simp only [List.head?_cons, Option.mapM_some, hf] at hfinish
      exact (Except.ok.inj hfinish).symm
    have hdf := hbilled f hfin
    have hfs : f ≤ start := by
      have hn := (List.pairwise_cons.1 (List.pairwise_cons.1 ho).2).1
      rcases List.mem_cons.1 (List.mem_of_getElem? hx) with rfl | hmem
      · exact (Except.ok.inj (hf.symm.trans hstart)).le
      · exact hn x hmem f start hf hstart
    exact absurd (hdf.trans_le hfs) (not_lt.2 hd)

theorem count_subscriptionDue (ho : InOrder calendar events)
    (h : b.subscriptionDue rounding calendar events = .ok drafts) (d : Date) :
    Tells (drafts.countP (·.terms.serves d)) (BillDay calendar b.target d events) := by
  induction events generalizing drafts with
  | nil =>
    obtain rfl := Except.ok.inj h
    exact ⟨fun ⟨k, x, hx, _⟩ => by simp at hx, fun _ => rfl⟩
  | cons e rest ih =>
    obtain ⟨items, others, hitems, hothers, rfl⟩ := subscriptionDue_cons_eq_ok h
    obtain ⟨hone, hnone⟩ := count_eventDue hitems d
    obtain ⟨hone', hnone'⟩ := ih (List.pairwise_cons.1 ho).2 hothers
    rw [List.countP_append, billDay_cons]
    by_cases hbills : e.Bills calendar b.target d rest.head?
    · have hlater := not_billDay_of_bills ho hothers hbills
      rw [hone hbills, hnone' hlater]
      exact ⟨fun _ => rfl, fun h => absurd (.inl hbills) h⟩
    · rw [hnone hbills, Nat.zero_add, or_iff_right hbills]
      exact ⟨hone', hnone'⟩

/-! ## One subscription among all -/

theorem filter_parts {t : Timeline} {ids : List Id} (hn : ids.Nodup) {parts : List (List Item)}
    (h : ids.mapM (fun i => b.subscriptionDue rounding calendar (t.eventsOf i)) = .ok parts)
    (s : Id) :
    (s ∈ ids → b.subscriptionDue rounding calendar (t.eventsOf s) =
      .ok (parts.flatten.filter (·.subscription = some s))) ∧
    (s ∉ ids → parts.flatten.filter (·.subscription = some s) = []) := by
  induction ids generalizing parts with
  | nil =>
    obtain rfl := Except.ok.inj h
    simp
  | cons x ids ih =>
    obtain ⟨part, rest, hpart, hrest, rfl⟩ := mapM_eq_ok_cons.1 h
    obtain ⟨hx, hn⟩ := List.nodup_cons.1 hn
    obtain ⟨hin, hout⟩ := ih hn hrest
    have hof : ∀ i ∈ part, i.subscription = some x := fun i hi => by
      obtain ⟨e, he, hof⟩ := mem_subscriptionDue hpart hi
      rw [hof.subscription, Timeline.mem_eventsOf he]
    rw [List.flatten_cons, List.filter_append]
    by_cases hxs : x = s
    · subst hxs
      rw [hout hx, List.append_nil, List.filter_eq_self.2 fun i hi => by simpa using hof i hi]
      exact ⟨fun _ => hpart, fun hmem => absurd (by simp) hmem⟩
    · rw [List.filter_eq_nil_iff.2 fun i hi => by simpa [hof i hi] using hxs, List.nil_append]
      refine ⟨fun hmem => hin (by simpa [Ne.symm hxs] using hmem), fun hmem => hout fun hs => ?_⟩
      exact hmem (List.mem_cons_of_mem x hs)

theorem filter_due {t : Timeline} {currency : Currency} (hc : b.currency = .currency currency)
    (ht : t.length ≠ 0) (h : b.due rounding t = .ok drafts) {s : Id} (hs : s ∉ t.off) :
    ∃ calendar, t.calendar = some calendar ∧
      b.subscriptionDue rounding calendar (t.eventsOf s) =
        .ok (drafts.filter (·.subscription = some s)) := by
  obtain ⟨calendar, parts, hcalendar, hparts, rfl⟩ := due_eq_ok hc ht h
  refine ⟨calendar, hcalendar, ?_⟩
  have hbilled : billed t = (t.subscriptions.filter fun i => !t.off.contains i).map
      fun i => (i, t.eventsOf i) := by
    rw [billed, Timeline.bySubscription_eq, List.filter_map]
    rfl
  rw [hbilled, List.mapM_map] at hparts
  obtain ⟨hin, hout⟩ := filter_parts (List.filter_sublist.nodup (Timeline.nodup_subscriptions t)) hparts s
  by_cases hmem : s ∈ t.subscriptions
  · exact hin (List.mem_filter.2 ⟨hmem, by simpa using hs⟩)
  · -- There are no events, and no charges.
    rw [hout fun hs => hmem (List.mem_filter.1 hs).1]
    have hnone : t.eventsOf s = [] := List.filter_eq_nil_iff.2 fun e he hes =>
      hmem (Timeline.mem_subscriptions.2 ⟨e, he, by simpa using hes⟩)
    rw [hnone]
    rfl

/-- The charges due of a subscription that is not marked off are for the days that one of its events
bills, each once. -/
theorem count_due {t : Timeline} {currency : Currency} (hc : b.currency = .currency currency)
    (ht : t.length ≠ 0) (hmade : t.Made) (ho : t.HasOffsets) (hz : t.zone = "UTC")
    (h : b.due rounding t = .ok drafts) {s : Id} (hs : s ∉ t.off) : ∃ calendar,
    t.calendar = some calendar ∧
    Tells ((drafts.filter (·.subscription = some s)).countP (·.terms.serves d))
      (BillDay calendar b.target d (t.eventsOf s)) := by
  obtain ⟨calendar, hcalendar, hdue⟩ := filter_due hc ht h hs
  have horder : InOrder calendar (t.eventsOf s) :=
    (hmade.localDate_le ho hz hcalendar).sublist List.filter_sublist
  exact ⟨calendar, hcalendar, count_subscriptionDue horder hdue d⟩

end Billing

end Invoicing
