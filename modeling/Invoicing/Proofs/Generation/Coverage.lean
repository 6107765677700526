import Invoicing.Proofs.Generation.Idempotence
import Invoicing.Proofs.Proposal.Days

/-!
# Every day is billed once

A recurring item is in force up to its end or up to its earliest repair. So the items in force on a
day are those whose terms in force are for the day (`count_serves`). After a call these are the
terms of its plan, and the charges of a plan are for each day that an event bills, once
(`Billing.count_due`).
-/

namespace Invoicing

namespace Item

/-- Whether an item is a recurring charge in force on a day, given all items. -/
def serves (items : List Item) (d : Date) (i : Item) : Bool :=
  i.kind = .recurring && i.start ≤ d && (i.effectiveFinish items).any (d < ·)

end Item

variable {currency : Currency} {items : List Item}

theorem serves_iff (hb : Books (Priced currency) items) {i : Item} (hi : i ∈ chargesOf items)
    (d : Date) : ((i.inForce? items).map (Terms.serves d)).getD false = i.serves items d := by
  obtain ⟨c, hc, hgood⟩ := hb.stands i hi 0
  rw [Item.inForce?_of_issued hc]
  obtain ⟨-, rfl, -, hf, -⟩ := Charge.issued_parts hc
  rcases hgood.fair.charge with hk | hk
  · have hterms : c.terms.kind = .fixed := hk
    cases c.isActive <;> simp [Item.serves, Terms.serves, hk, hterms]
  · obtain ⟨e, he, -⟩ := Item.finish_of_recurring hk
    rw [Charge.finishAfter_recurring hk he, Charge.earliest_eq] at hf
    set f := ((c.item.repairsIn items).map (·.start)).foldl min e
    have hfinish : c.finish = some f := (Except.ok.inj hf).symm
    have heffective : c.item.effectiveFinish items = some f := by rw [Item.effectiveFinish, he]; rfl
    have hterms : c.terms.kind = .recurring ∧ c.terms.start = c.item.start ∧
      c.terms.finish = some f := ⟨hk, rfl, hfinish⟩
    by_cases hactive : c.item.start < f
    · have : c.isActive = true := by simp [Charge.isActive, hk, hfinish, hactive]
      simp [Item.serves, Terms.serves, this, hk, hterms, heffective]
    · have : c.isActive = false := by simp [Charge.isActive, hk, hfinish, hactive]
      have hempty : c.item.start ≤ d → f ≤ d := (not_lt.1 hactive).trans
      simpa [Item.serves, this, hk, heffective] using hempty

/-- The items that serve a day are as many as the terms in force for it. -/
theorem count_serves (hb : Books (Priced currency) items) (s : Id) (d : Date) :
    items.countP (fun i => i.subscription = some s && i.serves items d) =
      ((termsInForce items).filter (·.subscription = some s)).countP (Terms.serves d) := by
  rw [filter_termsInForce (fun x => x = some s), List.countP_filterMap, List.countP_filter,
    chargesOf,
    List.countP_filter]
  refine List.countP_congr fun i hi => ?_
  by_cases hk : i.kind = .repair
  · simp [Item.serves, hk]
  · have hserves := serves_iff hb (mem_chargesOf.2 ⟨hi, hk⟩) d
    rw [hserves]
    simp [hk, and_comm]

/-! ## After a call -/

namespace Invoicer

variable {v : Invoicer} {r : InvoiceRequest} {t : Timeline} {calls : List Call} {s s' : Session}
  {o : Option Invoice} {calendar : AccountCalendar}

/-- After a call that is answered, a day of a subscription that is not marked off is served by one
item if one of its events bills the day, and by none if not. -/
theorem generate_serves_once [TimeZones] (h : History calls s)
    (hcalls : ∀ c ∈ calls, c.invoicer.Proper currency c.request) (hproper : v.Proper currency r)
    (hissued : r.issued = invoicesOf calls) (ht : r.timeline = some t) (hlength : t.length ≠ 0)
    (hon : t.accountOff = false) (hmade : t.Made) (ho : t.HasOffsets) (hz : t.zone = "UTC")
    (hcalendar : t.calendar = some calendar) (hrun : (v.generate r).from_ s = (.ok o, s'))
    {sub : Id}
    (hsub : sub ∉ t.off) (d : Date) :
    Tells ((itemsOf calls ++ o.toList.flatMap (·.items)).countP fun i =>
        i.subscription = some sub &&
        i.serves (itemsOf calls ++ o.toList.flatMap (·.items)) d)
      (BillDay calendar (latestTarget r.target r.issued) d (t.eventsOf sub)) := by
  have hbefore := h.issued hcalls
  obtain ⟨p, hp, hsettled, -⟩ := settled_of_answer hproper.modes ht hlength hon hrun
  rw [hissued] at hsettled
  obtain ⟨hafter, hterms⟩ := hproper.settled hp hbefore hsettled
  rw [count_serves hafter.books]
  -- Of the subscription, the terms in force are those of the plan.
  have hold : ((termsInForce (itemsOf calls)).filter (·.isOf p.off)).filter
      (·.subscription = some sub) = [] := by
    refine List.filter_eq_nil_iff.2 fun x hx hs => ?_
    have hof := (List.mem_filter.1 hx).2
    rw [hp.off, Terms.isOf, of_decide_eq_true hs] at hof
    simp [hsub] at hof
  have hperm := hterms.filter (·.subscription = some sub)
  rw [List.filter_append, hold, List.nil_append, List.filter_map] at hperm
  rw [hperm.countP_eq, List.countP_map, ← hp.target]
  obtain ⟨calendar', hcalendar', htells⟩ :=
    Billing.count_due rfl hlength hmade ho hz hp.drafts hsub (d := d)
  obtain rfl := Option.some.inj (hcalendar.symm.trans hcalendar')
  exact htells

end Invoicer

/-! ## The days of a cancelled subscription -/

open TimeZones.UtcOnly

theorem timelineOf_cancelled : timelineOf [firstEvent, cancellation] =
    ⟨false, .inAdvance, "UTC", [],
      [⟨firstEvent.effective, 0, 0⟩, ⟨cancellation.effective, 0, 1⟩], [firstEvent, cancellation], 2,
      some ⟨firstEvent.effective, "UTC"⟩⟩ := by
  have hequal : firstEvent.equal? cancellation = .ok false := by rfl
  have hbefore : TimelineKey.before ⟨cancellation.effective, 0, 1⟩ ⟨firstEvent.effective, 0, 0⟩ =
      false := by rfl
  have hfirst : firstEvent.ordering = 0 := rfl
  have hsecond : cancellation.ordering = 0 := rfl
  simp [timelineOf, Timeline.addAll, Timeline.add, Timeline.contains?, Timeline.contains?.go,
    Timeline.empty, Timeline.insertAt, Timeline.place, hequal, hbefore, hfirst, hsecond]

theorem eventsOf_cancelled :
    (timelineOf [firstEvent, cancellation]).eventsOf (.known 1) = [firstEvent, cancellation] := by
  rw [timelineOf_cancelled]
  rfl

theorem billDay_first : BillDay ⟨firstEvent.effective, "UTC"⟩ Clock.firstDay Clock.firstDay
    [firstEvent, cancellation] := by
  refine ⟨0, firstEvent, rfl, rfl, rfl, Clock.firstDay, some midMonth, rfl, rfl,
    le_rfl, le_rfl, ?_, ?_⟩
  · rintro f ⟨⟩
    decide
  · exact fun _ _ _ _ _ hlt => hlt

theorem not_billDay_midMonth : ¬ BillDay ⟨firstEvent.effective, "UTC"⟩ Clock.firstDay midMonth
    [firstEvent, cancellation] := by
  rintro ⟨k, e, he, -, hprice, start, finish, -, hfinish, -, -, hbefore, -⟩
  match k with
  | 0 =>
    have hf : midMonth ∈ finish := by
      obtain rfl : some midMonth = finish := Except.ok.inj hfinish
      rfl
    exact lt_irrefl _ (hbefore midMonth hf)
  | 1 =>
    obtain rfl : cancellation = e := Option.some.inj he
    simp [cancellation, monthlyFrom] at hprice
  | k + 2 => simp at he

/-- A subscription cancelled in the middle of a month is served by one item on the first day of the
month and by none in the middle. -/
theorem Invoicer.generate_serves_once_cancelled :
    ∃ o s, (firstInvoicer.generate cancelledRequest).from_ firstSession = (.ok o, s) ∧
      (itemsOf [firstCall] ++ o.toList.flatMap (·.items)).countP (fun i =>
        i.subscription = some (.known 1) &&
          i.serves (itemsOf [firstCall] ++ o.toList.flatMap (·.items)) Clock.firstDay) = 1 ∧
      (itemsOf [firstCall] ++ o.toList.flatMap (·.items)).countP (fun i =>
        i.subscription = some (.known 1) &&
          i.serves (itemsOf [firstCall] ++ o.toList.flatMap (·.items)) midMonth) = 0 := by
  obtain ⟨i, s, hrun⟩ := cancelledRequest_invoiced
  have hoffsets : (timelineOf [firstEvent, cancellation]).HasOffsets := fun e he => by
    rcases List.mem_pair.1 (mem_timelineOf he) with rfl | rfl
    · exact ⟨0, rfl⟩
    · exact ⟨0, rfl⟩
  have hbilled : Id.known 1 ∉ (timelineOf [firstEvent, cancellation]).off := by
    rw [timelineOf_cancelled]
    decide
  have hserves := generate_serves_once firstCall_history firstCall_proper cancelledRequest_proper
    cancelledRequest_issued (t := timelineOf [firstEvent, cancellation]) rfl
    (by rw [timelineOf_cancelled]; decide) (by rw [timelineOf_cancelled])
    ((Timeline.Made.empty ..).addAll _) hoffsets (by rw [timelineOf_cancelled])
    (by rw [timelineOf_cancelled]) hrun hbilled
  have htarget : latestTarget cancelledRequest.target cancelledRequest.issued = Clock.firstDay := by
    decide +kernel
  rw [eventsOf_cancelled, htarget] at hserves
  exact ⟨some i, s, hrun, (hserves _).1 billDay_first, (hserves _).2 not_billDay_midMonth⟩

end Invoicing
