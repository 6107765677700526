import Invoicing.Proofs.Generation.Incremental
import Invoicing.Proofs.Generation.WellFormed
import Invoicing.Proofs.Proposal.Days
import Invoicing.Proofs.Reconciliation.Separation
import Invoicing.Proofs.Timeline.Insertion

/-!
# Subscriptions do not interfere

What a call invoices to one subscription is what it invoices if nothing else is there: neither events
of other subscriptions nor items that were invoiced to them (`Invoicer.generate_separate`). So it is
with what is due (`Billing.due_cut`), and with what is left of it after reconciliation
(`InvoicePlan.settled_cut`).
-/

namespace Invoicing

/-- Whether a timeline is another one cut down to the events of one subscription. -/
structure Timeline.CutTo (t : Timeline) (s : Id) (t' : Timeline) : Prop where
  events : t'.events = t.eventsOf s
  accountOff : t'.accountOff = t.accountOff
  off : t'.off = t.off
  zone : t'.calendar.map (·.zone) = t.calendar.map (·.zone)

/-- The invoice cut down to its items of one subscription. -/
def Invoice.cutTo (s : Id) (i : Invoice) : Invoice := { i with items := itemsFor s i.items }

theorem itemsFor_flatMap (s : Id) (issued : List Invoice) :
    (issued.map (·.cutTo s)).flatMap (·.items) = itemsFor s (issued.flatMap (·.items)) := by
  rw [List.flatMap_map, itemsFor, List.filter_flatMap]
  rfl

/-! ## What is due of one subscription -/

namespace Timeline

variable {t t' : Timeline} {s : Id}

theorem length_ne_zero (hs : t.eventsOf s ≠ []) : t.length ≠ 0 := by
  intro h
  have hnil : t.events = [] := List.length_eq_zero_iff.1 h
  exact hs (by rw [eventsOf, hnil]; rfl)

namespace CutTo

theorem eventsOf (h : t.CutTo s t') : t'.eventsOf s = t.eventsOf s := by
  rw [Timeline.eventsOf, h.events]
  exact List.filter_eq_self.2 fun e he => by simpa using Timeline.mem_eventsOf he

theorem length_ne_zero (h : t.CutTo s t') (hs : t.eventsOf s ≠ []) : t'.length ≠ 0 :=
  Timeline.length_ne_zero (h.eventsOf ▸ hs)

theorem subscriptions (h : t.CutTo s t') (hs : t.eventsOf s ≠ []) : t'.subscriptions = [s] := by
  refine List.perm_singleton.1 ((List.perm_ext_iff_of_nodup (Timeline.nodup_subscriptions t')
    (List.nodup_singleton s)).2 fun k => ?_)
  rw [Timeline.mem_subscriptions, h.events, List.mem_singleton]
  constructor
  · rintro ⟨e, he, rfl⟩
    exact Timeline.mem_eventsOf he
  · rintro rfl
    obtain ⟨e, he⟩ := List.exists_mem_of_ne_nil _ hs
    exact ⟨e, he, Timeline.mem_eventsOf he⟩

end CutTo

theorem foldl_addOnce {xs ys : List Id} (h : (xs ++ ys).Nodup) : ys.foldl addOnce xs = xs ++ ys := by
  induction ys generalizing xs with
  | nil => simp
  | cons y ys ih =>
    have hy : y ∉ xs := fun hy => (List.nodup_append.1 h).2.2 y hy y (by simp) rfl
    rw [List.foldl_cons, addOnce, if_neg hy, ih (by simpa using h), List.append_assoc]
    rfl

theorem Made.nodup_off (h : t.Made) : t.off.Nodup := by
  induction h with
  | empty accountOff mode zone off =>
    suffices h : ∀ ids : List Id, ids.Nodup → (off.foldl addOnce ids).Nodup from h [] .nil
    induction off with
    | nil => exact fun ids h => h
    | cons y off ih => exact fun ids h => ih _ (Timeline.nodup_addOnce h y)
  | @add t t' e added hmade hadd ih =>
    unfold Timeline.add at hadd
    split at hadd
    case h_1 => cases hadd
    case h_2 => obtain rfl := (Prod.ext_iff.1 (Except.ok.inj hadd)).2; exact ih
    case h_3 => obtain rfl := (Prod.ext_iff.1 (Except.ok.inj hadd)).2; exact ih
  | markOff subscription hmade ih => exact Timeline.nodup_addOnce ih _

theorem Made.cutTo (h : t.Made) (ho : t.Steady) (hs : t.eventsOf s ≠ []) :
    ∃ b t', (Timeline.empty t.accountOff t.recurringMode t.zone t.off).addAll (t.eventsOf s) =
      (.ok b, t') ∧ t.CutTo s t' := by
  have hsub : (t.eventsOf s).Sublist t.events := List.filter_sublist
  obtain ⟨b, t', hall, hevents, hmade, hframe⟩ := addAll_sorted t.accountOff t.recurringMode t.zone
    t.off (h.different.sublist hsub)
    (fun e he => ho e (hsub.subset he)) ((h.keys_le ho).sublist hsub)
  obtain ⟨c, hc, hzone⟩ := h.calendar_eq fun hnil => hs (List.sublist_nil.1 (hnil ▸ hsub))
  obtain ⟨c', hc', hzone'⟩ := hmade.calendar_eq (hevents ▸ hs)
  refine ⟨b, t', hall, hevents, hframe.accountOff, hframe.off.trans ?_, ?_⟩
  · have honce : ([] ++ t.off).Nodup := h.nodup_off
    exact foldl_addOnce honce
  · rw [hc, hc', Option.map_some, Option.map_some, hzone, hzone', hframe.zone]
    rfl

end Timeline

namespace Billing

variable {b : Billing} {rounding : Option RoundingMode} {t t' : Timeline} {s : Id}

theorem subscriptionDue_zone [TimeZones] {c c' : AccountCalendar} (h : c.zone = c'.zone)
    (events : List BillingEvent) :
    b.subscriptionDue rounding c events = b.subscriptionDue rounding c' events := by
  have hdate : c.dateOf = c'.dateOf := by
    funext x
    rw [AccountCalendar.dateOf, AccountCalendar.dateOf, h]
  have hevent : ∀ e next, b.eventDue rounding c e next = b.eventDue rounding c' e next :=
    fun e next => by simp only [eventDue, recurringDue, hdate]
  induction events with
  | nil => rfl
  | cons e rest ih => rw [subscriptionDue, subscriptionDue, hevent, ih]

/-- What is due of a timeline cut down to one subscription is what was due of the subscription. -/
theorem due_cut [TimeZones] {currency : Currency} {drafts : List Item} (hc : b.currency = .currency currency)
    (h : b.due rounding t = .ok drafts) (hcut : t.CutTo s t') (hs : t.eventsOf s ≠ []) :
    b.due rounding t' = .ok (itemsFor s drafts) := by
  have ht := Timeline.length_ne_zero hs
  obtain ⟨calendar, -, hcalendar, -⟩ := due_eq_ok hc ht h
  obtain ⟨calendar', hcalendar', hzone⟩ : ∃ c', t'.calendar = some c' ∧ c'.zone = calendar.zone := by
    have := hcut.zone
    rw [hcalendar] at this
    exact Option.map_eq_some_iff.1 this
  rw [due, if_neg (hcut.length_ne_zero hs), resolved_eq hc]
  simp only [bind, Except.bind, Timeline.accountCalendar, hcalendar']
  have hbilled : billed t' = if s ∈ t.off then [] else [(s, t.eventsOf s)] := by
    rw [billed, Timeline.bySubscription_eq, hcut.subscriptions hs, hcut.off, List.map_singleton,
      hcut.eventsOf]
    by_cases hoff : s ∈ t.off <;> simp [hoff]
  rw [hbilled]
  split
  case isTrue hoff =>
    -- Nothing was due of a subscription that is marked off.
    refine congrArg Except.ok (Eq.symm (List.filter_eq_nil_iff.2 fun i hi => ?_))
    obtain ⟨e, -, hnot, hof⟩ := mem_due hc h hi
    rw [hof.subscription]
    simpa using fun heq : e.subscription = s => hnot (heq ▸ hoff)
  case isFalse hoff =>
    obtain ⟨c, hsome, hdue⟩ := filter_due hc ht h hoff
    obtain rfl : calendar = c := Option.some.inj (hcalendar.symm.trans hsome)
    rw [List.mapM_cons, subscriptionDue_zone hzone, hdue]
    simp [bind, Except.bind, pure, Except.pure, Except.map, itemsFor]

end Billing

/-! ## What is left of one subscription -/

namespace InvoicePlan

variable {p : InvoicePlan} {items : List Item} {o : Option Invoice} {n : Nat} {s : Id}

/-- The plan cut down to the drafts of one subscription. -/
def cutTo (s : Id) (p : InvoicePlan) : InvoicePlan := { p with drafts := itemsFor s p.drafts }

/-- What is left of a plan for one subscription is what is left of the plan cut down to it. -/
theorem settled_cut (h : p.settled n items = .ok o) (hb : RepairsBelong items)
    (hsum : ∀ i ∈ o, ∃ m, Invoice.sum (.zeroIn i.currency) (itemsFor s i.items) = .ok m) (m : Nat) :
    ∃ o', (p.cutTo s).settled m (itemsFor s items) = .ok o' ∧
      (o'.toList.flatMap (·.items)).map Item.draft =
        (itemsFor s (o.toList.flatMap (·.items))).map Item.draft := by
  obtain ⟨result, hresult, ho⟩ := settled_eq_ok h
  have hproposed : ((p.cutTo s).proposed m).map Item.draft =
      (itemsFor s (p.proposed n)).map Item.draft := by
    rw [map_draft_proposed]
    exact (filter_numbered _ _ Item.draft (fun _ _ _ => rfl) _ (fun _ _ _ => rfl) _).symm
  obtain ⟨result', hresult', hdelta⟩ :=
    reconciled_separate hresult hb hproposed ((p.cutTo s).repairIds m)
  change reconciled _ _ _ (p.cutTo s).off = _ at hresult'
  -- The lines of an invoice for the subscription are the items left for it.
  have hlines : ∀ xs : List Item,
      (itemsFor s (p.invoice n xs).items).map Item.draft = (itemsFor s xs).map Item.draft := by
    intro xs
    rw [invoice, Invoice.assemble, itemsFor, List.filter_map, List.map_map]
    rfl
  by_cases hempty : result'.isEmpty
  · refine ⟨none, by simp [settled, hresult', bind, Except.bind, hempty], ?_⟩
    rw [Reconciliation.isEmpty, List.isEmpty_iff] at hempty
    rw [hempty] at hdelta
    rcases ho with ⟨rfl, -⟩ | rfl
    · rfl
    · simpa [hlines] using hdelta
  · rcases ho with ⟨-, hnil⟩ | rfl
    · rw [hnil] at hdelta
      refine absurd ?_ hempty
      rw [Reconciliation.isEmpty, List.isEmpty_iff]
      exact List.map_eq_nil_iff.1 hdelta
    · obtain ⟨total, htotal⟩ := hsum _ rfl
      have hcharged : ((p.cutTo s).invoice m result'.delta).charged = .ok total := by
        rw [charged_eq _ _ (hdelta.trans (hlines _).symm)]
        exact htotal
      refine ⟨some ((p.cutTo s).invoice m result'.delta), ?_, ?_⟩
      · simp [settled, hresult', bind, Except.bind, hempty, hcharged]
      · simpa [hlines, map_draft_lines] using hdelta

end InvoicePlan

/-- The request cut down to one subscription: a timeline of its events, and the items invoiced to it. -/
def InvoiceRequest.cutTo (r : InvoiceRequest) (s : Id) (t : Timeline) : InvoiceRequest :=
  { r with timeline := some t, issued := r.issued.map (·.cutTo s) }

namespace Invoicer

variable {v : Invoicer} {r : InvoiceRequest} {t t' : Timeline} {s : Id} {p : InvoicePlan}

theorem Planned.cutTo [TimeZones] (h : Planned v r t p) (hcut : t.CutTo s t') (hs : t.eventsOf s ≠ []) :
    Planned v (r.cutTo s t') t' (p.cutTo s) where
  timeline := rfl
  events := hcut.length_ne_zero hs
  accountOn := hcut.accountOff.trans h.accountOn
  currency := h.currency
  today := h.today
  near := h.near
  target := by
    refine h.target.trans ?_
    rw [latestTarget_eq, latestTarget_eq, InvoiceRequest.cutTo, List.map_map]
    rfl
  account := h.account
  off := h.off.trans hcut.off.symm
  drafts := Billing.due_cut rfl h.drafts hcut hs

theorem plan_cutTo [TimeZones] (ht : r.timeline = some t) (h : v.plan r = .ok none) (hcut : t.CutTo s t')
    (hs : t.eventsOf s ≠ []) : v.plan (r.cutTo s t') = .ok none := by
  have hoff : t'.accountOff = true := by
    rw [hcut.accountOff]
    by_contra hon
    exact plan_ne_none ht (Timeline.length_ne_zero hs) (by simpa using hon) h
  obtain ⟨currency, hcurrency, -⟩ := bind_eq_ok_iff.1 h
  have hfilter : ((some t').filter fun t => t.length ≠ 0) = some t' := by
    simp [Option.filter, hcut.length_ne_zero hs]
  refine bind_eq_ok_iff.2 ⟨currency, hcurrency, ?_⟩
  simp only [InvoiceRequest.cutTo, hfilter, planFrom, hoff, if_true]

/-- The items of a subscription are those that the call comes to when everything else is cut away, if
repairs belong to the subscriptions of their charges and no sum of amounts signals. -/
theorem generate_separate [TimeZones] (hmodes : v.rules.modes = .initial) (ht : r.timeline = some t)
    (hcut : t.CutTo s t') (hs : t.eventsOf s ≠ [])
    (hb : RepairsBelong (r.issued.flatMap (·.items))) {o : Option Invoice} {s₁ s₁' : Session}
    (h : (v.generate r).from_ s₁ = (.ok o, s₁'))
    (hsum : ∀ i ∈ o, ∀ d,
      Invoice.sum (.zeroIn i.currency) (itemsFor s i.items) ≠ .error (.decimal d))
    (s₂ : Session) :
    ∃ o' s₂', (v.generate (r.cutTo s t')).from_ s₂ = (.ok o', s₂') ∧
      (o'.toList.flatMap (·.items)).map Item.draft =
        (itemsFor s (o.toList.flatMap (·.items))).map Item.draft := by
  have hsums : ∀ i ∈ o, ∃ m, Invoice.sum (.zeroIn i.currency) (itemsFor s i.items) = .ok m := by
    rintro i ⟨⟩
    have hone := (wellFormed_of_answer h).oneCurrency
    cases hm : Invoice.sum (.zeroIn i.currency) (itemsFor s i.items) with
    | ok m => exact ⟨m, rfl⟩
    | error f =>
      rcases Invoice.sum_fails _ _ f hm with ⟨d, rfl⟩ | ⟨x, hx, hne, -⟩
      · exact absurd hm (hsum i rfl d)
      · exact absurd (hone x (List.mem_filter.1 hx).1) hne
  obtain ⟨s₂', h₂, -⟩ := generate_from (r := r.cutTo s t') hmodes s₂
  rw [h₂]
  obtain ⟨-, ⟨f, hf⟩ | ⟨hnone, hanswer⟩ | ⟨t₁, p, o₁, hp, ho, hanswer, -⟩⟩ := generate_cases hmodes h
  · cases hf
  · obtain rfl : o = none := Except.ok.inj hanswer
    rw [plan_cutTo ht hnone hcut hs]
    exact ⟨none, s₂', rfl, rfl⟩
  · obtain rfl : o = o₁ := Except.ok.inj hanswer
    obtain rfl : t = t₁ := Option.some.inj (ht.symm.trans hp.timeline)
    obtain ⟨o', ho', hitems⟩ := InvoicePlan.settled_cut ho hb hsums s₂.minted
    refine ⟨o', s₂', ?_, hitems⟩
    rw [(hp.cutTo hcut hs).plan_eq]
    refine Prod.ext (Eq.trans ?_ ho') rfl
    rw [← itemsFor_flatMap]
    rfl

/-! ## A cancellation taken back -/

open TimeZones.UtcOnly

/-- The call that repairs the charge of the cancelled subscription. -/
def cancelledCall : Call := .made firstInvoicer cancelledRequest firstSession

/-- The request after the cancellation was taken back, and another subscription has started. -/
def resumedRequest : InvoiceRequest :=
  requestFor [firstEvent, Mandate.secondEvent] (invoicesOf [firstCall, cancelledCall]) midMonth

def resumedItems : List Item :=
  ((firstInvoicer.generate resumedRequest).from_ .start).1.toOption.join.toList.flatMap (·.items)

theorem made_timelineOf (events : List BillingEvent) : (timelineOf events).Made :=
  (Timeline.Made.empty ..).addAll events

/-- The resumed subscription is invoiced as if the other one had not started. -/
theorem generate_separate_resumed :
    ∃ t' i s₁, (timelineOf [firstEvent, Mandate.secondEvent]).CutTo (.known 1) t' ∧
      (firstInvoicer.generate resumedRequest).from_ .start = (.ok (some i), s₁) ∧
      itemsFor (.known 1) i.items ≠ [] ∧ itemsFor (.known 2) i.items ≠ [] ∧
      ∃ o' s₂, (firstInvoicer.generate (resumedRequest.cutTo (.known 1) t')).from_ s₁ =
        (.ok o', s₂) ∧
        (o'.toList.flatMap (·.items)).map Item.draft =
          (itemsFor (.known 1) i.items).map Item.draft := by
  have hevents : (timelineOf [firstEvent, Mandate.secondEvent]).eventsOf (.known 1) ≠ [] := by
    refine List.isEmpty_eq_false_iff.1 ?_
    decide +kernel
  have hsteady : (timelineOf [firstEvent, Mandate.secondEvent]).Steady := by
    intro e he
    rcases List.mem_pair.1 (mem_timelineOf he) with rfl | rfl <;>
      exact Timestamp.HasOffset.steady ⟨0, rfl⟩
  obtain ⟨b, t', -, hcut⟩ := (made_timelineOf _).cutTo hsteady hevents
  have hb : RepairsBelong (resumedRequest.issued.flatMap (·.items)) := by
    unfold RepairsBelong
    decide +kernel
  have hitems : itemsFor (.known 1) resumedItems ≠ [] ∧ itemsFor (.known 2) resumedItems ≠ [] := by
    decide +kernel
  have hsum : ∃ m, Invoice.sum (.zeroIn .usd) (itemsFor (.known 1) resumedItems) = .ok m :=
    isOk_iff.1 (by decide +kernel)
  unfold resumedItems at hitems hsum
  rcases hrun : (firstInvoicer.generate resumedRequest).from_ .start with ⟨f | _ | i, s₁⟩
  · simp [hrun, Except.toOption, itemsFor] at hitems
  · simp [hrun, Except.toOption, itemsFor] at hitems
  rw [hrun, show (Except.toOption (.ok (some i) : Except Fault (Option Invoice))).join.toList.flatMap
    (·.items) = i.items by simp [Except.toOption]] at hitems hsum
  obtain ⟨m, hm⟩ := hsum
  have hcurrency : i.currency = .usd :=
    Except.ok.inj ((wellFormed_of_answer hrun).currency.symm.trans currencyOf_first)
  have hsignal : ∀ j ∈ some i, ∀ d,
      Invoice.sum (.zeroIn j.currency) (itemsFor (.known 1) j.items) ≠ .error (.decimal d) := by
    rintro j ⟨⟩ d hd
    rw [hcurrency, hm] at hd
    cases hd
  refine ⟨t', i, s₁, hcut, rfl, hitems.1, hitems.2, ?_⟩
  simpa using generate_separate rfl rfl hcut hevents hb hrun hsignal s₁

end Invoicer

end Invoicing
