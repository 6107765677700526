import Invoicing.Proofs.Generation.Separation
import Invoicing.Proofs.Reconciliation.Reordering

/-!
# Load order does not matter

In whatever order events come into the timeline, and invoices and their items are loaded, a call
comes to the same invoice, up to ids and the order of its items (`Invoicer.generate_reordered`). The
timeline is the same but for the numbers of its entries, so the plan is the same
(`Invoicer.plan_reordered`); what is left of it has the same contents (`InvoicePlan.settled_reordered`).
-/

namespace Invoicing

/-- Whether an invoice is another one with its items in some order. -/
def Invoice.Reordered (i j : Invoice) : Prop := ∃ items, i.items.Perm items ∧ j = { i with items }

/-- Whether invoices are others in some order, each with its items in some order. -/
def Reordered (is js : List Invoice) : Prop :=
  ∃ ks, is.Perm ks ∧ List.Forall₂ Invoice.Reordered ks js

/-- Whether two invoices say the same, up to ids and the order of their items. -/
structure Invoice.SameContent (i j : Invoice) : Prop where
  account : i.account = j.account
  invoiceDate : i.invoiceDate = j.invoiceDate
  target : i.target = j.target
  currency : i.currency = j.currency
  items : (i.items.map Item.content).Perm (j.items.map Item.content)

namespace Reordered

variable {is js : List Invoice}

theorem items_perm (h : Reordered is js) : (is.flatMap (·.items)).Perm (js.flatMap (·.items)) := by
  obtain ⟨ks, hp, hks⟩ := h
  refine (hp.flatMap_right _).trans ?_
  clear hp
  induction hks with
  | nil => exact .refl _
  | cons hij _ ih =>
    obtain ⟨items, hitems, rfl⟩ := hij
    exact hitems.append ih

theorem latestTarget_eq (h : Reordered is js) (target : Date) :
    Invoicer.latestTarget target js = Invoicer.latestTarget target is := by
  obtain ⟨ks, hp, hks⟩ := h
  have htargets : ks.map (·.target) = js.map (·.target) := by
    rw [← List.forall₂_eq_eq_eq, List.forall₂_map_left_iff, List.forall₂_map_right_iff]
    exact hks.imp fun i j ⟨_, _, hj⟩ => by rw [hj]
  rw [Invoicer.latestTarget_eq, Invoicer.latestTarget_eq, ← htargets]
  exact (hp.symm.map _).foldl_eq target

end Reordered

/-! ## One plan -/

/-- Whether two timelines have the same events, flags and zone. -/
structure Timeline.Same (t t' : Timeline) : Prop where
  events : t'.events = t.events
  accountOff : t'.accountOff = t.accountOff
  off : t'.off = t.off
  zone : t.events ≠ [] → t'.calendar.map (·.zone) = t.calendar.map (·.zone)

namespace Timeline

variable {t t' : Timeline}

theorem length_eq (t : Timeline) : t.length = t.events.length := rfl

theorem SameFrame.same (h : SameFrame t t') (hevents : t'.events = t.events) (ht : t.Made)
    (ht' : t'.Made) : t.Same t' where
  events := hevents
  accountOff := h.accountOff
  off := h.off
  zone hne := by
    obtain ⟨c, hc, hzone⟩ := ht.calendar_eq hne
    obtain ⟨c', hc', hzone'⟩ := ht'.calendar_eq (hevents ▸ hne)
    rw [hc, hc', Option.map_some, Option.map_some, hzone, hzone', h.zone]

theorem Same.due_eq [TimeZones] (h : t.Same t') (b : Billing) (rounding : Option RoundingMode) :
    b.due rounding t' = b.due rounding t := by
  have hbilled : Billing.billed t' = Billing.billed t := by
    simp only [Billing.billed, bySubscription, h.events, h.off]
  rw [Billing.due, Billing.due, length_eq, length_eq, h.events, hbilled]
  split
  · rfl
  case isFalse hne =>
  have hzone := h.zone fun hnil => hne (by rw [hnil]; rfl)
  unfold accountCalendar
  cases hc : t.calendar with
  | none =>
    rw [hc, Option.map_none, Option.map_eq_none_iff] at hzone
    rw [hzone]
  | some c =>
    rw [hc, Option.map_some] at hzone
    obtain ⟨c', hc', hcc⟩ := Option.map_eq_some_iff.1 hzone
    simp only [hc', bind, Except.bind, Billing.subscriptionDue_zone hcc]

end Timeline

namespace Invoicer

variable {v : Invoicer} {r : InvoiceRequest} {t t' : Timeline} {js : List Invoice}

theorem plan_reordered [TimeZones] (ht : r.timeline = some t) (h : t.Same t') (hi : Reordered r.issued js) :
    v.plan { r with timeline := some t', issued := js } = v.plan r := by
  have hlength : t'.length = t.length := by
    rw [Timeline.length_eq, Timeline.length_eq, h.events]
  have hfrom : ∀ currency, v.planFrom { r with timeline := some t', issued := js } t' currency =
      v.planFrom r t currency := by
    intro currency
    simp only [planFrom, h.accountOff, h.off, hi.latestTarget_eq, h.due_eq]
  unfold plan
  dsimp only
  rw [ht]
  by_cases hempty : t.length = 0
  · simp only [Option.filter, hlength, hempty]
    rfl
  · simp [Option.filter, hlength, hempty, hfrom]

end Invoicer

/-! ## One outcome -/

namespace InvoicePlan

variable {p : InvoicePlan} {n : Nat} {items items' : List Item} {o : Option Invoice}

/-- What is left of a plan has the same contents in whatever order items were invoiced. -/
theorem settled_reordered (h : p.settled n items = .ok o) (hp : items.Perm items')
    (horderless : Orderless (owned items p.off)) (hrates : ComparableRates (owned items p.off))
    (hsums : ∀ i ∈ o, ExactSums (.zeroIn i.currency) i.items) (m : Nat) :
    ∃ o', p.settled m items' = .ok o' ∧ Option.Rel Invoice.SameContent o o' := by
  obtain ⟨result, hresult, h⟩ := bind_eq_ok_iff.1 h
  have hproposed : (p.proposed n).map Item.draft = (p.proposed m).map Item.draft := by
    rw [map_draft_proposed, map_draft_proposed]
  obtain ⟨result', hresult', hdelta⟩ :=
    reconciled_rearranged hresult hp horderless hrates hproposed (p.repairIds m)
  have hempty : result'.isEmpty = result.isEmpty := by
    have hmapped := hdelta.symm.isEmpty_eq
    rwa [List.isEmpty_map, List.isEmpty_map] at hmapped
  split at h
  case isTrue hnone =>
    obtain rfl : none = o := Except.ok.inj h
    exact ⟨none, bind_eq_ok_iff.2 ⟨result', hresult', if_pos (hempty ▸ hnone)⟩, .none⟩
  case isFalse hsome =>
    obtain ⟨-, -, h⟩ := bind_eq_ok_iff.1 h
    obtain rfl : some (p.invoice n result.delta) = o := Except.ok.inj h
    have hlines : ∀ (k : Nat) (xs : List Item),
        (p.invoice k xs).items.map Item.content = xs.map Item.content := by
      intro k xs
      rw [invoice, Invoice.assemble, List.map_map]
      rfl
    have hcontent : ((p.invoice n result.delta).items.map Item.content).Perm
        ((p.invoice m result'.delta).items.map Item.content) := by
      rw [hlines, hlines]
      exact hdelta
    -- The items of the second invoice sum up like those of the first one in another order.
    obtain ⟨us, hus, hperm⟩ := exists_map_of_perm hcontent.symm
    obtain ⟨total, htotal, -⟩ := (hsums _ rfl us hperm).sum_eq rfl
    obtain ⟨total', htotal', -⟩ := (Invoice.sum_sameWorth ⟨rfl, rfl⟩
      (map_content_eq_iff.1 hus.symm)).exists_ok htotal
    refine ⟨some (p.invoice m result'.delta), bind_eq_ok_iff.2 ⟨result', hresult', ?_⟩,
      .some ⟨rfl, rfl, rfl, rfl, hcontent⟩⟩
    rw [if_neg (hempty ▸ hsome)]
    exact bind_eq_ok_iff.2 ⟨total', htotal', rfl⟩

end InvoicePlan

namespace Invoicer

variable {v : Invoicer} {r : InvoiceRequest} {t : Timeline} {js : List Invoice}

/-- A call comes to an invoice with the same contents in whatever order its events came into the
timeline, and its invoices and their items were loaded: if events are told apart by instant and
ordering, charges in force by their terms, no sum is rounded, and the rates in force can be compared. -/
theorem generate_reordered [TimeZones] (hmodes : v.rules.modes = .initial) {accountOff b : Bool}
    {mode : BillingMode} {zone : String} {off : List Id} {es es' : List BillingEvent}
    (hbuilt : (Timeline.empty accountOff mode zone off).addAll es = (.ok b, t))
    (hevents : es.Perm es') (hoffsets : ∀ e ∈ es, e.effective.HasOffset)
    (hkeys : (es.map BillingEvent.key).Nodup) (ht : r.timeline = some t)
    (hissued : Reordered r.issued js)
    (horderless : Orderless (owned (r.issued.flatMap (·.items)) t.off))
    (hrates : ComparableRates (owned (r.issued.flatMap (·.items)) t.off)) {o : Option Invoice}
    {s₁ s₁' : Session} (h : (v.generate r).from_ s₁ = (.ok o, s₁'))
    (hsums : ∀ i ∈ o, ExactSums (.zeroIn i.currency) i.items) (s₂ : Session) :
    ∃ b' t', (Timeline.empty accountOff mode zone off).addAll es' = (.ok b', t') ∧
      ∃ o' s₂', (v.generate { r with timeline := some t', issued := js }).from_ s₂ = (.ok o', s₂') ∧
        Option.Rel Invoice.SameContent o o' := by
  obtain ⟨b', t', hbuilt', hsame, hmade', hframe⟩ := Timeline.addAll_perm hevents
    (fun e he => (hoffsets e he).steady) hkeys hbuilt
  have hmade := (Timeline.Made.empty accountOff mode zone off).addAll es
  rw [hbuilt] at hmade
  refine ⟨b', t', hbuilt', ?_⟩
  obtain ⟨s₂', h₂, -⟩ := generate_from (r := { r with timeline := some t', issued := js }) hmodes s₂
  obtain ⟨_, h₁, -⟩ := generate_from (r := r) hmodes s₁
  rw [plan_reordered ht (hframe.same hsame hmade hmade') hissued] at h₂
  obtain ⟨hanswer, -⟩ := Prod.ext_iff.1 (h₁.symm.trans h)
  obtain ⟨plan, hplan, ho⟩ := bind_eq_ok_iff.1 hanswer
  rw [h₂, hplan]
  cases plan with
  | none =>
    obtain rfl : none = o := Except.ok.inj ho
    exact ⟨none, s₂', rfl, .none⟩
  | some p =>
    obtain ⟨t₁, hp⟩ := planned_of_plan hplan
    obtain rfl : t = t₁ := Option.some.inj (ht.symm.trans hp.timeline)
    rw [← hp.off] at horderless hrates
    obtain ⟨o', ho', hrel⟩ := InvoicePlan.settled_reordered ho hissued.items_perm horderless hrates
      hsums s₂.minted
    exact ⟨o', s₂', Prod.ext ho' rfl, hrel⟩

open TimeZones.UtcOnly

/-- The invoice for the resumed subscription and another one is the same if the second subscription
comes in first, and the repair is loaded before the charge it is for. -/
theorem generate_reordered_resumed :
    ∃ i s₁ b' t', (firstInvoicer.generate resumedRequest).from_ .start = (.ok (some i), s₁) ∧
      i.items.length = 3 ∧ resumedRequest.issued.length = 2 ∧
      (Timeline.empty false .inAdvance "UTC" []).addAll [Mandate.secondEvent, firstEvent] =
        (.ok b', t') ∧
      ∃ o' s₂, (firstInvoicer.generate { resumedRequest with
          timeline := some t', issued := resumedRequest.issued.reverse }).from_ s₁ = (.ok o', s₂) ∧
        Option.Rel Invoice.SameContent (some i) o' := by
  obtain ⟨b, hb⟩ : ∃ b, ((Timeline.empty false .inAdvance "UTC" []).addAll
      [firstEvent, Mandate.secondEvent]).1 = .ok b := isOk_iff.1 (by decide +kernel)
  have hbuilt : (Timeline.empty false .inAdvance "UTC" []).addAll
      [firstEvent, Mandate.secondEvent] = (.ok b, timelineOf [firstEvent, Mandate.secondEvent]) :=
    Prod.ext hb rfl
  have hoffsets : ∀ e ∈ [firstEvent, Mandate.secondEvent], e.effective.HasOffset := by
    intro e he
    rcases List.mem_pair.1 he with rfl | rfl <;> exact ⟨0, rfl⟩
  have hissued : Reordered resumedRequest.issued resumedRequest.issued.reverse :=
    ⟨_, (List.reverse_perm _).symm, List.forall₂_same.2 fun i _ => ⟨i.items, .refl _, rfl⟩⟩
  have hitems : resumedItems.length = 3 ∧ ExactSums (.zeroIn .usd) resumedItems := by
    decide +kernel
  unfold resumedItems at hitems
  rcases hrun : (firstInvoicer.generate resumedRequest).from_ .start with ⟨f | _ | i, s₁⟩
  · simp [hrun, Except.toOption] at hitems
  · simp [hrun, Except.toOption] at hitems
  rw [hrun, show (Except.toOption (.ok (some i) : Except Fault (Option Invoice))).join.toList.flatMap
    (·.items) = i.items by simp [Except.toOption]] at hitems
  have hsums : ∀ j ∈ some i, ExactSums (.zeroIn j.currency) j.items := by
    rintro j ⟨⟩
    rw [show i.currency = .usd from
      Except.ok.inj ((wellFormed_of_answer hrun).currency.symm.trans currencyOf_first)]
    exact hitems.2
  obtain ⟨b', t', hbuilt', h⟩ := generate_reordered (r := resumedRequest) rfl hbuilt
    (List.Perm.swap ..) hoffsets (by decide +kernel) rfl hissued (by decide +kernel)
    (by decide +kernel) hrun hsums s₁
  exact ⟨i, s₁, b', t', rfl, hitems.1, by decide +kernel, hbuilt', h⟩

/-! ## A rate that cannot be compared -/

/-- The charge of the first month, as it is proposed. -/
def firstCharge : Item := monthlyCharge 10 1 february january_lt_february 3100 (.ofInt 31)

/-- Another charge of that month, with a signaling NaN for a rate. -/
def unratedCharge : Item := monthlyCharge 11 1 february january_lt_february 500 (.nan true false 0)

/-- The request for the first month after an invoice with some items. -/
def repeatedRequest (items : List Item) : InvoiceRequest :=
  requestFor [firstEvent]
    [⟨.known 50, .known 0, Clock.firstDay, Clock.firstDay, .usd, items⟩] Clock.firstDay

/-- The plan for the first month. -/
def firstPlan : InvoicePlan :=
  ⟨.known 0, Clock.firstDay, Clock.firstDay, .usd,
    (Billing.due ⟨.known 0, Clock.firstDay, .currency .usd, none⟩ firstInvoicer.rules.rounding
      (timelineOf [firstEvent])).toOption.getD [], []⟩

theorem planned_repeated (items : List Item) :
    Planned firstInvoicer (repeatedRequest items) (timelineOf [firstEvent]) firstPlan where
  timeline := rfl
  events := by decide +kernel
  accountOn := by decide +kernel
  currency := currencyOf_first
  today := by rfl
  near := by
    show Clock.firstDay.monthsBetween Clock.firstDay ≤ firstInvoicer.config.maxMonths
    decide +kernel
  target := by rfl
  account := rfl
  off := by decide +kernel
  drafts := by
    have hdue : (Billing.due ⟨.known 0, Clock.firstDay, .currency .usd, none⟩
        firstInvoicer.rules.rounding (timelineOf [firstEvent])).isOk = true := by decide +kernel
    obtain ⟨drafts, h⟩ := isOk_iff.1 hdue
    have hdrafts : firstPlan.drafts = drafts := by
      rw [firstPlan, h]
      rfl
    exact h.trans (congrArg Except.ok hdrafts.symm)

theorem repeated_from (items : List Item) : ∃ s,
    (firstInvoicer.generate (repeatedRequest items)).from_ .start = (firstPlan.settled 0 items, s) := by
  obtain ⟨s, h, -⟩ := generate_from (v := firstInvoicer) (r := repeatedRequest items) rfl .start
  rw [(planned_repeated items).plan_eq] at h
  have hitems : (repeatedRequest items).issued.flatMap (·.items) = items := List.append_nil items
  refine ⟨s, h.trans (Prod.ext ?_ rfl)⟩
  show firstPlan.settled 0 ((repeatedRequest items).issued.flatMap (·.items)) = _
  rw [hitems]

theorem reconciled_repeated {i j : Item}
    (hcs : (Holdings.ofItems [i, j] []).issued 1 = .ok [.proposed 1 i, .proposed 2 j])
    (hc : ∀ c ∈ [Charge.proposed 1 i, .proposed 2 j], c.item.subscription = some (.known 1))
    (hs : [Charge.proposed 1 i, .proposed 2 j].Pairwise fun a b => a.fullPlace ≤ b.fullPlace) :
    reconciled (firstPlan.repairIds 0) [i, j] (firstPlan.proposed 0) firstPlan.off =
      (Ledger.trail (firstPlan.repairIds 0) (proposals (firstPlan.proposed 0))
        [.proposed 1 i, .proposed 2 j]).map fun x =>
        ⟨⟨(x.2.filter (!·.matched)).map (·.item), x.1.flatMap (·.2.toList)⟩,
          (Holdings.ofItems [i, j] []).untouched⟩ := by
  have hone : (firstPlan.proposed 0).length = 1 := by decide +kernel
  have hoff : firstPlan.off = [] := rfl
  rw [hoff, reconciled_single (k := some (.known 1)) (hone ▸ hcs) hc (by decide +kernel),
    Charge.sorted_of_pairwise hs, Charge.sorted_of_pairwise (by decide +kernel)]

theorem settled_unrated_first :
    firstPlan.settled 0 [unratedCharge, firstCharge] = .error (.decimal .invalidOperation) := by
  have hverdict : (Charge.proposed 1 unratedCharge).verdict? (proposals (firstPlan.proposed 0)) =
      .error .invalidOperation := by decide +kernel
  unfold InvoicePlan.settled
  rw [reconciled_repeated rfl (by decide) (by decide +kernel), Ledger.trail,
    if_pos (by decide +kernel), hverdict]
  rfl

theorem settled_unrated_last : ∃ i, firstPlan.settled 0 [firstCharge, unratedCharge] = .ok (some i) ∧
    ExactSums (.zeroIn i.currency) i.items := by
  have hcheck : (firstPlan.settled 0 [firstCharge, unratedCharge]).toOption.join.any
      (fun i => ExactSums (.zeroIn i.currency) i.items) = true := by
    unfold InvoicePlan.settled
    rw [reconciled_repeated rfl (by decide) (by decide +kernel)]
    decide +kernel
  rcases hanswer : firstPlan.settled 0 [firstCharge, unratedCharge] with f | _ | i
  · simp [hanswer, Except.toOption] at hcheck
  · simp [hanswer, Except.toOption] at hcheck
  · rw [hanswer] at hcheck
    exact ⟨i, rfl, by simpa [Except.toOption] using hcheck⟩

/-- Of two charges of which one has a rate that cannot be compared, the order counts: the other one can
take the proposal first, and then there is nothing left to compare the rate with. -/
theorem generate_unrated :
    Reordered (repeatedRequest [firstCharge, unratedCharge]).issued
      (repeatedRequest [unratedCharge, firstCharge]).issued ∧
    ([firstCharge, unratedCharge].map (·.id)).Nodup ∧
    (∀ i ∈ [firstCharge, unratedCharge], i.amount.currency = .usd) ∧
    Orderless (owned [firstCharge, unratedCharge] []) ∧ firstPlan.drafts.length = 1 ∧
    (∃ i s, (firstInvoicer.generate (repeatedRequest [firstCharge, unratedCharge])).from_ .start =
      (.ok (some i), s) ∧ ExactSums (.zeroIn i.currency) i.items) ∧
    ∃ s, (firstInvoicer.generate (repeatedRequest [unratedCharge, firstCharge])).from_ .start =
      (.error (.decimal .invalidOperation), s) := by
  obtain ⟨s, h⟩ := repeated_from [firstCharge, unratedCharge]
  obtain ⟨s', h'⟩ := repeated_from [unratedCharge, firstCharge]
  obtain ⟨i, hi, hsums⟩ := settled_unrated_last
  rw [hi] at h
  rw [settled_unrated_first] at h'
  exact ⟨⟨_, .refl _, .cons ⟨_, .swap .., rfl⟩ .nil⟩, by decide, by decide, by decide +kernel,
    by decide +kernel, ⟨i, s, h, hsums⟩, s', h'⟩

end Invoicer

end Invoicing
