import Invoicing.Proofs.Generation.History
import Invoicing.Proofs.Proposal.Sequence
import Invoicing.Proofs.Reconciliation.Refusal

/-!
# When a call is refused

With prices of either sign a call for an invoice can fail on a repair that it makes itself. It does so
for one reason only: a charge is in force that is negative, and the new plan does not propose it again
(`Invoicer.generate_refused`). A repair would have to be positive to take it back. As long as no price
has been negative there is no such charge.
-/

namespace Invoicing

theorem Clock.today_plain (c : Clock) : FailsOnly Fault.IsPlain c.today := by
  unfold Clock.today Clock.nowUtc Clock.now
  refine FailsOnly.map (FailsOnly.bind (.mapError fun _ h => h) fun t _ => ?_)
  split
  · exact .mapError fun _ h => h
  · exact .error fun h => h

namespace Invoicer

/-- What is assumed of a call if prices may be of either sign: it is answered with the billing modes at
the start, in one currency, and for prices that are finite. -/
structure Signed (currency : Currency) (v : Invoicer) (r : InvoiceRequest) : Prop where
  modes : v.rules.modes = .initial
  currency_eq : ∀ k, v.currencyOf r.currency = .ok k → k = currency
  finite : ∀ t ∈ r.timeline, t.FinitePrices

variable {currency : Currency} {v : Invoicer} {r : InvoiceRequest} {t : Timeline} {p : InvoicePlan}

theorem Signed.proper (h : Signed currency v r) (hn : ∀ t ∈ r.timeline, t.NonnegativePrices) :
    Proper currency v r := ⟨h.modes, h.currency_eq, h.finite, hn⟩

theorem Signed.drafts_isFinite [TimeZones] (h : Signed currency v r) (hp : Planned v r t p) :
    ∀ d ∈ p.drafts, d.IsFinite := by
  intro d hd
  have ht : t ∈ r.timeline := hp.timeline
  obtain ⟨e, he, -, hof⟩ := hp.mem_drafts hd
  have hfixed : ∀ x ∈ e.fixedPrice, x.isFinite := fun x hx => h.finite t ht e he x (.inl hx)
  have hrate : ∀ x ∈ e.recurringPrice, x.isFinite := fun x hx => h.finite t ht e he x (.inr hx)
  exact ⟨hof.amount_finite rfl hfixed hrate, hof.rate_finite hrate⟩

theorem plan_fails [TimeZones] (v : Invoicer) (r : InvoiceRequest) :
    FailsOnly (fun f => ¬ f.IsRefusal) (v.plan r) := by
  have hplain : ∀ f : Fault, f.IsPlain → ¬ f.IsRefusal := fun f => Fault.IsPlain.not_isRefusal
  unfold plan currencyOf
  refine ((Currency.make_plain _).mono hplain).bind fun currency _ => ?_
  split
  · exact .ok _
  unfold planFrom
  split
  · exact .ok _
  refine ((Clock.today_plain _).mono hplain).bind fun today _ => ?_
  split
  · exact .error fun h => h
  refine FailsOnly.bind ((Billing.due_fails _).mono fun f hf => ?_) fun drafts _ => .ok _
  rcases hf with hf | ⟨_, -, _, -, _, _, -, start, finish, -, -, -, rfl⟩
  · exact hplain f hf
  · exact fun h => h

end Invoicer

namespace InvoicePlan

variable {p : InvoicePlan} {items : List Item}

theorem proposed_isFinite (hp : ∀ d ∈ p.drafts, d.IsFinite) (n : Nat) :
    ∀ i ∈ p.proposed n, i.IsFinite :=
  p.forall_proposed fun d hd _ _ => ⟨(hp d hd).amount, (hp d hd).rate⟩

theorem settled_fails (n : Nat) (hi : ∀ i ∈ items, i.IsFinite) (hp : ∀ d ∈ p.drafts, d.IsFinite) :
    FailsOnly (Fault.RefusesFor
        (DropsCredit (termsInForce (owned items p.off)) (p.drafts.map Item.terms)))
      (p.settled n items) := by
  have hreconciled := reconciled_fails (p.repairIds n) p.off hi (proposed_isFinite hp n)
  rw [InvoicePlan.map_proposed Item.terms fun _ _ _ => rfl] at hreconciled
  refine hreconciled.bind fun result _ => ?_
  split
  · exact .ok _
  · refine FailsOnly.bind ?_ fun _ _ => .ok _
    exact (Invoice.sum_plain _ _).mono fun f hf => hf.refusesFor _

end InvoicePlan

/-! ## Along a history -/

variable {currency : Currency} {calls : List Call} {s : Session}

theorem History.isFinite [TimeZones] (h : History calls s)
    (hc : ∀ c ∈ calls, c.invoicer.Signed currency c.request) : ∀ i ∈ itemsOf calls, i.IsFinite := by
  induction h with
  | start s => simp [itemsOf, invoicesOf]
  | @call calls s s' c _ hissued hrun ih =>
    have hbefore := ih fun x hx => hc x (by simp [hx])
    have hsigned := hc c (by simp)
    rw [itemsOf_append]
    refine fun i hi => (List.mem_append.1 hi).elim (hbefore i) fun hi => ?_
    obtain ⟨-, ⟨f, hanswer⟩ | ⟨-, hanswer⟩ | ⟨t, p, o, hp, ho, hanswer, -⟩⟩ :=
      Invoicer.generate_cases hsigned.modes hrun
    · simp [Call.invoices, hanswer] at hi
    · simp [Call.invoices, hanswer] at hi
    rw [hissued] at ho
    obtain ⟨result, hresult, ho⟩ := InvoicePlan.settled_eq_ok ho
    have hdelta := delta_isFinite hbefore
      (p.proposed_isFinite (hsigned.drafts_isFinite hp) s.minted) hresult
    rcases ho with ⟨rfl, -⟩ | rfl
    · simp [Call.invoices, hanswer] at hi
    · obtain ⟨j, hj, rfl⟩ : ∃ j ∈ result.delta, j.withInvoice (.minted s.minted) = i := by
        simpa [Call.invoices, hanswer, InvoicePlan.invoice, Invoice.assemble] using hi
      exact ⟨(hdelta j hj).amount, (hdelta j hj).rate⟩

theorem Books.not_isCredit {items : List Item} (hb : Books (Priced currency) items)
    (pinned : List Id) : ∀ t ∈ termsInForce (owned items pinned), ¬ t.IsCredit := by
  obtain ⟨cs, hcs, -, hgood⟩ := hb.issued pinned 0
  intro t ht hcredit
  rw [termsInForce_owned hcs] at ht
  obtain ⟨c, hc, rfl⟩ := List.mem_map.1 ht
  obtain ⟨hc, hactive⟩ := List.mem_filter.1 hc
  obtain ⟨q, hq, hamount⟩ := hcredit
  have hfair := (hgood c hc).2.fair
  have hworth : c.terms.amount = .inl c.amount.amount.toRat :=
    Decimal.worth_eq_inl hfair.comparable.1
  have hnonneg : 0 ≤ c.amount.amount.toRat := hfair.nonneg hactive
  rw [hworth] at hamount
  exact absurd (Sum.inl.inj hamount ▸ hnonneg) (not_le.2 hq)

/-- A call is refused only for a repair that would have to be positive: its plan drops a charge in
force that is negative, and an earlier call was for negative prices. -/
theorem Invoicer.generate_refused [TimeZones] (h : History calls s)
    (hc : ∀ c ∈ calls, c.invoicer.Signed currency c.request) {v : Invoicer} {r : InvoiceRequest}
    (hv : v.Signed currency r) (hr : r.issued = invoicesOf calls) {f : Fault} {s' : Session}
    (hrun : (v.generate r).from_ s = (.error f, s')) (hf : f.IsRefusal) :
    f = .positiveRepair ∧
    (∃ t p, Planned v r t p ∧
      DropsCredit (termsInForce (owned (itemsOf calls) t.off)) (p.drafts.map Item.terms)) ∧
    ∃ c ∈ calls, ∃ t ∈ c.request.timeline, ¬ t.NonnegativePrices := by
  have houtcome : (v.plan r >>= outcome r s.minted) = .error f := by
    obtain ⟨s'', hfrom, -⟩ := generate_from (r := r) hv.modes s
    exact (Prod.ext_iff.1 (hfrom.symm.trans hrun)).1
  cases hplan : v.plan r with
  | error g =>
    rw [hplan] at houtcome
    obtain rfl : g = f := Except.error.inj houtcome
    exact absurd hf (plan_fails v r g hplan)
  | ok plan =>
  rw [hplan] at houtcome
  cases plan with
  | none => cases houtcome
  | some p =>
  obtain ⟨t, hp⟩ := planned_of_plan hplan
  have hsettled : p.settled s.minted (itemsOf calls) = .error f := by
    rw [itemsOf, ← hr]
    exact houtcome
  obtain ⟨rfl, hdrop⟩ :=
    InvoicePlan.settled_fails s.minted (h.isFinite hc) (hv.drafts_isFinite hp) f hsettled hf
  rw [hp.off] at hdrop
  refine ⟨rfl, ⟨t, p, hp, hdrop⟩, ?_⟩
  -- If no price had been negative, books of fair charges would have been kept.
  by_contra hnone
  have hproper : ∀ c ∈ calls, c.invoicer.Proper currency c.request := by
    intro c hmem
    refine (hc c hmem).proper fun t ht => ?_
    by_contra hnegative
    exact hnone ⟨c, hmem, t, ht, hnegative⟩
  obtain ⟨x, hcredit, hlt⟩ := hdrop
  exact (h.issued hproper).books.not_isCredit t.off x
    (List.count_pos_iff.1 (Nat.zero_lt_of_lt hlt)) hcredit

/-! ## A discount that is withdrawn -/

open TimeZones.UtcOnly

/-- A discount of ten every month. -/
def discount : BillingEvent := monthlyFrom 1 Clock.firstDay (some (.ofInt (-10)))

/-- The call for the first month of the discount. -/
def discountCall : Call := .made firstInvoicer (requestFor [discount] [] Clock.firstDay) .start

def discountSession : Session :=
  ((firstInvoicer.generate (requestFor [discount] [] Clock.firstDay)).from_ .start).2

/-- The request for the first month after the discount has been withdrawn in its middle. -/
def withdrawnRequest : InvoiceRequest :=
  requestFor [discount, cancellation] discountCall.invoices Clock.firstDay

theorem discountCall_history : History [discountCall] discountSession :=
  (History.start .start).made firstInvoicer rfl

theorem signed_requestFor {events : List BillingEvent}
    (h : ∀ e ∈ events, ∀ d, e.fixedPrice = some d ∨ e.recurringPrice = some d → d.isFinite)
    (issued : List Invoice) (target : Date) :
    firstInvoicer.Signed .usd (requestFor events issued target) where
  modes := rfl
  currency_eq k hk := (Except.ok.inj (currencyOf_first.symm.trans hk)).symm
  finite := by
    rintro t ⟨⟩ e he d hd
    exact h e (mem_timelineOf he) d hd

theorem discount_price (d : Decimal)
    (h : discount.fixedPrice = some d ∨ discount.recurringPrice = some d) : d.isFinite := by
  obtain rfl : Decimal.ofInt (-10) = d := by simpa [discount, monthlyFrom] using h
  rfl

theorem discountCall_signed : ∀ c ∈ [discountCall], c.invoicer.Signed .usd c.request := by
  simp only [List.mem_singleton, forall_eq]
  exact signed_requestFor (by simpa using discount_price) _ _

theorem withdrawnRequest_signed : firstInvoicer.Signed .usd withdrawnRequest := by
  refine signed_requestFor ?_ _ _
  simp only [List.forall_mem_cons]
  exact ⟨discount_price, by simp [cancellation, monthlyFrom], by simp⟩

theorem withdrawnRequest_issued : withdrawnRequest.issued = invoicesOf [discountCall] := by
  simp [invoicesOf, withdrawnRequest, requestFor]

/-- Whether a result is that a repair would have to be positive. -/
def isPositiveRepair {α : Type} : Except Fault α → Bool
  | .error .positiveRepair => true
  | _ => false

theorem eq_of_isPositiveRepair {α : Type} {x : Except Fault α} (h : isPositiveRepair x = true) :
    x = .error .positiveRepair := by
  unfold isPositiveRepair at h
  split at h
  · rfl
  · cases h

theorem withdrawnRequest_run : ∃ s,
    (firstInvoicer.generate withdrawnRequest).from_ discountSession = (.error .positiveRepair, s) :=
  ⟨_, Prod.ext (eq_of_isPositiveRepair (by decide +kernel)) rfl⟩

/-- The withdrawal of the discount cannot be invoiced, since the repair of the discount would have to
be positive. -/
theorem Invoicer.generate_withdrawn : History [discountCall] discountSession ∧
    (∀ c ∈ [discountCall], c.invoicer.Signed .usd c.request) ∧
    firstInvoicer.Signed .usd withdrawnRequest ∧
    withdrawnRequest.issued = invoicesOf [discountCall] ∧
    ∃ f s, (firstInvoicer.generate withdrawnRequest).from_ discountSession = (.error f, s) ∧
      f.IsRefusal := by
  obtain ⟨s, hrun⟩ := withdrawnRequest_run
  exact ⟨discountCall_history, discountCall_signed, withdrawnRequest_signed,
    withdrawnRequest_issued, _, s, hrun, trivial⟩

/-- What refuses it is the discount, which the plan drops. -/
theorem Invoicer.generate_refused_withdrawn : ∃ f s,
    (firstInvoicer.generate withdrawnRequest).from_ discountSession = (.error f, s) ∧
    f.IsRefusal ∧ f = .positiveRepair ∧
    (∃ t p, Planned firstInvoicer withdrawnRequest t p ∧
      DropsCredit (termsInForce (owned (itemsOf [discountCall]) t.off)) (p.drafts.map Item.terms)) ∧
    ∃ c ∈ [discountCall], ∃ t ∈ c.request.timeline, ¬ t.NonnegativePrices := by
  obtain ⟨s, hrun⟩ := withdrawnRequest_run
  exact ⟨_, s, hrun, trivial, generate_refused discountCall_history discountCall_signed
    withdrawnRequest_signed withdrawnRequest_issued hrun trivial⟩

end Invoicing
