import Invoicing.Proofs.Generation.Plan
import Invoicing.Proofs.Reconciliation.Unchanged
import Invoicing.Proofs.Timeline.Order

/-!
# Histories of calls

A `History` are calls for the invoices of one account, each with all invoices so far. What holds
along a history is that books are kept and that all ids were minted (`Issued`); `Issued.settled` is
the step of a call that settles its plan. If prices are finite and not negative, no more is needed
for every charge to be fair (`History.issued`), and after a call that is answered the terms in force
are those of its plan, subscriptions marked off aside (`History.terms_perm`).
-/

namespace Invoicing

/-- A request for an invoice, who it was made to and how it was answered. -/
structure Call where
  invoicer : Invoicer
  request : InvoiceRequest
  answer : Except Fault (Option Invoice)

/-- The invoice that a call was answered with, if there was one. -/
def Call.invoices (c : Call) : List Invoice :=
  match c.answer with
  | .ok o => o.toList
  | .error _ => []

/-- All invoices that calls were answered with. -/
def invoicesOf (calls : List Call) : List Invoice := calls.flatMap (·.invoices)

/-- All items of the invoices that calls were answered with. -/
def itemsOf (calls : List Call) : List Item := (invoicesOf calls).flatMap (·.items)

/-- Calls made one after the other, each with all invoices so far, and the session after them. A
call that fails leaves the invoices as they are. -/
inductive History [TimeZones] : List Call → Session → Prop
  | start (s : Session) : History [] s
  | call {calls : List Call} {s s' : Session} {c : Call} : History calls s →
      c.request.issued = invoicesOf calls →
      (c.invoicer.generate c.request).from_ s = (c.answer, s') → History (calls ++ [c]) s'

/-- The call for a request, as it is answered in a session. -/
def Call.made [TimeZones] (v : Invoicer) (r : InvoiceRequest) (s : Session) : Call :=
  ⟨v, r, ((v.generate r).from_ s).1⟩

theorem History.made [TimeZones] {calls : List Call} {s : Session} (h : History calls s) (v : Invoicer)
    {r : InvoiceRequest} (hr : r.issued = invoicesOf calls) :
    History (calls ++ [.made v r s]) ((v.generate r).from_ s).2 := by
  refine h.call hr ?_
  simp only [Call.made]

theorem invoicesOf_append (calls : List Call) (c : Call) :
    invoicesOf (calls ++ [c]) = invoicesOf calls ++ c.invoices := by
  rw [invoicesOf, List.flatMap_append, List.flatMap_singleton]; rfl

theorem itemsOf_append (calls : List Call) (c : Call) :
    itemsOf (calls ++ [c]) = itemsOf calls ++ c.invoices.flatMap (·.items) := by
  rw [itemsOf, invoicesOf_append, List.flatMap_append]; rfl

/-! ## Books along a history -/

variable {Good : List Item → Charge → Prop} {items : List Item} {n m : Nat} {p : InvoicePlan}

/-- What all items issued keep to: there are books, and the ids of charges are among the first `n`
minted. -/
structure Issued (Good : List Item → Charge → Prop) (n : Nat) (items : List Item) : Prop where
  books : Books Good items
  minted : ∀ i ∈ chargesOf items, ∃ k < n, i.id = .minted k

/-- What is demanded of the drafts of a plan, whatever ids they get. -/
structure InvoicePlan.Sound (Good : List Item → Charge → Prop) (p : InvoicePlan) : Prop where
  unpinned : ∀ d ∈ p.drafts, d.isPinned = false
  charges : ∀ d ∈ p.drafts, d.kind ≠ .repair
  outside : ∀ d ∈ p.drafts, d.isOf p.off = false
  good : ∀ d ∈ p.drafts, ∀ id v h, Good [] (.proposed h (d.issuedAs id v))

/-- Whether what is demanded of charges does not depend on the invoices that items are lines of. -/
def Portable (Good : List Item → Charge → Prop) : Prop :=
  ∀ rs rs' c j, rs.map Item.unbound = rs'.map Item.unbound → c.item.unbound = j.unbound →
    Good rs c → Good rs' { c with item := j }

namespace Issued

theorem nil : Issued Good n [] := ⟨.nil, by simp [chargesOf]⟩

theorem mono (h : Issued Good n items) (hnm : n ≤ m) : Issued Good m items :=
  ⟨h.books, fun i hi => by
    obtain ⟨k, hk, hid⟩ := h.minted i hi
    exact ⟨k, hk.trans_le hnm, hid⟩⟩

theorem ids_proposed (p : InvoicePlan) (n : Nat) :
    (p.proposed n).map (·.id) = (List.range' (n + 1) p.drafts.length).map Id.minted :=
  map_id_numbered ..

theorem admissible (h : Issued Good n items) (hp : p.Sound Good) :
    Admissible Good items (p.proposed n) p.off where
  unpinned := p.forall_proposed fun d hd _ _ => hp.unpinned d hd
  charges := p.forall_proposed fun d hd _ _ => hp.charges d hd
  outside := p.forall_proposed fun d hd _ _ => hp.outside d hd
  good := p.forall_proposed fun d hd id v => hp.good d hd id v
  fresh := by
    rw [List.map_append, ids_proposed]
    have hinj : Function.Injective Id.minted := fun a b h => Id.minted.inj h
    refine List.nodup_append.2 ⟨h.books.ids, List.Nodup.map hinj List.nodup_range',
      fun a ha b hb => ?_⟩
    obtain ⟨i, hi, rfl⟩ := List.mem_map.1 ha
    obtain ⟨k, hk, hid⟩ := h.minted i hi
    obtain ⟨l, hl, rfl⟩ := List.mem_map.1 hb
    have := (List.mem_range'_1.1 hl).1
    rw [hid]
    exact fun heq => by have := hinj heq; omega

theorem kept (h : Issued Good n items) (hp : p.Sound Good)
    (hgood : ∀ rs c, Good rs c → c.Comparable ∧ ∀ d ∈ c.item.rate, d.isFinite)
    (hsub : ((termsInForce items).filter (!·.isOf p.off)).Subperm (p.drafts.map Item.terms))
    (m : Nat) : ∃ r issued rest vs,
      reconciled (p.repairIds m) items (p.proposed m) p.off = .ok r ∧ r.difference.repairs = [] ∧
      Posting Good items (p.proposed m) p.off (p.repairIds m) issued rest vs r := by
  have hproposed : (p.proposed m).map Item.terms = p.drafts.map Item.terms :=
    InvoicePlan.map_proposed Item.terms fun _ _ _ => rfl
  have hcomparable : ∀ i ∈ p.proposed m, ∀ k, (Charge.proposed k i).Comparable :=
    p.forall_proposed fun d hd id v k => (hgood _ _ (hp.good d hd id v k)).1
  obtain ⟨r, hr, hnone⟩ : ∃ r, reconciled (p.repairIds m) items (p.proposed m) p.off = .ok r ∧
      r.difference.repairs = [] := h.books.reconciled_kept hgood hcomparable (hproposed ▸ hsub)
  obtain ⟨issued, rest, vs, post⟩ := h.books.posting hr
  exact ⟨r, issued, rest, vs, hr, hnone, post⟩

variable {o : Option Invoice} {issued rest : List Charge} {vs : List (Charge × Verdict)}
  {r : Reconciliation}

/-- What is left of a plan, invoiced: books are kept, the terms in force are those of the plan. -/
theorem settled (h : Issued Good n items) (hp : p.Sound Good) (hport : Portable Good)
    (post : Posting Good items (p.proposed n) p.off (p.repairIds n) issued rest vs r)
    (hv : StandAfter Good items (p.repairIds n) vs)
    (ho : o = none ∧ r.delta = [] ∨ o = some (p.invoice n r.delta)) :
    Issued Good (n + p.drafts.length + 1) (items ++ o.toList.flatMap (·.items)) ∧
    (termsInForce (items ++ o.toList.flatMap (·.items))).Perm
      ((termsInForce items).filter (·.isOf p.off) ++ p.drafts.map Item.terms) := by
  have had := h.admissible hp
  have hlines : (items ++ r.delta).map Item.unbound =
      (items ++ o.toList.flatMap (·.items)).map Item.unbound := by
    rw [List.map_append, List.map_append, InvoicePlan.unbound_invoice r ho]
  refine ⟨⟨(post.books had h.books hv).relabel hlines hport, fun i hi => ?_⟩, ?_⟩
  · obtain ⟨j, hj, hij⟩ := Item.mem_congr_unbound (chargesOf_relabel hlines) hi
    rw [← Item.congr_unbound hij (·.id) fun _ => rfl]
    rw [chargesOf_append, post.chargesOf_delta had] at hj
    rcases List.mem_append.1 hj with hj | hj
    · obtain ⟨k, hk, hid⟩ := h.minted j hj
      exact ⟨k, by omega, hid⟩
    · obtain ⟨c, hc, rfl⟩ := List.mem_map.1 hj
      have hmem := List.mem_map_of_mem (f := (·.id)) (post.mem_rest hc).1
      rw [ids_proposed] at hmem
      obtain ⟨k, hk, hid⟩ := List.mem_map.1 hmem
      have := List.mem_range'_1.1 hk
      exact ⟨k, by omega, hid.symm⟩
  · rw [← termsInForce_relabel hlines,
      ← InvoicePlan.map_proposed (n := n) Item.terms fun _ _ _ => rfl]
    exact post.terms_perm (h.books.apart had) had hv

end Issued

/-! ## Prices that are not negative -/

/-- What is demanded of charges whose prices are finite and not negative. -/
structure Priced (currency : Currency) (_ : List Item) (c : Charge) : Prop where
  fair : c.Fair currency
  rate : ∀ d ∈ c.item.rate, d.isFinite

variable {currency : Currency}

theorem Charge.Fair.relabel {c : Charge} {j : Item} (h : c.item.unbound = j.unbound)
    (hc : c.Fair currency) : ({ c with item := j } : Charge).Fair currency := by
  have hkind := Item.congr_unbound h (·.kind) fun _ => rfl
  have hrate := Item.congr_unbound h (·.rate) fun _ => rfl
  have hactive : ({ c with item := j } : Charge).isActive = c.isActive :=
    (Item.congr_unbound h (fun i => ({ c with item := i } : Charge).isActive) fun _ => rfl).symm
  refine ⟨⟨hc.comparable.1, ?_⟩, hc.currency_eq, ?_, ?_, ?_⟩
  · rw [← hrate]; exact hc.comparable.2
  · rw [← hkind]; exact hc.charge
  · rw [hactive]; exact hc.nonneg
  · rw [← hkind, hactive]; exact hc.whole

theorem Priced.portable : Portable (Priced currency) := fun _ _ _ _ _ hij hc =>
  ⟨hc.fair.relabel hij, by rw [← Item.congr_unbound hij (·.rate) fun _ => rfl]; exact hc.rate⟩

/-- Whether all prices of a timeline are finite. -/
def Timeline.FinitePrices (t : Timeline) : Prop :=
  ∀ e ∈ t.events, ∀ d, e.fixedPrice = some d ∨ e.recurringPrice = some d → d.isFinite

/-- Whether no price of a timeline is negative. -/
def Timeline.NonnegativePrices (t : Timeline) : Prop :=
  ∀ e ∈ t.events, ∀ d, e.fixedPrice = some d ∨ e.recurringPrice = some d → 0 ≤ d.toRat

/-- What is assumed of a call: it is answered with the billing modes at the start, in one currency,
and for prices that are finite and not negative. -/
structure Invoicer.Proper (currency : Currency) (v : Invoicer) (r : InvoiceRequest) : Prop where
  modes : v.rules.modes = .initial
  currency_eq : ∀ k, v.currencyOf r.currency = .ok k → k = currency
  finite : ∀ t ∈ r.timeline, t.FinitePrices
  nonnegative : ∀ t ∈ r.timeline, t.NonnegativePrices

theorem Billing.ChargeOf.issuedAs {b : Billing} {rounding : Option RoundingMode} {e : BillingEvent}
    {i : Item} (h : b.ChargeOf rounding e i) (id : Id) (invoice : Option Id) :
    b.ChargeOf rounding e (i.issuedAs id invoice) := ⟨h.subscription, h.start_le, h.amount⟩

namespace Invoicer

theorem standAfter_priced {issued rest : List Charge} {vs : List (Charge × Verdict)}
    {result : Reconciliation} (h : Issued (Priced currency) n items)
    (hp : p.Sound (Priced currency))
    (post : Posting (Priced currency) items (p.proposed n) p.off (p.repairIds n) issued rest vs
      result) : StandAfter (Priced currency) items (p.repairIds n) vs :=
  post.standAfter (h.admissible hp) (fun _ _ hc => hc.fair)
    fun _ _ hc _ _ _ _ hitem hrev => ⟨hrev.fair, by rw [hitem]; exact hc.rate⟩

variable [TimeZones] {v : Invoicer} {r : InvoiceRequest} {t : Timeline}

theorem Planned.mem_drafts (h : Planned v r t p) {d : Item} (hd : d ∈ p.drafts) :
    ∃ e ∈ t.events, e.subscription ∉ t.off ∧
      Billing.ChargeOf ⟨p.account, p.target, .currency p.currency, none⟩ v.rules.rounding e d :=
  Billing.mem_due rfl h.drafts hd

theorem Planned.sound (h : Planned v r t p)
    (hgood : ∀ e ∈ t.events, ∀ i,
      Billing.ChargeOf ⟨p.account, p.target, .currency p.currency, none⟩ v.rules.rounding e i →
      ∀ k, Good [] (.proposed k i)) : p.Sound Good where
  unpinned d hd := by
    obtain ⟨e, -, -, hof⟩ := h.mem_drafts hd
    exact hof.isPinned
  charges d hd := by
    obtain ⟨e, -, -, hof⟩ := h.mem_drafts hd
    rcases hof.kind with hk | hk <;> simp [hk]
  outside d hd := by
    obtain ⟨e, -, hoff, hof⟩ := h.mem_drafts hd
    rw [h.off]
    simp [Item.isOf, hof.subscription, hoff]
  good d hd id invoice k := by
    obtain ⟨e, he, -, hof⟩ := h.mem_drafts hd
    exact hgood e he _ (hof.issuedAs id invoice) k

theorem Proper.sound (h : Proper currency v r) (hp : Planned v r t p) :
    p.Sound (Priced currency) := by
  have ht : t ∈ r.timeline := hp.timeline
  obtain rfl := h.currency_eq _ hp.currency
  refine hp.sound fun e he i hof k => ⟨?_, ?_⟩
  · exact hof.fair rfl (fun d hd => h.finite t ht e he d (.inl hd))
      (fun d hd => h.finite t ht e he d (.inr hd)) (fun d hd => h.nonnegative t ht e he d (.inl hd))
      (fun d hd => h.nonnegative t ht e he d (.inr hd)) k
  · exact hof.rate_finite fun d hd => h.finite t ht e he d (.inr hd)

theorem Proper.settled (h : Proper currency v r) (hp : Planned v r t p) {o : Option Invoice}
    (hissued : Issued (Priced currency) n items) (ho : p.settled n items = .ok o) :
    Issued (Priced currency) (n + p.drafts.length + 1) (items ++ o.toList.flatMap (·.items)) ∧
    (termsInForce (items ++ o.toList.flatMap (·.items))).Perm
      ((termsInForce items).filter (·.isOf p.off) ++ p.drafts.map Item.terms) := by
  have hsound := h.sound hp
  obtain ⟨result, hresult, ho⟩ := InvoicePlan.settled_eq_ok ho
  obtain ⟨issued, rest, vs, post⟩ := hissued.books.posting hresult
  exact hissued.settled hsound Priced.portable post (standAfter_priced hissued hsound post) ho

theorem generate_cases (hmodes : v.rules.modes = .initial) {s s' : Session}
    {answer : Except Fault (Option Invoice)} (h : (v.generate r).from_ s = (answer, s')) :
    s.minted ≤ s'.minted ∧ ((∃ f, answer = .error f) ∨ (v.plan r = .ok none ∧ answer = .ok none) ∨
      ∃ t p o, Planned v r t p ∧ p.settled s.minted (r.issued.flatMap (·.items)) = .ok o ∧
        answer = .ok o ∧ s.minted + p.drafts.length < s'.minted) := by
  obtain ⟨s'', hrun, hle, hlt⟩ := generate_from (r := r) hmodes s
  obtain ⟨hanswer, rfl⟩ := Prod.ext_iff.1 (h.symm.trans hrun)
  dsimp only at hanswer hlt hle
  refine ⟨hle, ?_⟩
  cases answer with
  | error f => exact .inl ⟨f, rfl⟩
  | ok o =>
    obtain ⟨plan, hplan, ho⟩ := bind_eq_ok_iff.1 hanswer.symm
    cases plan with
    | none =>
      obtain rfl := Except.ok.inj ho
      exact .inr (.inl ⟨hplan, rfl⟩)
    | some p =>
      obtain ⟨t, hp⟩ := planned_of_plan hplan
      exact .inr (.inr ⟨t, p, o, hp, ho, rfl, hlt p hplan⟩)

theorem plan_ne_none (ht : r.timeline = some t) (hlength : t.length ≠ 0)
    (hon : t.accountOff = false) : v.plan r ≠ .ok none := by
  intro h
  obtain ⟨currency, -, h⟩ := bind_eq_ok_iff.1 h
  have hfilter : (r.timeline.filter fun t => t.length ≠ 0) = some t := by
    simp [ht, Option.filter, hlength]
  simp only [hfilter, planFrom, hon] at h
  obtain ⟨today, -, h⟩ := bind_eq_ok_iff.1 h
  split at h
  · simp at h
  · obtain ⟨drafts, -, h⟩ := bind_eq_ok_iff.1 h
    simp at h

theorem settled_of_answer (hmodes : v.rules.modes = .initial) (ht : r.timeline = some t)
    (hlength : t.length ≠ 0) (hon : t.accountOff = false) {s s' : Session} {o : Option Invoice}
    (h : (v.generate r).from_ s = (.ok o, s')) :
    ∃ p, Planned v r t p ∧ p.settled s.minted (r.issued.flatMap (·.items)) = .ok o ∧
      s.minted + p.drafts.length < s'.minted := by
  obtain ⟨-, ⟨f, hf⟩ | ⟨hnone, -⟩ | ⟨t', p, o', hp, ho, hanswer, hlt⟩⟩ := generate_cases hmodes h
  · simp at hf
  · exact absurd hnone (plan_ne_none ht hlength hon)
  · obtain rfl : o = o' := Except.ok.inj hanswer
    obtain rfl : t = t' := Option.some.inj (ht.symm.trans hp.timeline)
    exact ⟨p, hp, ho, hlt⟩

end Invoicer

/-- Along a history of proper calls books are kept, and every charge is fair. -/
theorem History.issued [TimeZones] {calls : List Call} {s : Session} (h : History calls s)
    (hc : ∀ c ∈ calls, c.invoicer.Proper currency c.request) :
    Issued (Priced currency) s.minted (itemsOf calls) := by
  induction h with
  | start s => exact .nil
  | @call calls s s' c _ hissued hrun ih =>
    have hbefore := ih fun x hx => hc x (by simp [hx])
    have hproper := hc c (by simp)
    rw [itemsOf_append]
    obtain ⟨hle, ⟨f, hanswer⟩ | ⟨-, hanswer⟩ | ⟨t, p, o, hp, ho, hanswer, hlt⟩⟩ :=
      Invoicer.generate_cases hproper.modes hrun
    · simpa [Call.invoices, hanswer] using hbefore.mono hle
    · simpa [Call.invoices, hanswer] using hbefore.mono hle
    · rw [hissued] at ho
      rw [show c.invoices = o.toList by rw [Call.invoices, hanswer]]
      exact (hproper.settled hp hbefore ho).1.mono hlt

/-! ## A first account -/

open TimeZones.UtcOnly

/-- The middle of the first month. -/
def midMonth : Date := { Clock.firstDay with day := 16, day_mem := by decide }

/-- An invoicer with all settings as they are at the start. -/
def firstInvoicer : Invoicer := .ofConfig .initial .initial .initial

/-- A request for the invoice of some events up to a target date. -/
def requestFor (events : List BillingEvent) (issued : List Invoice) (target : Date) :
    InvoiceRequest :=
  ⟨.known 0, some (timelineOf events), issued, target, .null, none⟩

/-- The start of a subscription. -/
def firstEvent : BillingEvent := monthlyFrom 1 Clock.firstDay (some (.ofInt 31))

/-- The request for the first month of the subscription. -/
def firstRequest : InvoiceRequest := requestFor [firstEvent] [] Clock.firstDay

/-- The call for the first month of the subscription. -/
def firstCall : Call := .made firstInvoicer firstRequest .start

/-- The session after that call. -/
def firstSession : Session := ((firstInvoicer.generate firstRequest).from_ .start).2

/-- The cancellation of the subscription in the middle of the month. -/
def cancellation : BillingEvent := monthlyFrom 1 midMonth none

/-- The request for the first month after the cancellation. -/
def cancelledRequest : InvoiceRequest :=
  requestFor [firstEvent, cancellation] firstCall.invoices Clock.firstDay

theorem currencyOf_first : firstInvoicer.currencyOf .null = .ok .usd := by rfl

theorem proper_requestFor {events : List BillingEvent}
    (h : ∀ e ∈ events, ∀ d, e.fixedPrice = some d ∨ e.recurringPrice = some d →
      d.isFinite ∧ 0 ≤ d.toRat) (issued : List Invoice) (target : Date) :
    firstInvoicer.Proper .usd (requestFor events issued target) where
  modes := rfl
  currency_eq k hk := (Except.ok.inj (currencyOf_first.symm.trans hk)).symm
  finite := by
    rintro t ⟨⟩ e he d hd
    exact (h e (mem_timelineOf he) d hd).1
  nonnegative := by
    rintro t ⟨⟩ e he d hd
    exact (h e (mem_timelineOf he) d hd).2

theorem firstCall_history : History [firstCall] firstSession :=
  (History.start .start).made firstInvoicer rfl

theorem firstEvent_price (d : Decimal)
    (h : firstEvent.fixedPrice = some d ∨ firstEvent.recurringPrice = some d) :
    d.isFinite ∧ 0 ≤ d.toRat := by
  obtain rfl : Decimal.ofInt 31 = d := by simpa [firstEvent, monthlyFrom] using h
  exact ⟨rfl, by decide +kernel⟩

theorem firstCall_proper : ∀ c ∈ [firstCall], c.invoicer.Proper .usd c.request := by
  simp only [List.mem_singleton, forall_eq]
  exact proper_requestFor (by simpa using firstEvent_price) _ _

theorem cancelledRequest_proper : firstInvoicer.Proper .usd cancelledRequest := by
  refine proper_requestFor ?_ _ _
  simp only [List.forall_mem_cons]
  exact ⟨firstEvent_price, by simp [cancellation, monthlyFrom], by simp⟩

theorem cancelledRequest_issued : cancelledRequest.issued = invoicesOf [firstCall] := by
  simp [invoicesOf, cancelledRequest, requestFor]

theorem cancelledRequest_invoiced :
    ∃ i s, (firstInvoicer.generate cancelledRequest).from_ firstSession = (.ok (some i), s) := by
  have hsome :
      ((firstInvoicer.generate cancelledRequest).from_ firstSession).1.toOption.join.isSome =
      true := by decide +kernel
  rcases hrun : (firstInvoicer.generate cancelledRequest).from_ firstSession with ⟨f | _ | i, s⟩
  · simp [hrun, Except.toOption] at hsome
  · simp [hrun, Except.toOption] at hsome
  · exact ⟨i, s, rfl⟩

end Invoicing
