import Invoicing.Proofs.Generation.History

/-!
# Step by step as at once

As long as a timeline does not change, a later call proposes all charges invoiced so far again, so
none is repaired. The invariant `Steady` says that the items of all invoices are the drafts due up
to the targets asked for so far. Target dates may come in any order: a call is made for the latest
one invoiced at least, and no charge invoiced starts after that (`Steady.reached_eq`).
-/

namespace Invoicing

/-- What is demanded of charges that are never repaired. -/
structure Untouched (rs : List Item) (c : Charge) : Prop where
  repairs : rs = []
  amount : c.amount.amount.isFinite
  rate : ∀ d ∈ c.item.rate, d.isFinite

variable {items drafts : List Item} {n : Nat} {p : InvoicePlan} {targets : List Date}
  {target : Date}
  {invoices : List Invoice}

theorem Untouched.portable : Portable Untouched := fun _ _ _ _ hrs hij hc =>
  ⟨List.map_eq_nil_iff.1 (by rw [← hrs, hc.repairs]; rfl), hc.amount,
    by rw [← Item.congr_unbound hij (·.rate) fun _ => rfl]; exact hc.rate⟩

theorem Untouched.comparable {rs : List Item} {c : Charge} (h : Untouched rs c) : c.Comparable :=
  ⟨h.amount, fun d hd => Decimal.isSignaling_of_isFinite (h.rate d hd)⟩

theorem termsInForce_unrepaired (hb : Books Untouched items) (h : ∀ i ∈ items, i.kind ≠ .repair) :
    termsInForce items = items.map Item.terms := by
  have hcharges : chargesOf items = items := List.filter_eq_self.2 fun i hi => by simpa using h i hi
  rw [termsInForce, hcharges]
  refine List.filterMap_eq_map_iff_forall_eq_some.2 fun i hi => ?_
  have hi' : i ∈ chargesOf items := by rw [hcharges]; exact hi
  obtain ⟨c, hc, hgood⟩ := hb.stands i hi' 0
  rw [Item.inForce?_of_issued hc]
  rw [hgood.repairs, Charge.issued_nil] at hc
  obtain rfl := Except.ok.inj hc
  rw [if_pos (isActive_proposed (hb.unpinned i hi) (h i hi) 0)]
  rfl

/-- Whether an item starts up to one of some target dates. -/
def Item.reached (targets : List Date) (i : Item) : Bool := targets.any (i.start ≤ ·)

/-- What holds of the invoices made for some targets in turn, if `drafts` are due in the end. -/
structure Steady (drafts : List Item) (targets : List Date) (invoices : List Invoice) (n : Nat) :
    Prop where
  issued : Issued Untouched n (invoices.flatMap (·.items))
  unrepaired : ∀ i ∈ invoices.flatMap (·.items), i.kind ≠ .repair
  drafts : ((invoices.flatMap (·.items)).map Item.draft).Perm
    ((drafts.filter (·.reached targets)).map Item.draft)
  covered : ∀ i ∈ invoices.flatMap (·.items), ∃ v ∈ invoices, i.start ≤ v.target
  asked : ∀ v ∈ invoices, ∃ t ∈ targets, v.target ≤ t

namespace Steady

theorem nil (drafts : List Item) (n : Nat) : Steady drafts [] [] n where
  issued := .nil
  unrepaired := by simp
  drafts := by simp [Item.reached]
  covered := by simp
  asked := by simp

/-- What the next call is made for are the charges that start up to any target asked for. -/
theorem reached_eq (h : Steady drafts targets invoices n) (target : Date) {i : Item}
    (hi : i ∈ drafts) :
    i.reached (targets ++ [target]) = decide (i.start ≤ Invoicer.latestTarget target invoices) := by
  obtain ⟨hle, hinvoiced⟩ := Invoicer.le_latestTarget target invoices
  have hany : i.reached (targets ++ [target]) = true ↔
      i.reached targets = true ∨ i.start ≤ target := by simp [Item.reached]
  rw [Bool.eq_iff_iff, hany, decide_eq_true_iff]
  constructor
  · rintro (hreached | hstart)
    · -- The charge is invoiced already, on an invoice for a target that it does not start after.
      have hmem := List.mem_map_of_mem (f := Item.draft) (List.mem_filter.2 ⟨hi, hreached⟩)
      obtain ⟨j, hj, hji⟩ := List.mem_map.1 (h.drafts.mem_iff.2 hmem)
      obtain ⟨v, hv, hjv⟩ := h.covered j hj
      have hstart : j.start = i.start := congrArg (·.start) hji
      rw [← hstart]
      exact hjv.trans (hinvoiced v hv)
    · exact hstart.trans hle
  · intro hstart
    rcases Invoicer.latestTarget_mem target invoices with heq | ⟨v, hv, heq⟩
    · exact .inr (heq ▸ hstart)
    · obtain ⟨t, ht, hvt⟩ := h.asked v hv
      exact .inl (List.any_eq_true.2 ⟨t, ht, by simpa using (heq ▸ hstart).trans hvt⟩)

theorem drafts_eq (h : Steady drafts targets invoices n)
    (hdrafts : p.drafts = drafts.filter (·.start ≤ p.target))
    (htarget : p.target = Invoicer.latestTarget target invoices) :
    p.drafts = drafts.filter (·.reached (targets ++ [target])) := by
  rw [hdrafts, htarget]
  exact List.filter_congr fun i hi => (h.reached_eq target hi).symm

theorem filter_drafts (h : Steady drafts targets invoices n)
    (hdrafts : p.drafts = drafts.filter (·.reached (targets ++ [target]))) :
    (((invoices.flatMap (·.items)).map Item.draft)).Perm
      ((p.drafts.filter (·.reached targets)).map Item.draft) := by
  refine h.drafts.trans (List.Perm.of_eq (congrArg _ ?_))
  rw [hdrafts, List.filter_filter]
  refine List.filter_congr fun i _ => ?_
  cases hr : i.reached targets <;> simp [Item.reached] at hr ⊢
  exact .inl hr

/-- The mark of terms that start up to one of some target dates. -/
def mark (targets : List Date) (t : Terms) : Bool := targets.any (t.start ≤ ·)

theorem filter_proposed {β : Type} (g : Item → β) (hg : ∀ i id v, g (i.issuedAs id v) = g i) :
    ((p.proposed n).filter (mark targets ·.terms)).map g =
      (p.drafts.filter (·.reached targets)).map g :=
  filter_numbered _ _ g hg _ (fun _ _ _ => rfl) _

theorem terms_perm (h : Steady drafts targets invoices n) (hp : p.Sound Untouched)
    (hdrafts : p.drafts = drafts.filter (·.reached (targets ++ [target]))) :
    ((termsInForce (invoices.flatMap (·.items))).filter (!·.isOf p.off)).Perm
      (((p.proposed n).filter (mark targets ·.terms)).map Item.terms) := by
  rw [termsInForce_unrepaired h.issued.books h.unrepaired, filter_proposed _ fun _ _ _ => rfl]
  have hterms := (h.filter_drafts hdrafts).map Item.terms
  rw [List.map_map, List.map_map] at hterms
  refine (hterms.filter (!·.isOf p.off)).trans (List.Perm.of_eq (List.filter_eq_self.2 ?_))
  intro t ht
  obtain ⟨d, hd, rfl⟩ := List.mem_map.1 ht
  have hout : d.draft.terms.isOf p.off = false := hp.outside d (List.mem_of_mem_filter hd)
  simp [hout]

theorem settled (h : Steady drafts targets invoices n) (hp : p.Sound Untouched)
    (hdrafts : p.drafts = drafts.filter (·.start ≤ p.target))
    (htarget : p.target = Invoicer.latestTarget target invoices) {o : Option Invoice}
    (ho : p.settled n (invoices.flatMap (·.items)) = .ok o) :
    Steady drafts (targets ++ [target]) (invoices ++ o.toList) (n + p.drafts.length + 1) := by
  have hreached := h.drafts_eq hdrafts htarget
  have hforce := h.terms_perm hp hreached
  have hsound := h.issued.admissible hp
  have hstart : ∀ i ∈ p.proposed n, i.start ≤ p.target := p.forall_proposed fun d hd _ _ => by
    rw [hdrafts] at hd
    exact of_decide_eq_true (List.mem_filter.1 hd).2
  obtain ⟨r, hr, ho⟩ := InvoicePlan.settled_eq_ok ho
  have hsub := hforce.subperm.trans (List.filter_sublist.map _).subperm
  rw [InvoicePlan.map_proposed Item.terms fun _ _ _ => rfl] at hsub
  obtain ⟨r', issued, rest, vs, hr', hnone, post⟩ :=
    h.issued.kept hp (fun _ _ hc => ⟨hc.comparable, hc.rate⟩) hsub n
  obtain rfl : r = r' := Except.ok.inj (hr.symm.trans hr')
  obtain ⟨hissued, -⟩ := h.issued.settled hp Untouched.portable post
    (post.standAfter_kept (fun _ _ _ hc => ⟨hc.repairs, hc.amount, hc.rate⟩) hnone) ho
  have hdelta : r.delta = rest.map (·.item) := by rw [post.delta_eq, hnone, List.append_nil]
  have hlines := InvoicePlan.unbound_invoice r ho
  -- A line of the new invoice, if there is one, is a proposal.
  have hline : ∀ i ∈ o.toList.flatMap (·.items), o = some (p.invoice n r.delta) ∧
      ∃ j ∈ p.proposed n, j.unbound = i.unbound := by
    intro i hi
    obtain ⟨j, hj, hji⟩ := Item.mem_congr_unbound hlines.symm hi
    rw [hdelta] at hj
    obtain ⟨c, hc, rfl⟩ := List.mem_map.1 hj
    refine ⟨ho.resolve_left fun hno => ?_, _, (post.mem_rest hc).1, hji⟩
    rw [hno.1] at hi
    simp at hi
  have hnew : ((o.toList.flatMap (·.items)).map Item.draft).Perm
      ((p.drafts.filter (!·.reached targets)).map Item.draft) := by
    rw [Item.map_congr_unbound hlines Item.draft fun _ => rfl, hdelta]
    refine ((post.new_perm hnone _ hforce).map Item.draft).trans (List.Perm.of_eq ?_)
    exact filter_numbered _ _ Item.draft (fun _ _ _ => rfl) _ (fun _ _ _ => rfl) _
  refine ⟨?_, ?_, ?_, ?_, ?_⟩
  · rw [List.flatMap_append]
    exact hissued
  · intro i hi
    rw [List.flatMap_append] at hi
    rcases List.mem_append.1 hi with hi | hi
    · exact h.unrepaired i hi
    · obtain ⟨-, j, hj, hji⟩ := hline i hi
      rw [← Item.congr_unbound hji (·.kind) fun _ => rfl]
      exact hsound.charges j hj
  · rw [List.flatMap_append, List.map_append, ← hreached]
    refine ((h.filter_drafts hreached).append hnew).trans ?_
    rw [← List.map_append]
    exact (List.filter_append_perm (·.reached targets) p.drafts).map _
  · intro i hi
    rw [List.flatMap_append] at hi
    rcases List.mem_append.1 hi with hi | hi
    · obtain ⟨v, hv, hle⟩ := h.covered i hi
      exact ⟨v, List.mem_append_left _ hv, hle⟩
    · obtain ⟨hsome, j, hj, hji⟩ := hline i hi
      refine ⟨p.invoice n r.delta, by simp [hsome], ?_⟩
      rw [← Item.congr_unbound hji (·.start) fun _ => rfl]
      exact hstart j hj
  · intro v hv
    rcases List.mem_append.1 hv with hv | hv
    · obtain ⟨t, ht, hle⟩ := h.asked v hv
      exact ⟨t, List.mem_append_left _ ht, hle⟩
    · rcases ho with ⟨rfl, -⟩ | rfl
      · simp at hv
      obtain rfl : v = p.invoice n r.delta := by simpa using hv
      change ∃ t ∈ _, p.target ≤ t
      rw [htarget]
      rcases Invoicer.latestTarget_mem target invoices with heq | ⟨w, hw, heq⟩
      · exact ⟨target, by simp, heq.le⟩
      · obtain ⟨t, ht, hle⟩ := h.asked w hw
        exact ⟨t, List.mem_append_left _ ht, heq.le.trans hle⟩

end Steady

/-! ## Histories of one timeline -/

/-- What an account is billed by from call to call. -/
structure Mandate where
  account : Id
  timeline : Timeline
  rounding : Option RoundingMode
  currency : Currency

namespace Mandate

/-- Whether a call is for what an account is billed by, with the billing modes at the start. -/
structure Governs (m : Mandate) (v : Invoicer) (r : InvoiceRequest) : Prop where
  rules : v.rules = ⟨m.rounding, .initial⟩
  account : r.account = m.account
  timeline : r.timeline = some m.timeline
  currency : v.currencyOf r.currency = .ok m.currency

variable {m : Mandate} {v : Invoicer} {r : InvoiceRequest} {t : Timeline}

theorem Governs.modes (h : m.Governs v r) : v.rules.modes = .initial := by rw [h.rules]

section Histories

variable [TimeZones]

/-- The charges due up to a target date. -/
def due (m : Mandate) (target : Date) : Except Fault (List Item) :=
  Billing.due ⟨m.account, target, .currency m.currency, none⟩ m.rounding m.timeline

theorem Governs.due_eq (h : m.Governs v r) (hp : Invoicer.Planned v r m.timeline p) :
    m.due p.target = .ok p.drafts := by
  have hcurrency : p.currency = m.currency := Except.ok.inj (hp.currency.symm.trans h.currency)
  have haccount : p.account = m.account := hp.account.trans h.account
  rw [due, ← hcurrency, ← haccount, ← hp.drafts, h.rules]

theorem Governs.sound (hprices : m.timeline.FinitePrices)
    (hp : Invoicer.Planned v r m.timeline p) : p.Sound Untouched :=
  hp.sound fun e he _ hof _ =>
    ⟨rfl, hof.amount_finite rfl (fun d hd => hprices e he d (.inl hd)) fun d hd =>
      hprices e he d (.inr hd), hof.rate_finite fun d hd => hprices e he d (.inr hd)⟩

theorem due_filter {target target' : Date} {xs ys : List Item} (ht : target ≤ target')
    (h : m.due target = .ok xs) (h' : m.due target' = .ok ys) :
    xs = ys.filter (·.start ≤ target) := by
  have hpart := Billing.due_target (b := ⟨m.account, target', .currency m.currency, none⟩) ht h'
  exact Except.ok.inj (h.symm.trans hpart)

theorem steady (hlength : m.timeline.length ≠ 0) (hon : m.timeline.accountOff = false)
    (hprices : m.timeline.FinitePrices) {last : Date} {drafts : List Item}
    (hlast : m.due last = .ok drafts) {calls : List Call} {s : Session} (h : History calls s)
    (hcalls : ∀ c ∈ calls, m.Governs c.invoicer c.request)
    (hok : ∀ c ∈ calls, ∃ o, c.answer = .ok o)
    (hmax : ∀ c ∈ calls, c.request.target ≤ last) :
    Steady drafts (calls.map (·.request.target)) (invoicesOf calls) s.minted := by
  induction h with
  | start s => exact .nil drafts _
  | @call calls s s' c _ hissued hrun ih =>
    have hbefore := ih (fun x hx => hcalls x (by simp [hx])) (fun x hx => hok x (by simp [hx]))
      fun x hx => hmax x (by simp [hx])
    have hgoverns := hcalls c (by simp)
    obtain ⟨o, ho⟩ := hok c (by simp)
    rw [ho] at hrun
    obtain ⟨p, hp, hsettled, hlt⟩ :=
      Invoicer.settled_of_answer hgoverns.modes hgoverns.timeline hlength hon hrun
    have htarget := hp.target
    rw [hissued] at hsettled htarget
    have hle : p.target ≤ last := by
      rw [htarget]
      refine Invoicer.latestTarget_le (hmax c (by simp)) fun i hi => ?_
      obtain ⟨t, ht, hit⟩ := hbefore.asked i hi
      obtain ⟨x, hx, rfl⟩ := List.mem_map.1 ht
      exact hit.trans (hmax x (by simp [hx]))
    have hafter := hbefore.settled (Governs.sound hprices hp)
      (due_filter hle (hgoverns.due_eq hp) hlast) htarget hsettled
    rw [List.map_append, invoicesOf_append, show c.invoices = o.toList by rw [Call.invoices, ho]]
    exact ⟨hafter.issued.mono hlt, hafter.unrepaired, hafter.drafts, hafter.covered, hafter.asked⟩

/-- Calls for target dates in any order, each with all invoices so far, repair nothing and invoice
the same items as a single call for the latest of the dates. -/
theorem incremental_eq_batch (hlength : m.timeline.length ≠ 0) (hon : m.timeline.accountOff = false)
    (hprices : m.timeline.FinitePrices) {calls : List Call} {s : Session} (h : History calls s)
    (hcalls : ∀ c ∈ calls, m.Governs c.invoicer c.request)
    (hok : ∀ c ∈ calls, ∃ o, c.answer = .ok o)
    (hgoverns : m.Governs v r) (hfirst : r.issued = [])
    (hlast : r.target ∈ calls.map (·.request.target))
    (hmax : ∀ c ∈ calls, c.request.target ≤ r.target)
    {s₁ s₂ : Session} {o : Option Invoice} (hrun : (v.generate r).from_ s₁ = (.ok o, s₂)) :
    (∀ i ∈ itemsOf calls, i.kind ≠ .repair) ∧
    ((itemsOf calls).map Item.draft).Perm ((o.toList.flatMap (·.items)).map Item.draft) := by
  obtain ⟨p, hp, hsettled, -⟩ :=
    Invoicer.settled_of_answer hgoverns.modes hgoverns.timeline hlength hon hrun
  have htarget := hp.target
  rw [hfirst] at hsettled htarget
  have hdue := hgoverns.due_eq hp
  rw [show p.target = r.target from htarget] at hdue
  have hall := steady hlength hon hprices hdue h hcalls hok hmax
  -- The single call is a history of its own, for one target.
  have hself := due_filter le_rfl hdue hdue
  have hone := (Steady.nil p.drafts s₁.minted).settled (Governs.sound hprices hp)
    (by rw [show p.target = r.target from htarget]; exact hself) htarget
    hsettled
  have hreached : ∀ targets : List Date, r.target ∈ targets →
      p.drafts.filter (·.reached targets) = p.drafts := fun targets ht =>
    List.filter_eq_self.2 fun i hi => List.any_eq_true.2
      ⟨r.target, ht, (List.filter_eq_self.1 hself.symm) i hi⟩
  have hitems := hall.drafts
  have hsingle := hone.drafts
  rw [hreached _ hlast] at hitems
  rw [hreached _ (by simp)] at hsingle
  exact ⟨hall.unrepaired, hitems.trans hsingle.symm⟩

end Histories

/-! ## Two subscriptions -/

open TimeZones.UtcOnly

/-- The start of a second subscription in the middle of the month. -/
def secondEvent : BillingEvent := monthlyFrom 2 midMonth (some (.ofInt 31))

/-- Two subscriptions, billed as all settings are at the start. -/
def twoStarts : Mandate :=
  ⟨.known 0, timelineOf [firstEvent, secondEvent], some Config.initial.rounding, .usd⟩

/-- The request for the first month of both after some invoices, up to a target date. -/
def twoStartsRequest (issued : List Invoice) (target : Date) : InvoiceRequest :=
  requestFor [firstEvent, secondEvent] issued target

/-- The call on the first day of the month. -/
def earlyCall : Call := .made firstInvoicer (twoStartsRequest [] Clock.firstDay) .start

/-- The session after that call. -/
def earlySession : Session :=
  ((firstInvoicer.generate (twoStartsRequest [] Clock.firstDay)).from_ .start).2

/-- The call in the middle of the month. -/
def lateCall : Call :=
  .made firstInvoicer (twoStartsRequest (invoicesOf [earlyCall]) midMonth) earlySession

theorem governs_twoStarts (issued : List Invoice) (target : Date) :
    twoStarts.Governs firstInvoicer (twoStartsRequest issued target) :=
  ⟨rfl, rfl, rfl, currencyOf_first⟩

theorem twoStarts_prices : twoStarts.timeline.FinitePrices := by
  intro e he d hd
  rcases List.mem_pair.1 (mem_timelineOf he) with rfl | rfl
  · exact (firstEvent_price d hd).1
  · obtain rfl : Decimal.ofInt 31 = d := by simpa [secondEvent, monthlyFrom] using hd
    rfl

/-- Two subscriptions, one billed on the first day of a month and the other in the middle, are
invoiced as by a single call in the middle. -/
theorem incremental_eq_batch_two :
    ∃ o s, (firstInvoicer.generate (twoStartsRequest [] midMonth)).from_ .start = (.ok o, s) ∧
      ((itemsOf [earlyCall, lateCall]).map Item.draft).Perm
        ((o.toList.flatMap (·.items)).map Item.draft) := by
  have hanswered : ∀ c ∈ [earlyCall, lateCall], ∃ o, c.answer = .ok o := by
    simp only [List.forall_mem_cons]
    exact ⟨isOk_iff.1 (by decide +kernel), isOk_iff.1 (by decide +kernel), by simp⟩
  obtain ⟨o, ho⟩ : ∃ o,
      ((firstInvoicer.generate (twoStartsRequest [] midMonth)).from_ .start).1 = .ok o :=
    isOk_iff.1 (by decide +kernel)
  have hrun : (firstInvoicer.generate (twoStartsRequest [] midMonth)).from_ .start =
    (.ok o, ((firstInvoicer.generate (twoStartsRequest [] midMonth)).from_ .start).2) :=
      Prod.ext ho rfl
  have hhistory := ((History.start .start).made firstInvoicer
    (r := twoStartsRequest [] Clock.firstDay) rfl).made firstInvoicer
    (r := twoStartsRequest (invoicesOf [earlyCall]) midMonth) rfl
  have hgoverned : ∀ c ∈ [earlyCall, lateCall], twoStarts.Governs c.invoicer c.request := by
    simp only [List.forall_mem_cons]
    exact ⟨governs_twoStarts .., governs_twoStarts .., by simp⟩
  have hall := incremental_eq_batch (m := twoStarts) (by decide +kernel) (by decide +kernel)
    twoStarts_prices hhistory hgoverned hanswered (governs_twoStarts [] midMonth) rfl
    (by decide +kernel) (by decide +kernel) hrun
  exact ⟨o, _, hrun, hall.2⟩

end Mandate

end Invoicing
