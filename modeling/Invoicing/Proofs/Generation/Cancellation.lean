import Invoicing.Proofs.Generation.Coverage
import Invoicing.Proofs.Generation.Incremental
import Invoicing.Proofs.Generation.Pinned
import Invoicing.Proofs.Reconciliation.Cancelling

/-!
# Cancellations

A cancellation that comes in late only takes back. All that was invoiced up to the day on which it takes
effect is due still, so nothing new is charged, and what runs beyond that day is refunded, item by item:
the whole of it if it starts on the day or later, else the part behind the day
(`Mandate.cancellation_refunds`).
-/

namespace Invoicing

variable {currency : Currency} {day : Date}

/-! ## A plan up to the end of a subscription -/

theorem Item.filter_runsBeyond_outside {s : Id} {pinned : List Id} (hs : s ∉ pinned) (is : List Item) :
    (is.filter (!·.isOf pinned)).filter (·.runsBeyond s day) = is.filter (·.runsBeyond s day) := by
  rw [List.filter_filter]
  refine List.filter_congr fun i _ => ?_
  by_cases hi : i.runsBeyond s day
  · simp [hi, (runsBeyond_parts hi).2.1, isOf, hs]
  · simp [hi]

theorem Books.fresh {items : List Item} (hb : Books (Priced currency) items)
    (hunrepaired : ∀ i ∈ items, i.kind ≠ .repair) (pinned : List Id) (first : Nat) :
    ∃ cs, (Holdings.ofItems items pinned).issued first = .ok cs ∧
      cs.map (·.item) = items.filter (!·.isOf pinned) ∧
      (cs.filter (·.isActive)).map Charge.terms = (termsInForce items).filter (!·.isOf pinned) ∧
      (∀ c ∈ cs, c.Fresh currency) ∧ ∀ c ∈ cs, c.isActive := by
  obtain ⟨cs, hcs, hitems, hstands⟩ := hb.issued pinned first
  have hfresh : ∀ c ∈ cs, c.Fresh currency := by
    intro c hc
    obtain ⟨hstand, hgood⟩ := hstands c hc
    have hnone : c.item.repairsIn items = [] :=
      List.filter_eq_nil_iff.2 fun r hr => by simp [hunrepaired r hr]
    rw [hnone, Charge.issued_nil] at hstand
    exact ⟨(Except.ok.inj hstand).symm, hgood.fair, hgood.rate⟩
  have hcharges : chargesOf items = items :=
    List.filter_eq_self.2 fun i hi => by simpa using hunrepaired i hi
  refine ⟨cs, hcs, hcharges ▸ hitems, (filter_termsInForce_eq hitems fun c hc =>
    (hstands c hc).1).symm, hfresh, fun c hc => ?_⟩
  have hmem : c.item ∈ (chargesOf items).filter (!·.isOf pinned) := hitems ▸ List.mem_map_of_mem hc
  obtain ⟨hi, hk⟩ := mem_chargesOf.1 (List.mem_of_mem_filter hmem)
  rw [(hfresh c hc).eq]
  exact isActive_proposed (hb.unpinned _ hi) hk _

namespace InvoicePlan

variable {p : InvoicePlan} {n : Nat} {items drafts same gone : List Item} {s : Id}
  {cut : Option (Item × Item)} {o : Option Invoice}

theorem Sound.fresh (hp : p.Sound (Priced currency)) (n : Nat) :
    ∀ q ∈ proposals (p.proposed n), q.Fresh currency := by
  intro q hq
  obtain ⟨hmem, heq⟩ := proposals_eq_of_mem hq
  have hgood := p.forall_proposed (Q := fun i => ∀ k, Priced currency [] (.proposed k i))
    (fun d hd id v k => hp.good d hd id v k) _ hmem q.handle
  rw [← heq] at hgood
  exact ⟨heq, hgood.fair, hgood.rate⟩

theorem length_filter_proposed {q : Item → Bool} (hq : ∀ i id v, q (i.issuedAs id v) = q i) :
    ((p.proposed n).filter q).length = (p.drafts.filter q).length := by
  have hlengths := congrArg List.length
    (filter_numbered (some (.minted n)) (n + 1) Item.draft (fun _ _ _ => rfl) q hq p.drafts)
  rwa [List.length_map, List.length_map] at hlengths

theorem settled_ended (hb : Books (Priced currency) items) (hunrepaired : ∀ i ∈ items, i.kind ≠ .repair)
    (hterms : ((termsInForce items).filter (!·.isOf p.off)).Perm (drafts.map Item.terms))
    (hp : p.Sound (Priced currency)) (hs : s ∉ p.off)
    (h : EndedOn s day (drafts.map Item.terms) (p.drafts.map Item.terms) same gone cut)
    (hone : ∀ k : Item, k.subscription = some s → k.start < day →
      (p.drafts.filter (·.isUpTo day k)).length ≤ 1)
    (ho : p.settled n items = .ok o) :
    (items.filter (·.runsBeyond s day) = [] → o = none) ∧
    (items.filter (·.runsBeyond s day) ≠ [] → ∃ j qs, o = some j ∧ j.items.Perm qs ∧
      List.Forall₂ (Item.RefundsFrom day (p.proposed n)) (items.filter (·.runsBeyond s day)) qs) := by
  obtain ⟨result, hresult, ho⟩ := bind_eq_ok_iff.1 ho
  obtain ⟨issued, hfound, hd⟩ := reconciled_parts hresult
  obtain ⟨issued', rest, hfound', hsettles, hnew⟩ := settles_of_reconciled hresult
  obtain rfl : issued = issued' := Except.ok.inj (hfound.symm.trans hfound')
  obtain ⟨cs, hcs, hitems, hforce, hfresh, hactive⟩ := hb.fresh hunrepaired p.off (p.proposed n).length
  obtain rfl : issued = cs := Except.ok.inj (hfound.symm.trans hcs)
  have hended : EndedOn s day ((issued.filter (·.isActive)).map Charge.terms)
      ((p.proposed n).map Item.terms) same gone cut := by
    rw [hforce, map_proposed Item.terms fun _ _ _ => rfl]
    exact { h with old := hterms.trans h.old }
  have hown : (issued.map (·.item)).filter (·.runsBeyond s day) =
      items.filter (·.runsBeyond s day) := by
    rw [hitems, Item.filter_runsBeyond_outside hs]
  obtain ⟨qs, hqs, hrefunds⟩ := hended.exists_refunds hsettles hd hfresh (hp.fresh n)
    (fun c _ hc hlt => (length_filter_proposed fun _ _ _ => rfl).trans_le
      (hone c.item (Item.runsBeyond_parts hc).2.1 hlt)) hactive
  have hrest := EndedOn.rest_eq_nil (map_terms_proposals (p.proposed n) ▸ hended) hsettles hd
    (nodup_handle_proposals _) (fun _ => open_proposals)
    (fun c hc => (hfresh c hc).isFinite) (fun q hq => (hp.fresh n q hq).isFinite.1)
  have hdelta : result.delta = result.difference.repairs := by
    rw [Reconciliation.delta, Difference.items, hnew, hrest]
    rfl
  have hnil : items.filter (·.runsBeyond s day) = [] ↔ result.delta = [] := by
    rw [hdelta, ← List.length_eq_zero_iff, ← List.length_eq_zero_iff, ← hown, hrefunds.length_eq,
      hqs.length_eq]
  split at ho
  case isTrue hempty =>
    have hnone := hnil.2 (List.isEmpty_iff.1 hempty)
    exact ⟨fun _ => (Except.ok.inj ho).symm, fun hsome => absurd hnone hsome⟩
  case isFalse hempty =>
    obtain ⟨m, -, ho⟩ := bind_eq_ok_iff.1 ho
    obtain rfl := Except.ok.inj ho
    refine ⟨fun hnone => absurd (List.isEmpty_iff.2 (hnil.1 hnone)) hempty, fun _ =>
      ⟨_, qs.map (·.withInvoice (.minted n)), rfl, ?_, ?_⟩⟩
    · exact hdelta ▸ hqs.map _
    · rw [← hown]
      exact List.forall₂_map_right_iff.2 (hrefunds.imp fun _ _ h => h.withInvoice _)

end InvoicePlan

/-! ## An account with a cancellation -/

namespace Timeline

/-- What is assumed of a timeline: it is in UTC, of events at fixed offsets, and its prices are finite and
not negative. -/
structure Orderly (t : Timeline) : Prop where
  made : t.Made
  offsets : t.HasOffsets
  zone : t.zone = "UTC"
  finite : t.FinitePrices
  nonnegative : t.NonnegativePrices

variable {t t' : Timeline} {x : BillingEvent}

theorem Orderly.ended [TimeZones] (h : t.Orderly) (hx : t.EndedBy x day t') : t'.Orderly where
  made := h.made.add hx.add
  offsets e he := by
    rcases mem_events_add hx.add he with he | rfl
    · exact h.offsets e he
    · exact hx.offset
  zone := (sameFrame_add hx.add).zone.trans h.zone
  finite e he d hd := by
    rcases mem_events_add hx.add he with he | rfl
    · exact h.finite e he d hd
    · simp [hx.fixed, hx.recurring] at hd
  nonnegative e he d hd := by
    rcases mem_events_add hx.add he with he | rfl
    · exact h.nonnegative e he d hd
    · simp [hx.fixed, hx.recurring] at hd

end Timeline

theorem Billing.length_isUpTo_le [TimeZones] {b : Billing} {rounding : Option RoundingMode} {t : Timeline}
    {drafts : List Item} (hc : b.currency = .currency currency) (hlength : t.length ≠ 0)
    (ht : t.Orderly) (h : b.due rounding t = .ok drafts) {k : Item} {s : Id}
    (hk : k.subscription = some s) (hs : s ∉ t.off) (hlt : k.start < day) :
    (drafts.filter (·.isUpTo day k)).length ≤ 1 := by
  obtain ⟨_, -, htells⟩ := count_due hc hlength ht.made ht.offsets ht.zone h hs (d := k.start)
  rw [List.countP_filter] at htells
  rw [← List.countP_eq_length_filter]
  refine (List.countP_mono_left fun i _ hi => ?_).trans htells.le_one
  simp only [Item.isUpTo, Bool.and_eq_true, decide_eq_true_eq] at hi
  obtain ⟨⟨⟨hkind, hsub⟩, hstart⟩, hfinish⟩ := hi
  have hterms : i.terms.kind = .recurring ∧ i.terms.finish = some day := ⟨hkind, hfinish⟩
  simp [Terms.serves, hterms, hstart, hsub, hk, hlt]

theorem Invoicer.first_invoice [TimeZones] {v : Invoicer} {r : InvoiceRequest} (hproper : v.Proper currency r)
    (hfirst : r.issued = []) {i : Invoice} {s s' : Session}
    (hrun : (v.generate r).from_ s = (.ok (some i), s')) : ∃ t p, Planned v r t p ∧
      p.target = r.target ∧ i.target = r.target ∧ Books (Priced currency) i.items ∧
      (∀ k ∈ i.items, k.kind ≠ .repair) ∧
      ((termsInForce i.items).filter (!·.isOf p.off)).Perm (p.drafts.map Item.terms) := by
  obtain ⟨-, ⟨f, hf⟩ | ⟨-, hnone⟩ | ⟨t, p, o, hp, ho, hanswer, -⟩⟩ :=
    generate_cases hproper.modes hrun
  · cases hf
  · cases hnone
  obtain rfl : some i = o := Except.ok.inj hanswer
  have htarget : p.target = r.target := by
    rw [hp.target, hfirst]
    rfl
  rw [hfirst] at ho
  obtain ⟨hissued, hterms⟩ := hproper.settled hp .nil ho
  have hforce := (hproper.sound hp).filter_terms hterms
  obtain ⟨result, hresult, ⟨hno, -⟩ | hsome⟩ := InvoicePlan.settled_eq_ok ho
  · cases hno
  obtain rfl := Option.some.inj hsome
  refine ⟨t, p, hp, htarget, htarget, by simpa using hissued.books, fun k hk hrepair => ?_,
    by simpa using hforce⟩
  -- There are no charges yet that a repair could be of.
  obtain ⟨j, hj, rfl⟩ := List.mem_map.1 hk
  obtain ⟨_, hmem, -⟩ := (hp.mem_delta hresult hj).2 hrepair
  simp at hmem

namespace Mandate

variable {m : Mandate} {v v' : Invoicer} {r r' : InvoiceRequest} {x : BillingEvent} {t' : Timeline}

theorem Governs.proper (h : m.Governs v r) (ht : m.timeline.Orderly) : v.Proper m.currency r where
  modes := h.modes
  currency_eq k hk := Except.ok.inj (hk.symm.trans h.currency)
  finite t hmem := by
    obtain rfl : m.timeline = t := Option.some.inj (h.timeline.symm.trans hmem)
    exact ht.finite
  nonnegative t hmem := by
    obtain rfl : m.timeline = t := Option.some.inj (h.timeline.symm.trans hmem)
    exact ht.nonnegative

theorem Governs.propose_eq [TimeZones] (h : m.Governs v r) {target : Date} {drafts : List Item}
    (hdue : m.due target = .ok drafts) (id : Option Id) (s : Session) :
    ∃ s', (v.rules.propose m.account m.timeline target (.currency m.currency) id).from_ s =
      (.ok (numbered id s.minted drafts), s') := by
  have hmade := BillingRules.propose_drafts m.rounding m.account m.timeline target
    (.currency m.currency) id s
  rw [Billing.due_invoice (b := ⟨m.account, target, .currency m.currency, none⟩) id rfl,
    show Billing.due _ _ _ = _ from hdue, ← h.rules] at hmade
  obtain ⟨_, s', hrun, rfl, -⟩ := hmade
  exact ⟨s', hrun⟩

/-- A cancellation that comes in after the first invoice only takes back. The next call for the same target
finds nothing to invoice if no recurring charge of the subscription runs beyond the day of the cancellation.
Otherwise the items of the new invoice are refunds, one for each of these charges. `ps` is what is proposed
with the cancellation, in any session. -/
theorem cancellation_refunds [TimeZones] (ht : m.timeline.Orderly) (hx : m.timeline.EndedBy x day t')
    (hgoverns : m.Governs v r) (hfirst : r.issued = []) {i : Invoice} {s₀ s₁ : Session}
    (hrun : (v.generate r).from_ s₀ = (.ok (some i), s₁))
    (hgoverns' : ({ m with timeline := t' } : Mandate).Governs v' r') (hissued : r'.issued = [i])
    (htarget : r'.target = r.target) {s₂ s₃ : Session} {o : Option Invoice}
    (hrun' : (v'.generate r').from_ s₂ = (.ok o, s₃)) (id : Option Id) (s : Session) : ∃ ps s',
    (v'.rules.propose m.account t' r.target (.currency m.currency) id).from_ s = (.ok ps, s') ∧
    (i.items.filter (·.runsBeyond x.subscription day) = [] → o = none) ∧
    (i.items.filter (·.runsBeyond x.subscription day) ≠ [] → ∃ j qs, o = some j ∧ j.items.Perm qs ∧
      List.Forall₂ (Item.RefundsFrom day ps)
        (i.items.filter (·.runsBeyond x.subscription day)) qs) := by
  have ht' := ht.ended hx
  have hframe := Timeline.sameFrame_add hx.add
  have hlength := Timeline.length_add hx.add
  obtain ⟨t, p, hp, hpt, hit, hbooks, hunrepaired, hterms⟩ :=
    Invoicer.first_invoice (hgoverns.proper ht) hfirst hrun
  obtain rfl : m.timeline = t := Option.some.inj (hgoverns.timeline.symm.trans hp.timeline)
  obtain ⟨p', hp', ho, -⟩ := Invoicer.settled_of_answer hgoverns'.modes hgoverns'.timeline hlength
    (hframe.accountOff.trans hp.accountOn) hrun'
  have hpt' : p'.target = r.target := by
    rw [hp'.target, hissued, htarget]
    exact le_antisymm (Invoicer.latestTarget_le le_rfl (by simp [hit]))
      (Invoicer.le_latestTarget r.target [i]).1
  have hdue := hgoverns.due_eq hp
  have hdue' := hgoverns'.due_eq hp'
  rw [hpt] at hdue
  rw [hpt'] at hdue'
  -- What was due is due up to the end of the subscription.
  obtain ⟨hend, hothers⟩ := Billing.due_end rfl hp.events ht.made ht.offsets ht.zone
    (fun e he d hd => ht.finite e he d (.inr hd)) (fun e he d hd => ht.nonnegative e he d (.inr hd))
    hx hdue hdue'
  obtain ⟨same, gone, cut, hended⟩ := EndedOn.of_endOn hend hothers
  have hoff : p.off = p'.off := hp.off.trans (hframe.off.symm.trans hp'.off.symm)
  rw [hissued, List.flatMap_singleton] at ho
  obtain ⟨hnone, hsome⟩ := InvoicePlan.settled_ended hbooks hunrepaired (hoff ▸ hterms)
    ((hgoverns'.proper ht').sound hp') (hoff ▸ hp.off ▸ hx.on) hended
    (fun k hk hlt => Billing.length_isUpTo_le rfl hlength ht' hdue' hk (hframe.off ▸ hx.on) hlt) ho
  obtain ⟨s', hpropose⟩ := hgoverns'.propose_eq hdue' id s
  have hdrafts : (p'.proposed s₂.minted).map Item.draft =
      (numbered id s.minted p'.drafts).map Item.draft := by
    rw [InvoicePlan.map_proposed Item.draft fun _ _ _ => rfl,
      map_numbered _ _ Item.draft fun _ _ _ => rfl]
  refine ⟨_, s', hpropose, hnone, fun hhits => ?_⟩
  obtain ⟨j, qs, hj, hqs, hrefunds⟩ := hsome hhits
  exact ⟨j, qs, hj, hqs, hrefunds.imp fun _ _ h => h.congr hdrafts⟩

/-! ## A subscription cancelled in the middle of a month -/

open TimeZones.UtcOnly

theorem timelineOf_first : timelineOf [firstEvent] =
    ⟨false, .inAdvance, "UTC", [], [⟨firstEvent.effective, 0, 0⟩], [firstEvent], 1,
      some ⟨firstEvent.effective, "UTC"⟩⟩ := by
  have hfirst : firstEvent.ordering = 0 := rfl
  simp [timelineOf, Timeline.addAll, Timeline.add, Timeline.contains?, Timeline.contains?.go,
    Timeline.empty, Timeline.insertAt, Timeline.place, hfirst]

/-- The account of one subscription. -/
def firstMandate : Mandate :=
  ⟨.known 0, timelineOf [firstEvent], some Config.initial.rounding, .usd⟩

theorem first_orderly : firstMandate.timeline.Orderly where
  made := (Timeline.Made.empty ..).addAll _
  offsets e he := by
    obtain rfl : e = firstEvent := List.mem_singleton.1 (mem_timelineOf he)
    exact ⟨0, rfl⟩
  zone := by rw [firstMandate, timelineOf_first]
  finite e he d hd := by
    obtain rfl : e = firstEvent := List.mem_singleton.1 (mem_timelineOf he)
    exact (firstEvent_price d hd).1
  nonnegative e he d hd := by
    obtain rfl : e = firstEvent := List.mem_singleton.1 (mem_timelineOf he)
    exact (firstEvent_price d hd).2

theorem endedBy_cancellation :
    (timelineOf [firstEvent]).EndedBy cancellation midMonth (timelineOf [firstEvent, cancellation]) where
  add := by
    have hequal : firstEvent.equal? cancellation = .ok false := by rfl
    have hbefore : TimelineKey.before ⟨cancellation.effective, 0, 1⟩ ⟨firstEvent.effective, 0, 0⟩ =
        false := by rfl
    have hsecond : cancellation.ordering = 0 := rfl
    rw [timelineOf_cancelled, timelineOf_first]
    simp [Timeline.add, Timeline.contains?, Timeline.contains?.go, Timeline.insertAt, Timeline.place,
      hequal, hbefore, hsecond]
  last e he := by
    obtain rfl : e = firstEvent := List.mem_singleton.1 (mem_timelineOf (List.mem_of_mem_filter he))
    decide +kernel
  on := by rw [timelineOf_first]; decide
  fixed := rfl
  recurring := rfl
  offset := ⟨0, rfl⟩
  day c hc := by
    rw [timelineOf_first] at hc
    obtain rfl := Option.some.inj hc
    rfl

/-- A subscription charged for a month and cancelled in the middle of it. -/
theorem cancellation_refunds_midMonth : ∃ i j s ps s' qs,
    firstCall.invoices = [i] ∧
    (firstInvoicer.generate cancelledRequest).from_ firstSession = (.ok (some j), s) ∧
    (firstInvoicer.rules.propose (.known 0) (timelineOf [firstEvent, cancellation]) Clock.firstDay
      (.currency .usd) none).from_ s = (.ok ps, s') ∧
    i.items.filter (·.runsBeyond (.known 1) midMonth) ≠ [] ∧ j.items.Perm qs ∧
    List.Forall₂ (Item.RefundsFrom midMonth ps)
      (i.items.filter (·.runsBeyond (.known 1) midMonth)) qs := by
  have hbeyond : ((firstInvoicer.generate firstRequest).from_ .start).1.toOption.join.any
      (fun i => i.items.any (·.runsBeyond (.known 1) midMonth)) = true := by decide +kernel
  rcases hrun : (firstInvoicer.generate firstRequest).from_ .start with ⟨f | _ | i, s₁⟩
  · simp [hrun, Except.toOption] at hbeyond
  · simp [hrun, Except.toOption] at hbeyond
  have hhits : i.items.filter (·.runsBeyond (.known 1) midMonth) ≠ [] := by
    simpa [hrun, Except.toOption, List.filter_eq_nil_iff] using hbeyond
  have hissued : firstCall.invoices = [i] := by
    simp [firstCall, Call.made, Call.invoices, hrun]
  obtain ⟨j, s, hcancelled⟩ := cancelledRequest_invoiced
  have hgoverns : firstMandate.Governs firstInvoicer firstRequest :=
    ⟨rfl, rfl, rfl, currencyOf_first⟩
  have hgoverns' : ({ firstMandate with timeline := timelineOf [firstEvent, cancellation] } :
      Mandate).Governs firstInvoicer cancelledRequest := ⟨rfl, rfl, rfl, currencyOf_first⟩
  obtain ⟨ps, s', hpropose, -, hrefunds⟩ := cancellation_refunds first_orderly endedBy_cancellation
    hgoverns rfl hrun hgoverns' hissued rfl hcancelled none s
  obtain ⟨_, qs, hj, hqs, hall⟩ := hrefunds hhits
  obtain rfl := Option.some.inj hj
  exact ⟨i, _, s, ps, s', qs, hissued, hcancelled, hpropose, hhits, hqs, hall⟩

end Mandate

end Invoicing
