import Invoicing.Proofs.Reconciliation.Ending
import Invoicing.Proofs.Reconciliation.Refunds
import Invoicing.Proofs.Reconciliation.Unchanged

/-!
# What is refunded when a subscription ends

If charges that were never repaired are due up to the end of a subscription, each of them that runs beyond
the end gets one repair: of the whole charge if it starts on the last day or later, else of the days
behind the last one (`EndedOn.exists_refunds`). Amounts are fair, so each refund is exact.
-/

namespace Invoicing

variable {currency : Currency} {day : Date} {ps : List Item}

/-! ## One refund -/

namespace Item

/-- Whether an item is a recurring charge from the start of another one up to a day. -/
def isUpTo (day : Date) (d k : Item) : Bool :=
  d.kind = .recurring && d.subscription = k.subscription && d.start = k.start && d.finish = some day

/-- Whether an item refunds a charge from a day on, of which `ps` are what is due instead: all of it if
it starts on the day or later, else what it amounts to more than the charge up to the day. -/
structure RefundsFrom (day : Date) (ps : List Item) (k q : Item) : Prop where
  isRepairOf : q.IsRepairOf k
  start : q.start = max k.start day
  finish : q.finish = k.finish
  currency : q.amount.currency = k.amount.currency
  finite : q.amount.amount.isFinite
  whole : day ≤ k.start → q.amount.amount.toRat = -k.amount.amount.toRat
  rest : k.start < day → ∃ d, ps.filter (·.isUpTo day k) = [d] ∧ d.amount.amount.isFinite ∧
    q.amount.amount.toRat = d.amount.amount.toRat - k.amount.amount.toRat

variable {k q : Item}

theorem RefundsFrom.withInvoice (h : RefundsFrom day ps k q) (v : Id) :
    RefundsFrom day ps k (q.withInvoice v) :=
  ⟨⟨h.1.1, h.1.2, h.1.3, h.1.4, h.1.5, h.1.6, h.1.7⟩, h.start, h.finish, h.currency, h.finite, h.whole,
    h.rest⟩

theorem RefundsFrom.congr {ps' : List Item} (hps : ps.map draft = ps'.map draft)
    (h : RefundsFrom day ps k q) : RefundsFrom day ps' k q := by
  refine { h with rest := fun hlt => ?_ }
  obtain ⟨d, hd, hfinite, hvalue⟩ := h.rest hlt
  have hparts : (ps.filter (·.isUpTo day k)).map draft = (ps'.filter (·.isUpTo day k)).map draft := by
    have hfun : (fun i : Item => i.isUpTo day k) = (fun i => i.isUpTo day k) ∘ draft :=
      funext fun _ => rfl
    rw [hfun, ← List.filter_map, ← List.filter_map, hps]
  rw [hd] at hparts
  obtain ⟨d', hd', hdd⟩ := List.map_eq_singleton_iff.1 hparts.symm
  have hamount : d'.amount = d.amount := congrArg (·.amount) hdd
  exact ⟨d', hd', by rw [hamount]; exact hfinite, by rw [hamount]; exact hvalue⟩

end Item

namespace Charge

variable {c p : Charge} {id : Id} {o : Option Item}

/-- Whether a charge stands as it was issued, is fair and has a finite price. -/
structure Fresh (currency : Currency) (c : Charge) : Prop where
  eq : c = .proposed c.handle c.item
  fair : c.Fair currency
  rate : ∀ r ∈ c.item.rate, r.isFinite

theorem Fresh.isFinite (h : c.Fresh currency) :
    c.amount.amount.isFinite ∧ ∀ r ∈ c.item.rate, r.isFinite := ⟨h.fair.comparable.1, h.rate⟩

theorem Fresh.finish (h : c.Fresh currency) : c.finish = c.item.finish := by rw [h.eq]; rfl

theorem Fresh.amount (h : c.Fresh currency) : c.amount = c.item.amount := by rw [h.eq]; rfl

theorem Fresh.terms (h : c.Fresh currency) : c.terms = c.item.terms := by rw [h.eq]; rfl

variable (hc : c.Fresh currency) (hk : c.item.kind = .recurring)
include hc hk

theorem refundsFrom_cancelled (hle : day ≤ c.item.start) (h : c.repair id .cancelled = .ok o) :
    ∃ q, o = some q ∧ Item.RefundsFrom day ps c.item q := by
  obtain ⟨m, q, hm, hq, rfl⟩ := repair_cancelled h
  obtain ⟨m', _, hm', hcurrency, hfinite, hvalue, -⟩ := (hc.fair.isExact hk).cancel
  obtain rfl : m = m' := Except.ok.inj (hm.symm.trans hm')
  obtain ⟨e, he, -⟩ := Item.finish_of_recurring hk
  rw [hc.amount] at hcurrency hvalue
  have hrepair := Item.isRepairOf_of_repair hq
  obtain ⟨_, rfl⟩ := Item.make_eq_ok_iff.1 hq
  exact ⟨_, rfl, hrepair, (max_eq_left hle).symm, by simp [hc.finish, he], hcurrency, hfinite,
    fun _ => hvalue, fun hlt => absurd hlt (not_lt.2 hle)⟩

theorem refundsFrom_shortened (hp : p.Fresh currency) (hv : (Verdict.shortened p).Fits c)
    (hlt : c.item.start < day) (hfinish : p.finish = some day) (hmem : p.item ∈ ps)
    (hone : (ps.filter (·.isUpTo day c.item)).length ≤ 1)
    (h : c.repair id (.shortened p) = .ok o) :
    ∃ q, o = some q ∧ Item.RefundsFrom day ps c.item q := by
  obtain ⟨m, q, hm, hq, rfl⟩ := repair_shortened h
  obtain ⟨m', _, hm', -, -, -, -, -, hvalue, -⟩ := hc.fair.sub_shorter hp.fair hv
  obtain rfl : m = m' := Except.ok.inj (hm.symm.trans hm')
  have hfin : m.amount.isFinite := by
    obtain ⟨-, d, hd, rfl⟩ := Money.sub_eq_ok hm
    exact Decimal.sub_isFinite hp.isFinite.1 hc.isFinite.1 hd
  have hcurrency : m.currency = c.item.amount.currency := by
    rw [← hc.amount, (Money.currency_of_sub hm).2, (Money.currency_of_sub hm).1]
  -- Of what is due there is no other charge from this day on.
  have hpart : p.item ∈ ps.filter (·.isUpTo day c.item) := by
    obtain ⟨⟨hsub, hkind, -, -, -, hstart⟩, -⟩ := hv
    have hend : p.item.finish = some day := hp.finish.symm.trans hfinish
    exact List.mem_filter.2 ⟨hmem, by simp [Item.isUpTo, hkind, hk, hsub, hstart, hend]⟩
  obtain ⟨d, hd⟩ := List.length_eq_one_iff.1 (le_antisymm hone (List.length_pos_of_mem hpart))
  obtain rfl : p.item = d := List.mem_singleton.1 (hd ▸ hpart)
  have hpf := hp.isFinite.1
  rw [hp.amount, hc.amount] at hvalue
  rw [hp.amount] at hpf
  have hrepair := Item.isRepairOf_of_repair hq
  obtain ⟨_, rfl⟩ := Item.make_eq_ok_iff.1 hq
  exact ⟨_, rfl, hrepair, by simp [hfinish, max_eq_right hlt.le], hc.finish, hcurrency, hfin,
    fun hle => absurd hlt (not_lt.2 hle), fun _ => ⟨p.item, hd, hpf, hvalue⟩⟩

end Charge

/-! ## All refunds -/

theorem forall₂_flatMap {α β : Type} {R : α → β → Prop} {f : α → List β} {q : α → Bool} {l : List α}
    (hnone : ∀ x ∈ l, q x = false → f x = []) (hone : ∀ x ∈ l, q x = true → ∃ y, f x = [y] ∧ R x y) :
    List.Forall₂ R (l.filter q) (l.flatMap f) := by
  induction l with
  | nil => exact .nil
  | cons x l ih =>
    have ih := ih (fun y hy => hnone y (by simp [hy])) fun y hy => hone y (by simp [hy])
    rw [List.flatMap_cons]
    cases hx : q x with
    | false => rwa [List.filter_cons_of_neg (by simp [hx]), hnone x (by simp) hx]
    | true =>
      obtain ⟨y, hy, hxy⟩ := hone x (by simp) hx
      rw [List.filter_cons_of_pos hx, hy]
      exact .cons hxy ih

namespace EndedOn

variable {s : Id} {same gone : List Item} {cut : Option (Item × Item)} {ids : Nat → Id}
  {issued rest : List Charge} {repairs : List Item} {d : Difference}

section

variable
  (h : EndedOn s day ((issued.filter (·.isActive)).map Charge.terms) (ps.map Item.terms) same gone cut)
  (hs : Settles ids issued (proposals ps) repairs rest (verdicts issued (proposals ps)))
  (hd : settleAll ids (ledgers issued (proposals ps)) = .ok d)
  (hissued : ∀ c ∈ issued, c.Fresh currency) (hproposed : ∀ p ∈ proposals ps, p.Fresh currency)
  (hone : ∀ c ∈ issued, c.item.runsBeyond s day → c.item.start < day →
    (ps.filter (·.isUpTo day c.item)).length ≤ 1)
include h hs hd hissued hproposed hone

theorem refundsFrom {x : Charge × Verdict} (hx : x ∈ verdicts issued (proposals ps))
    (hbeyond : x.1.item.runsBeyond s day) :
    ∃ q, repairsFor ids x = [q] ∧ Item.RefundsFrom day ps x.1.item q := by
  rw [← map_terms_proposals] at h
  have hmem := mem_issued hs hx
  have hfresh := hissued _ hmem
  have hk := (Item.runsBeyond_parts hbeyond).1
  obtain ⟨o, ho⟩ := hs.made x hx
  obtain ⟨q, hoq, hq⟩ : ∃ q, o = some q ∧ Item.RefundsFrom day ps x.1.item q := by
    obtain ⟨hout, -⟩ | ⟨-, ⟨hle, hv⟩ | ⟨hlt, p, hp, hv, hfinish⟩⟩ :=
      verdict_cases h hs hd (nodup_handle_proposals ps) (fun _ => open_proposals)
        (fun c hc => (hissued c hc).isFinite) (fun p hp => (hproposed p hp).isFinite.1) hx
    · rw [hfresh.terms, Item.runsBeyond_terms, hbeyond] at hout
      cases hout
    · rw [hv] at ho
      exact Charge.refundsFrom_cancelled hfresh hk hle ho
    · have hfits := hs.fits x hx
      rw [hv] at ho hfits
      exact Charge.refundsFrom_shortened hfresh hk (hproposed p hp) hfits hlt hfinish
        (proposals_eq_of_mem hp).1 (hone _ hmem hbeyond hlt) ho
  exact ⟨q, by rw [repairsFor, ho, hoq]; rfl, hq⟩

/-- The repairs are refunds, one of each charge that runs beyond the end of its subscription. -/
theorem exists_refunds (hactive : ∀ c ∈ issued, c.isActive) : ∃ qs, repairs.Perm qs ∧
    List.Forall₂ (Item.RefundsFrom day ps)
      ((issued.map (·.item)).filter (·.runsBeyond s day)) qs := by
  have hnone : ∀ x ∈ verdicts issued (proposals ps), x.1.item.runsBeyond s day = false →
      repairsFor ids x = [] := by
    intro x hx hout
    have hkept := kept_iff (map_terms_proposals ps ▸ h) hs hd (nodup_handle_proposals ps)
      (fun _ => open_proposals) (fun c hc => (hissued c hc).isFinite) hx
    rw [(hissued _ (mem_issued hs hx)).terms, Item.runsBeyond_terms, hout] at hkept
    obtain ⟨p, hp⟩ := Verdict.isKept_iff.1 hkept
    exact Posting.repairsFor_kept hp
  have hall := forall₂_flatMap hnone fun x => refundsFrom h hs hd hissued hproposed hone
  rw [← hs.repairs_eq] at hall
  have hitems : ((issued.map (·.item)).filter (·.runsBeyond s day)).Perm
      (((verdicts issued (proposals ps)).filter (·.1.item.runsBeyond s day)).map (·.1.item)) := by
    have hcharges := hs.charges.map (·.item)
    rw [List.map_map, List.filter_eq_self.2 hactive] at hcharges
    refine (hcharges.symm.filter _).trans (List.Perm.of_eq ?_)
    rw [List.filter_map]
    rfl
  obtain ⟨qs, hqs, hperm⟩ := List.perm_comp_forall₂ hitems (List.forall₂_map_left_iff.2 hall)
  exact ⟨qs, hperm.symm, hqs⟩

end

end EndedOn

end Invoicing
