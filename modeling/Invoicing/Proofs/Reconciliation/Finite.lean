import Invoicing.Proofs.Decimal.Sign
import Invoicing.Proofs.Failure
import Invoicing.Proofs.Reconciliation.Convergence

/-!
# Amounts stay numbers

If the amounts and prices of all items are numbers, so are those of the items that a reconciliation
makes of them (`delta_isFinite`). Sums and repairs may be rounded or too large for the precision, but
they never come to an infinity.
-/

namespace Invoicing

/-- Whether the amount and the price of an item are numbers. -/
structure Item.IsFinite (i : Item) : Prop where
  amount : i.amount.amount.isFinite
  rate : ∀ r ∈ i.rate, r.isFinite

/-- Whether what is left of a charge and its price are numbers. -/
structure Charge.IsFinite (c : Charge) : Prop where
  amount : c.amount.amount.isFinite
  rate : ∀ r ∈ c.item.rate, r.isFinite

theorem Charge.IsFinite.comparable {c : Charge} (h : c.IsFinite) : c.Comparable :=
  ⟨h.amount, fun r hr => Decimal.isSignaling_of_isFinite (h.rate r hr)⟩

theorem Item.IsFinite.proposed {i : Item} (h : i.IsFinite) (handle : Nat) :
    (Charge.proposed handle i).IsFinite := ⟨h.amount, h.rate⟩

/-! ## Charges with their repairs -/

theorem Invoice.sum_isFinite {m s : Money} {items : List Item} (hm : m.amount.isFinite)
    (hi : ∀ i ∈ items, i.amount.amount.isFinite) (h : Invoice.sum m items = .ok s) :
    s.amount.isFinite := by
  induction items generalizing m with
  | nil =>
    obtain rfl : m = s := Except.ok.inj h
    exact hm
  | cons i rest ih =>
    rw [Invoice.sum] at h
    split at h
    case h_1 t ht =>
      obtain ⟨d, hd, rfl⟩ := Money.add_eq_ok ht
      have hfin : d.isFinite := Decimal.add_isFinite hm (hi i (by simp)) hd
      exact ih hfin (fun j hj => hi j (by simp [hj])) h
    case h_2 => cases h

theorem Invoice.sum_plain (m : Money) (items : List Item) :
    FailsOnly Fault.IsPlain (Invoice.sum m items) := by
  induction items generalizing m with
  | nil => exact .ok m
  | cons i rest ih =>
    have hadd := Money.add_plain m i.amount
    rw [Invoice.sum]
    cases h : m.add i.amount with
    | ok t => exact ih t
    | error f => exact .error (hadd f h)

theorem Charge.issued_isFinite {handle : Nat} {i : Item} {repairs : List Item} {c : Charge}
    (hi : i.IsFinite) (hr : ∀ r ∈ repairs, r.IsFinite)
    (h : Charge.issued handle i repairs = .ok c) : c.IsFinite := by
  obtain ⟨-, rfl, -, -, hsum⟩ := Charge.issued_parts h
  exact ⟨Invoice.sum_isFinite hi.amount (fun r hmem => (hr r hmem).amount) hsum, hi.rate⟩

theorem Charge.issued_plain (handle : Nat) (i : Item) (repairs : List Item) :
    FailsOnly Fault.IsPlain (Charge.issued handle i repairs) := by
  have hsum := Invoice.sum_plain i.amount repairs
  unfold Charge.issued
  split
  case h_1 f hf => exact .error (hsum f hf)
  case h_2 =>
    refine FailsOnly.map ?_
    unfold Charge.finishAfter
    split
    · exact .ok _
    split
    · exact .ok _
    split
    · exact .ok _
    · exact .error fun h => h

namespace Holdings

variable {existing : List Item} {pinned : List Id} {first : Nat} {cs : List Charge}

theorem issued_plain (h : Holdings) (first : Nat) : FailsOnly Fault.IsPlain (h.issued first) :=
  FailsOnly.mapM fun x _ => Charge.issued_plain x.2 x.1 (h.repairsOf x.1.id)

theorem amount_isFinite (he : ∀ i ∈ owned existing pinned, i.amount.amount.isFinite)
    (hcs : (ofItems existing pinned).issued first = .ok cs) :
    ∀ c ∈ cs, c.amount.amount.isFinite := by
  intro c hc
  obtain ⟨-, -, -, -, hsum⟩ := Charge.issued_parts ((issued_parts hcs).2 c hc)
  refine Invoice.sum_isFinite (he _ (mem_chargesOf.1 (item_mem hcs hc)).1) (fun r hr => ?_) hsum
  rw [repairsOf_owned] at hr
  exact he r (List.mem_of_mem_filter hr)

theorem issued_isFinite (he : ∀ i ∈ existing, i.IsFinite)
    (hcs : (ofItems existing pinned).issued first = .ok cs) : ∀ c ∈ cs, c.IsFinite := by
  intro c hc
  exact ⟨amount_isFinite (fun i hi => (he i (mem_owned.1 hi).1).amount) hcs c hc,
    (he _ (mem_owned.1 (mem_chargesOf.1 (item_mem hcs hc)).1).1).rate⟩

end Holdings

/-! ## Repairs -/

theorem Charge.repair_isFinite {c : Charge} {id : Id} {v : Verdict} {o : Option Item}
    (hc : c.amount.amount.isFinite) (hp : ∀ p ∈ v.proposal?, p.amount.amount.isFinite)
    (h : c.repair id v = .ok o) : ∀ r ∈ o, r.IsFinite := by
  have hmade : ∀ {m : Money} {start finish} {r : Item}, m.amount.isFinite →
      c.item.repair id start finish m none = .ok r → r.IsFinite := by
    intro m start finish r hm hr
    obtain ⟨_, rfl⟩ := Item.make_eq_ok_iff.1 hr
    exact ⟨hm, by simp⟩
  cases v with
  | kept p =>
    obtain rfl : none = o := Except.ok.inj h
    simp
  | shortened p =>
    obtain ⟨m, r, hm, hr, rfl⟩ := Charge.repair_shortened h
    obtain ⟨-, d, hd, rfl⟩ := Money.sub_eq_ok hm
    rintro _ ⟨⟩
    exact hmade (Decimal.sub_isFinite (hp p rfl) hc hd) hr
  | cancelled =>
    obtain ⟨m, r, hm, hr, rfl⟩ := Charge.repair_cancelled h
    obtain ⟨d, hd, rfl⟩ := Money.neg_eq_ok hm
    rintro _ ⟨⟩
    exact hmade (Decimal.neg_isFinite hc hd) hr

/-! ## A reconciliation -/

section

variable {existing proposed : List Item} {pinned : List Id} {ids : Nat → Id} {r : Reconciliation}

theorem proposals_isFinite (hp : ∀ i ∈ proposed, i.IsFinite) :
    ∀ p ∈ proposals proposed, p.IsFinite := by
  intro p hmem
  obtain ⟨hitem, hpe⟩ := proposals_eq_of_mem hmem
  rw [hpe]
  exact (hp _ hitem).proposed _

/-- What is left to be invoiced has numbers for amounts and prices if all items have. -/
theorem delta_isFinite (he : ∀ i ∈ existing, i.IsFinite) (hp : ∀ i ∈ proposed, i.IsFinite)
    (h : reconciled ids existing proposed pinned = .ok r) : ∀ i ∈ r.delta, i.IsFinite := by
  obtain ⟨issued, rest, post⟩ := posting_owned h
  intro i hi
  rcases post.mem_delta hi with ⟨p, hpr, rfl⟩ | hi
  · exact hp _ (post.mem_rest hpr).1
  · obtain ⟨x, hx, hix⟩ := post.mem_repairs hi
    unfold repairsFor at hix
    split at hix
    case h_1 o ho =>
      obtain ⟨hmem, -⟩ := post.mem_issued hx
      have hcharge := (mem_owned.1 (mem_chargesOf.1 (post.mem_charges hmem).1).1).1
      have hfinite : x.1.IsFinite := Charge.issued_isFinite (he _ hcharge)
        (fun r hr => he r (mem_owned.1 (List.mem_of_mem_filter hr)).1) (post.stands _ hmem).1
      refine Charge.repair_isFinite hfinite.amount (fun p hpx => ?_) ho i (by simpa using hix)
      exact (proposals_isFinite hp p (post.mem_proposals hx hpx)).amount
    case h_2 => simp at hix

end

end Invoicing
