import Invoicing.Proofs.Reconciliation.Finite
import Mathlib.Data.Multiset.Count

/-!
# When a reconciliation is refused

A repair must not be positive, so a charge that is negative cannot be taken back. It does not have to be
as long as it is proposed again: a reconciliation is refused only if it drops a credit
(`reconciled_fails`), that is if some negative charge is in force more often than it is proposed
(`DropsCredit`). A credit is not lost to a charge that is shortened before it, since charges are
settled in the order of their ends.
-/

namespace Invoicing

/-- Whether an amount to be paid is negative. -/
def Terms.IsCredit (t : Terms) : Prop := ∃ q < 0, t.amount = .inl q

/-- Whether some credit is in force more often than it is proposed. -/
def DropsCredit (inForce proposed : List Terms) : Prop :=
  ∃ t : Terms, t.IsCredit ∧ proposed.count t < inForce.count t

namespace DropsCredit

variable {xs ys xs' ys' : List Terms} {t u : Terms}

theorem perm (h : DropsCredit xs ys) (hx : xs.Perm xs') (hy : ys.Perm ys') :
    DropsCredit xs' ys' := by
  obtain ⟨t, ht, hlt⟩ := h
  exact ⟨t, ht, by rwa [← hx.count_eq, ← hy.count_eq]⟩

theorem here (ht : t.IsCredit) (hy : t ∉ ys) : DropsCredit (t :: xs) ys := by
  refine ⟨t, ht, ?_⟩
  rw [List.count_eq_zero_of_not_mem hy, List.count_cons_self]
  omega

theorem cons (t : Terms) (h : DropsCredit xs ys) : DropsCredit (t :: xs) (t :: ys) := by
  obtain ⟨u, hu, hlt⟩ := h
  refine ⟨u, hu, ?_⟩
  rw [List.count_cons, List.count_cons]
  omega

theorem more (t : Terms) (h : DropsCredit xs ys) : DropsCredit (t :: xs) ys := by
  obtain ⟨u, hu, hlt⟩ := h
  exact ⟨u, hu, hlt.trans_le List.count_le_count_cons⟩

theorem besides (h : DropsCredit xs ys) (hu : u ∉ xs) : DropsCredit xs (u :: ys) := by
  obtain ⟨t, ht, hlt⟩ := h
  have hmem : t ∈ xs := List.count_pos_iff.1 (by omega)
  have hne : u ≠ t := by
    rintro rfl
    exact hu hmem
  exact ⟨t, ht, by rwa [List.count_cons_of_ne hne]⟩

theorem of_filter {q : Terms → Bool} (h : DropsCredit (xs.filter q) (ys.filter q)) :
    DropsCredit xs ys := by
  obtain ⟨t, ht, hlt⟩ := h
  have hq : q t := List.of_mem_filter (List.count_pos_iff.1 (Nat.zero_lt_of_lt hlt))
  rw [List.count_filter hq, List.count_filter hq] at hlt
  exact ⟨t, ht, hlt⟩

end DropsCredit

/-- Whether a fault, if it refuses an item at all, refuses a repair for its sign, and for a reason. -/
def Fault.RefusesFor (reason : Prop) (f : Fault) : Prop :=
  f.IsRefusal → f = .positiveRepair ∧ reason

theorem Fault.IsPlain.refusesFor {f : Fault} (h : f.IsPlain) (reason : Prop) :
    f.RefusesFor reason := fun hr => absurd hr h.not_isRefusal

theorem Fault.RefusesFor.imp {f : Fault} {P Q : Prop} (h : f.RefusesFor P) (hPQ : P → Q) :
    f.RefusesFor Q := fun hr => (h hr).imp_right hPQ

namespace Charge

variable {c p : Charge} {v : Verdict}

theorem repair_fails (id : Id) (hc : c.amount.amount.isFinite) (hv : v.Fits c)
    (hp : ∀ p ∈ v.proposal?, p.amount.amount.isFinite) :
    FailsOnly (Fault.RefusesFor (v = .cancelled ∧ c.terms.IsCredit)) (c.repair id v) := by
  have hrefused : ∀ {m : Money} {start finish},
      (Decimal.lt? .zero m.amount = .ok true → v = .cancelled ∧ c.terms.IsCredit) →
      FailsOnly (Fault.RefusesFor (v = .cancelled ∧ c.terms.IsCredit))
        (c.item.repair id start finish m none) := by
    intro m start finish h
    refine (Item.repair_fails c.item).mono fun f hf => ?_
    rcases hf with hf | ⟨rfl, hpositive⟩
    · exact hf.refusesFor _
    · exact fun _ => ⟨rfl, h hpositive⟩
  cases v with
  | kept p => exact .ok none
  | shortened p =>
    obtain ⟨-, -, hle, -⟩ := hv
    rw [Decimal.le?_eq (hp p rfl) hc] at hle
    have hle : p.amount.amount.toRat ≤ c.amount.amount.toRat := by simpa using hle
    refine ((Money.sub_plain _ _).mono fun f hf => hf.refusesFor _).bind fun m hm => ?_
    refine (hrefused fun hpositive => ?_).bind fun i _ => .ok _
    -- The proposal amounts to no more, so what is taken back is not positive.
    obtain ⟨-, d, hd, rfl⟩ := Money.sub_eq_ok hm
    rw [Decimal.lt?_zero_sub (hp p rfl) hc hle hd] at hpositive
    cases hpositive
  | cancelled =>
    refine ((Money.neg_plain _).mono fun f hf => hf.refusesFor _).bind fun m hm => ?_
    refine (hrefused fun hpositive => ?_).bind fun i _ => .ok _
    refine ⟨rfl, c.amount.amount.toRat, ?_, Decimal.worth_eq_inl hc⟩
    by_contra hnonneg
    obtain ⟨d, hd, rfl⟩ := Money.neg_eq_ok hm
    rw [Decimal.lt?_zero_neg hc (not_lt.1 hnonneg) hd] at hpositive
    cases hpositive

/-! ## The order of settling -/

/-- Whether a charge does not end after another one that starts on its day. -/
def EndsBy (a b : Charge) : Prop :=
  a.item.start = b.item.start → ∀ d ∈ a.finish, ∀ e ∈ b.finish, d ≤ e

theorem not_lex_iff {a b : Charge} :
    (!b.rank.lex a.rank (· < ·)) = true ↔ ¬ b.rank < a.rank := by
  rw [Bool.not_eq_true', ← Bool.not_eq_true, List.lex_eq_true_iff_lt]

theorem endsBy_of_rank {a b : Charge} (h : ¬ b.rank < a.rank) : EndsBy a b := by
  intro hstart d hd e he
  by_contra hlt
  have hlt : e.dayNumber < d.dayNumber := Date.lt_iff.1 (not_le.1 hlt)
  apply h
  unfold rank
  rw [Option.mem_def.1 hd, Option.mem_def.1 he, hstart]
  exact List.cons_lt_cons_iff.2 (.inr ⟨rfl, List.cons_lt_cons_iff.2 (.inl hlt)⟩)

theorem sorted_endsBy (cs : List Charge) : (sorted cs).Pairwise EndsBy := by
  have hsorted : (sorted cs).Pairwise fun a b => (!b.rank.lex a.rank (· < ·)) = true := by
    refine List.pairwise_mergeSort (fun a b c hab hbc => ?_) (fun a b => ?_) cs
    · rw [not_lex_iff, not_lt] at hab hbc ⊢
      exact hab.trans hbc
    · rw [Bool.or_eq_true, not_lex_iff, not_lex_iff, not_lt, not_lt]
      exact le_total _ _
  exact hsorted.imp fun h => endsBy_of_rank (not_lex_iff.1 h)

theorem terms_ne_of_shortened {c' : Charge} (hv : (Verdict.shortened p).Fits c) (h : c.EndsBy c') :
    c'.terms ≠ p.terms := by
  -- The proposal ends before `c` does, and a charge of its day that is settled later does not.
  intro hterms
  obtain ⟨hcause, -, -, d, e, hd, he, hlt⟩ := hv
  have hstart : c'.item.start = p.item.start := congrArg Terms.start hterms
  have hfinish : c'.finish = p.finish := congrArg Terms.finish hterms
  have hle := h (hcause.2.2.2.2.2.symm.trans hstart.symm) e he d
    (Option.mem_def.2 (hfinish.trans hd))
  exact absurd hlt (not_lt.2 hle)

end Charge

theorem DropsCredit.of_rest {c : Charge} {v : Verdict} {cs ps : List Charge} (hv : v.Fits c)
    (hlater : ∀ c' ∈ cs, c.EndsBy c')
    (h : DropsCredit (cs.map Charge.terms) (ps.map Charge.terms)) :
    DropsCredit ((c :: cs).map Charge.terms) ((v.proposal?.toList ++ ps).map Charge.terms) := by
  cases v with
  | kept p =>
    show DropsCredit (c.terms :: cs.map Charge.terms) (p.terms :: ps.map Charge.terms)
    rw [show p.terms = c.terms from hv]
    exact h.cons c.terms
  | shortened p =>
    refine (h.besides fun hmem => ?_).more c.terms
    obtain ⟨c', hc', hterms⟩ := List.mem_map.1 hmem
    exact Charge.terms_ne_of_shortened hv (hlater c' hc') hterms
  | cancelled => exact h.more c.terms

/-! ## Settling -/

namespace Ledger

theorem settle_fails (ids : Nat → Id) (s : Option Id) {ps cs : List Charge}
    (hn : (ps.map (·.handle)).Nodup) (hc : ∀ c ∈ cs, c.IsFinite) (hp : ∀ p ∈ ps, p.IsFinite)
    (hps : ∀ p ∈ ps, p.item.subscription = s) (hcs : ∀ c ∈ cs, c.item.subscription = s)
    (horder : cs.Pairwise Charge.EndsBy) :
    FailsOnly (Fault.RefusesFor (DropsCredit ((cs.filter (·.isActive)).map Charge.terms)
      ((ps.filter (!·.matched)).map Charge.terms))) (settle ids ps cs).repairs := by
  -- The induction is on the charges still to be settled, which are in the order of their ends.
  induction cs generalizing ps with
  | nil => exact .ok []
  | cons c cs ih =>
    obtain ⟨hlater, horder⟩ := List.pairwise_cons.1 horder
    have hc' : ∀ c' ∈ cs, c'.IsFinite := fun c' h => hc c' (by simp [h])
    have hcs' : ∀ c' ∈ cs, c'.item.subscription = s := fun c' h => hcs c' (by simp [h])
    by_cases hactive : c.isActive
    · rw [List.filter_cons_of_pos hactive]
      cases hv : c.verdict? ps with
      | error signal =>
        simp only [settle, hactive, hv, if_true]
        exact .error fun hr => absurd hr fun h => h
      | ok v =>
        obtain ⟨hfits, hopen⟩ :=
          Charge.fits_of_verdict? (fun p h => (hps p h).trans (hcs c (by simp)).symm) hv
        simp only [settle, hactive, hv, if_true]
        cases hr : c.repair (ids c.handle) v with
        | error f =>
          have hfails := Charge.repair_fails (ids c.handle) (hc c (by simp)).amount hfits
            fun p h => (hp p (hopen p h).1).amount
          refine .error ((hfails f hr).imp fun hcancel => .here hcancel.2 fun hmem => ?_)
          -- With an open proposal of the same terms the charge would have been kept.
          obtain ⟨p, hpo, hterms⟩ := List.mem_map.1 hmem
          obtain ⟨hpmem, hpopen⟩ : p ∈ ps ∧ p.matched = false := by simpa using hpo
          obtain ⟨q, hq⟩ := Charge.verdict?_kept (hc c (by simp)).comparable
            (hc c (by simp)).rate (fun p h => (hp p h).comparable) hpmem hpopen hterms
          rw [hv, hcancel.1] at hq
          cases hq
        | ok r =>
          have hrest := ih (by rw [map_handle_markProposal]; exact hn) hc'
            (forall_markProposal (fun _ h => ⟨h.amount, h.rate⟩) v hp)
            (forall_markProposal (fun _ h => h) v hps) hcs' horder
          have hperm := (open_markProposal hn hopen).map Charge.terms
          refine (hrest.mono fun f hf => hf.imp fun hdrop => ?_).map
          exact (hdrop.of_rest hfits fun c' h => hlater c' (List.mem_of_mem_filter h)).perm
            (.refl _) hperm
    · rw [List.filter_cons_of_neg (by simpa using hactive)]
      simp only [settle, hactive]
      exact ih hn hc' hp hps hcs' horder

theorem merge_fails (ids : Nat → Id) (s : Option Id) {l : Ledger}
    (hn : (l.proposed.map (·.handle)).Nodup) (hopen : ∀ p ∈ l.proposed, p.matched = false)
    (hc : ∀ c ∈ l.issued, c.IsFinite) (hp : ∀ p ∈ l.proposed, p.IsFinite)
    (hps : ∀ p ∈ l.proposed, p.item.subscription = s)
    (hcs : ∀ c ∈ l.issued, c.item.subscription = s) :
    FailsOnly (Fault.RefusesFor (DropsCredit ((l.issued.filter (·.isActive)).map Charge.terms)
      (l.proposed.map Charge.terms))) (l.merge ids).1 := by
  have hissued := sorted_perm l.issued
  have hproposed := sorted_perm l.proposed
  have hfails := settle_fails ids s (((hproposed.map _).nodup_iff).2 hn)
    (fun c h => hc c (hissued.mem_iff.1 h)) (fun p h => hp p (hproposed.mem_iff.1 h))
    (fun p h => hps p (hproposed.mem_iff.1 h)) (fun c h => hcs c (hissued.mem_iff.1 h))
    (Charge.sorted_endsBy l.issued)
  have hall : l.proposed.filter (!·.matched) = l.proposed :=
    List.filter_eq_self.2 fun p h => by simp [hopen p h]
  refine FailsOnly.map (hfails.mono fun f hf => hf.imp fun hdrop => ?_)
  have hopened := (hproposed.filter (!·.matched)).map Charge.terms
  rw [hall] at hopened
  exact hdrop.perm ((hissued.filter _).map _) hopened

end Ledger

section

variable {ids : Nat → Id} {issued proposed : List Charge}

theorem settleAll_fails (ids : Nat → Id) (hn : (proposed.map (·.handle)).Nodup)
    (hopen : ∀ p ∈ proposed, p.matched = false) (hc : ∀ c ∈ issued, c.IsFinite)
    (hp : ∀ p ∈ proposed, p.IsFinite) :
    FailsOnly (Fault.RefusesFor (DropsCredit ((issued.filter (·.isActive)).map Charge.terms)
      (proposed.map Charge.terms))) (settleAll ids (ledgers issued proposed)) := by
  refine FailsOnly.bind (FailsOnly.mapM fun l hl => ?_) fun ds _ => .ok _
  obtain ⟨s, -, rfl⟩ := List.mem_map.1 hl
  have hfails := Ledger.merge_fails ids s (l := ⟨ofSubscription s issued, ofSubscription s proposed⟩)
    ((List.filter_sublist.map _).nodup hn) (fun p h => hopen p (List.mem_of_mem_filter h))
    (fun c h => hc c (List.mem_of_mem_filter h)) (fun p h => hp p (List.mem_of_mem_filter h))
    subscription_of_mem subscription_of_mem
  refine hfails.mono fun f hf => hf.imp fun hdrop => ?_
  -- Terms say whose they are, so a ledger has all that there are of its own.
  have hterms : ∀ cs : List Charge, (ofSubscription s cs).map Charge.terms =
      (cs.map Charge.terms).filter (·.subscription = s) := by
    intro cs
    rw [List.filter_map]
    rfl
  rw [List.filter_comm, hterms, hterms] at hdrop
  exact hdrop.of_filter

end

/-! ## A reconciliation -/

section

variable {existing proposed : List Item} {pinned : List Id}

theorem termsInForce_owned {first : Nat} {cs : List Charge}
    (h : (Holdings.ofItems existing pinned).issued first = .ok cs) :
    termsInForce (owned existing pinned) = (cs.filter (·.isActive)).map Charge.terms := by
  obtain ⟨hitems, hstands⟩ := Holdings.issued_parts h
  have hcharges : cs.map (·.item) = chargesOf (owned existing pinned) := hitems
  rw [termsInForce, ← hcharges, List.filterMap_map, ← List.filterMap_eq_map, List.filterMap_filter]
  refine List.filterMap_congr fun c hc => ?_
  have hstand := hstands c hc
  rw [Holdings.repairsOf_owned] at hstand
  rw [Function.comp, Item.inForce?_of_issued hstand]
  rfl

/-- A reconciliation is refused only if it drops a credit. -/
theorem reconciled_fails (ids : Nat → Id) (pinned : List Id) (he : ∀ i ∈ existing, i.IsFinite)
    (hp : ∀ i ∈ proposed, i.IsFinite) :
    FailsOnly (Fault.RefusesFor
        (DropsCredit (termsInForce (owned existing pinned)) (proposed.map Item.terms)))
      (reconciled ids existing proposed pinned) := by
  refine ((Holdings.issued_plain _ _).mono fun f hf => hf.refusesFor _).bind fun cs hcs => ?_
  have hfails := settleAll_fails ids (nodup_handle_proposals proposed)
    (fun p hmem => by rw [(proposals_eq_of_mem hmem).2]; rfl) (Holdings.issued_isFinite he hcs)
    (proposals_isFinite hp)
  rw [← termsInForce_owned hcs, map_terms_proposals] at hfails
  exact hfails.bind fun d _ => .ok _

end

end Invoicing
