import Invoicing.Proofs.Reconciliation.Refusal

/-!
# Equals are matched

A charge that is still due exactly as it was issued is left alone. Of the charges in force on some terms
as many are kept as there are proposals on the same terms, and the others are repaired once each
(`reconcile_keeps_equal`). A proposal is not lost to a charge that is shortened to it, since the charges
that end with the proposal are settled before.
-/

namespace Invoicing

namespace Terms

/-- Whether terms equal themselves: those with a price that is not a number equal nothing. -/
def equalsItself (t : Terms) : Bool := t.rate.all (Sum.elim (fun _ => true) Decimal.equalsItself)

/-- Whether terms equal others, in price and amount by value. -/
def equals (t u : Terms) : Bool := t = u && u.equalsItself

end Terms

theorem Charge.rate_equalsItself {c : Charge} (h : c.terms.equalsItself) :
    ∀ d ∈ c.item.rate, d.equalsItself := by
  intro d hd
  have hall : (c.item.rate.map Decimal.worth).all (Sum.elim (fun _ => true) Decimal.equalsItself) =
      true := h
  rw [Option.mem_def.1 hd] at hall
  match d, hall with
  | .finite .., _ => rfl
  | .infinite _, _ => rfl
  | .nan .., hall => exact hall

/-- Whether a verdict keeps its charge. -/
def Verdict.isKept : Verdict → Bool
  | .kept _ => true
  | _ => false

theorem Verdict.isKept_iff {v : Verdict} : v.isKept ↔ ∃ p, v = .kept p := by
  cases v <;> simp [Verdict.isKept]

variable {t : Terms}

/-! ## One charge after the other -/

theorem min_count_settled {c : Charge} {v : Verdict} {cs ps : List Charge} (hv : v.Fits c)
    (hlater : ∀ c' ∈ cs, c.EndsBy c')
    (hkept : c.terms = t → t ∈ (v.proposal?.toList ++ ps).map Charge.terms → v.isKept) :
    min (((c :: cs).map Charge.terms).count t)
        (((v.proposal?.toList ++ ps).map Charge.terms).count t) =
      (if v.isKept && c.terms = t then 1 else 0) +
        min ((cs.map Charge.terms).count t) ((ps.map Charge.terms).count t) := by
  have hmissed : v.isKept = false → c.terms = t →
      ((v.proposal?.toList ++ ps).map Charge.terms).count t = 0 := fun hout hc =>
    List.count_eq_zero.2 fun hmem => by simp [hkept hc hmem] at hout
  cases v with
  | kept p =>
    have hterms : p.terms = c.terms := hv
    have hcons : ((Verdict.kept p).proposal?.toList ++ ps).map Charge.terms =
        c.terms :: ps.map Charge.terms := by rw [← hterms]; rfl
    rw [hcons, List.map_cons, List.count_cons, List.count_cons]
    simp only [Verdict.isKept, Bool.true_and, beq_iff_eq, decide_eq_true_eq]
    omega
  | shortened p =>
    have hnone : p.terms = t → (cs.map Charge.terms).count t = 0 := by
      intro hp
      refine List.count_eq_zero.2 fun hmem => ?_
      obtain ⟨c', hc', hterms⟩ := List.mem_map.1 hmem
      exact Charge.terms_ne_of_shortened hv (hlater c' hc') (hterms.trans hp.symm)
    have hcons : ((Verdict.shortened p).proposal?.toList ++ ps).map Charge.terms =
        p.terms :: ps.map Charge.terms := rfl
    have hmissed := hmissed rfl
    rw [hcons, List.count_cons] at hmissed
    rw [hcons, List.map_cons, List.count_cons, List.count_cons]
    simp only [Verdict.isKept, Bool.false_and, beq_iff_eq, Bool.false_eq_true, if_false]
      at hmissed ⊢
    by_cases hc : c.terms = t
    · have := hmissed hc
      omega
    · by_cases hp : p.terms = t
      · simp [hc, hnone hp]
      · simp [hc, hp]
  | cancelled =>
    have hcons : ((Verdict.cancelled).proposal?.toList ++ ps).map Charge.terms =
        ps.map Charge.terms := rfl
    have hmissed := hmissed rfl
    rw [hcons] at hmissed
    rw [hcons, List.map_cons, List.count_cons]
    simp only [Verdict.isKept, Bool.false_and, beq_iff_eq, Bool.false_eq_true, if_false]
    by_cases hc : c.terms = t
    · simp [hmissed hc]
    · simp [hc]

namespace Ledger

theorem mem_judge {ps cs : List Charge} {x : Charge × Verdict} (hx : x ∈ judge ps cs) :
    x.1 ∈ cs := by
  induction cs generalizing ps with
  | nil => simp [judge] at hx
  | cons c cs ih =>
    rw [judge] at hx
    split at hx
    case isFalse => exact List.mem_cons_of_mem c (ih hx)
    case isTrue =>
    split at hx
    case h_1 => simp at hx
    case h_2 v hv =>
    rcases List.mem_cons.1 hx with rfl | hx
    · exact List.mem_cons_self ..
    · exact List.mem_cons_of_mem c (ih hx)

theorem verdicts_nil (proposed : List Charge) : verdicts ⟨[], proposed⟩ = [] := by
  have hsorted : Charge.sorted [] = [] := List.mergeSort_nil
  rw [verdicts, sorted, hsorted, judge]

theorem count_kept_judge (ht : t.equalsItself) {ids : Nat → Id} {s : Option Id}
    {ps cs : List Charge} {repairs : List Item} (hn : (ps.map (·.handle)).Nodup)
    (hps : ∀ p ∈ ps, p.item.subscription = s) (hcs : ∀ c ∈ cs, c.item.subscription = s)
    (hf : ∀ c ∈ cs, c.amount.amount.isFinite) (horder : cs.Pairwise Charge.EndsBy)
    (h : (settle ids ps cs).repairs = .ok repairs) :
    (judge ps cs).countP (fun x => x.2.isKept && x.1.terms = t) =
      min (((cs.filter (·.isActive)).map Charge.terms).count t)
        (((ps.filter (!·.matched)).map Charge.terms).count t) := by
  -- The induction is on the charges to be settled, which are in the order of their ends.
  induction cs generalizing ps repairs with
  | nil => simp [judge]
  | cons c cs ih =>
    obtain ⟨hlater, horder⟩ := List.pairwise_cons.1 horder
    have hcs' : ∀ c' ∈ cs, c'.item.subscription = s := fun c' hc' => hcs c' (by simp [hc'])
    have hf' : ∀ c' ∈ cs, c'.amount.amount.isFinite := fun c' hc' => hf c' (by simp [hc'])
    by_cases hactive : c.isActive
    · cases hv : c.verdict? ps with
      | error f => simp [settle, hactive, hv] at h
      | ok v =>
        cases hr : c.repair (ids c.handle) v with
        | error f => simp [settle, hactive, hv, hr] at h
        | ok r =>
          simp only [settle, hactive, hv, hr, if_true] at h
          obtain ⟨rs, hrs, -⟩ := map_eq_ok_iff.1 h
          obtain ⟨hfits, hopen⟩ :=
            Charge.fits_of_verdict? (fun p hp => (hps p hp).trans (hcs c (by simp)).symm) hv
          have hperm := (open_markProposal hn hopen).map Charge.terms
          have hrest := ih (by rw [map_handle_markProposal]; exact hn)
            (forall_markProposal (fun _ h => h) v hps) hcs' hf' horder hrs
          rw [List.filter_cons_of_pos hactive, ← hperm.count_eq,
            min_count_settled hfits (fun c' hc' => hlater c' (List.mem_of_mem_filter hc')), ← hrest]
          · simp only [judge, hactive, hv, if_true, List.countP_cons]
            omega
          · -- A charge on the terms of an open proposal is kept.
            intro hc hmem
            obtain ⟨p, hpo, hp⟩ := List.mem_map.1 (hperm.mem_iff.1 hmem)
            obtain ⟨hpmem, hpopen⟩ : p ∈ ps ∧ p.matched = false := by simpa using hpo
            obtain ⟨q, rfl⟩ := Charge.kept_of_verdict? (hf c (by simp))
              (Charge.rate_equalsItself (hc.symm ▸ ht)) hpmem hpopen (hp.trans hc.symm) hv
            rfl
    · rw [List.filter_cons_of_neg (by simpa using hactive)]
      simp only [settle, judge, hactive] at h ⊢
      exact ih hn hps hcs' hf' horder h

theorem count_kept_verdicts (ht : t.equalsItself) {ids : Nat → Id} {s : Option Id} {l : Ledger}
    {d : Difference} (hn : (l.proposed.map (·.handle)).Nodup)
    (hopen : ∀ p ∈ l.proposed, p.matched = false)
    (hps : ∀ p ∈ l.proposed, p.item.subscription = s)
    (hcs : ∀ c ∈ l.issued, c.item.subscription = s)
    (hf : ∀ c ∈ l.issued, c.amount.amount.isFinite) (h : (l.merge ids).1 = .ok d) :
    l.verdicts.countP (fun x => x.2.isKept && x.1.terms = t) =
      min (((l.issued.filter (·.isActive)).map Charge.terms).count t)
        ((l.proposed.map Charge.terms).count t) := by
  obtain ⟨rs, hrs, -⟩ := map_eq_ok_iff.1 h
  have hissued := sorted_perm l.issued
  have hproposed := sorted_perm l.proposed
  have hall : l.proposed.filter (!·.matched) = l.proposed :=
    List.filter_eq_self.2 fun p hp => by simp [hopen p hp]
  have hcount := count_kept_judge ht (((hproposed.map _).nodup_iff).2 hn)
    (fun p hp => hps p (hproposed.mem_iff.1 hp)) (fun c hc => hcs c (hissued.mem_iff.1 hc))
    (fun c hc => hf c (hissued.mem_iff.1 hc)) (Charge.sorted_endsBy l.issued) hrs
  rw [((hissued.filter _).map _).count_eq, ((hproposed.filter _).map _).count_eq, hall] at hcount
  exact hcount

end Ledger

/-! ## All ledgers -/

section

variable {issued proposed : List Charge}

theorem ofSubscription_eq_nil {s : Option Id}
    (hs : s ∉ (proposed ++ issued).map (·.item.subscription)) : ofSubscription s issued = [] :=
  List.filter_eq_nil_iff.2 fun c hc hcs =>
    hs (List.mem_map.2 ⟨c, List.mem_append_right _ hc, of_decide_eq_true hcs⟩)

theorem filter_verdicts (issued proposed : List Charge) (s : Option Id) :
    (verdicts issued proposed).filter (·.1.item.subscription = s) =
      Ledger.verdicts ⟨ofSubscription s issued, ofSubscription s proposed⟩ := by
  have hmark : ∀ s', ∀ x ∈ Ledger.verdicts ⟨ofSubscription s' issued, ofSubscription s' proposed⟩,
      x.1.item.subscription = s' := fun s' x hx =>
    subscription_of_mem x.1 ((Ledger.sorted_perm _).mem_iff.1 (Ledger.mem_judge hx))
  rw [verdicts, ledgers, List.flatMap_map]
  by_cases hs : s ∈ (proposed ++ issued).map (·.item.subscription)
  · refine filter_flatMap_eq (k := id) ?_ (Holdings.mem_distinct.2 hs) fun s' _ x hx => ?_
    · rw [List.map_id]
      exact Holdings.nodup_distinct _
    · rw [decide_eq_true_iff, hmark s' x hx]
      rfl
  · rw [ofSubscription_eq_nil hs, Ledger.verdicts_nil]
    refine List.filter_eq_nil_iff.2 fun x hx hxs => ?_
    obtain ⟨s', hs', hx⟩ := List.mem_flatMap.1 hx
    rw [decide_eq_true_iff, hmark s' x hx] at hxs
    exact hs (Holdings.mem_distinct.1 (hxs ▸ hs'))

theorem count_ofSubscription (cs : List Charge) (t : Terms) :
    ((ofSubscription t.subscription cs).map Charge.terms).count t =
      (cs.map Charge.terms).count t := by
  have hterms : (ofSubscription t.subscription cs).map Charge.terms =
      (cs.map Charge.terms).filter (·.subscription = t.subscription) := by
    rw [List.filter_map]
    rfl
  rw [hterms]
  exact List.count_filter (by simp)

theorem count_kept_verdicts (ht : t.equalsItself) {ids : Nat → Id} {d : Difference}
    (hn : (proposed.map (·.handle)).Nodup) (hopen : ∀ p ∈ proposed, p.matched = false)
    (hf : ∀ c ∈ issued, c.amount.amount.isFinite)
    (h : settleAll ids (ledgers issued proposed) = .ok d) :
    (verdicts issued proposed).countP (fun x => x.2.isKept && x.1.terms = t) =
      min (((issued.filter (·.isActive)).map Charge.terms).count t)
        ((proposed.map Charge.terms).count t) := by
  have hown : (verdicts issued proposed).countP (fun x => x.2.isKept && x.1.terms = t) =
      ((verdicts issued proposed).filter (·.1.item.subscription = t.subscription)).countP
        fun x => x.2.isKept && x.1.terms = t := by
    rw [List.countP_filter]
    refine List.countP_congr fun x _ => ?_
    simp only [Bool.and_eq_true, decide_eq_true_eq]
    exact ⟨fun hx => ⟨hx, congrArg Terms.subscription hx.2⟩, And.left⟩
  have hactive : ofSubscription t.subscription (issued.filter (·.isActive)) =
      (ofSubscription t.subscription issued).filter (·.isActive) := List.filter_comm ..
  rw [hown, filter_verdicts, ← count_ofSubscription, ← count_ofSubscription proposed, hactive]
  by_cases hs : t.subscription ∈ (proposed ++ issued).map (·.item.subscription)
  · obtain ⟨ds, hds, -⟩ := map_eq_ok_iff.1 h
    obtain ⟨d', -, hd'⟩ := exists_of_mapM hds
      (List.mem_map_of_mem (Holdings.mem_distinct.2 hs))
    exact Ledger.count_kept_verdicts ht ((List.filter_sublist.map _).nodup hn)
      (fun p hp => hopen p (List.mem_of_mem_filter hp)) subscription_of_mem subscription_of_mem
      (fun c hc => hf c (List.mem_of_mem_filter hc)) hd'
  · rw [ofSubscription_eq_nil hs, Ledger.verdicts_nil]
    simp

end

/-! ## A reconciliation -/

/-- The charges among some items that are in force on some terms. -/
def chargesOn (items : List Item) (t : Terms) : List Item :=
  (chargesOf items).filter fun i => (i.inForce? items).any (·.equals t)

theorem Terms.equals_eq (ht : t.equalsItself) (u : Terms) : u.equals t = decide (u = t) := by
  rw [equals, ht, Bool.and_true]

theorem Terms.equals_eq_false (ht : t.equalsItself = false) (u : Terms) : u.equals t = false := by
  rw [equals, ht, Bool.and_false]

theorem length_chargesOn (ht : t.equalsItself) (items : List Item) :
    (chargesOn items t).length = (termsInForce items).count t := by
  rw [chargesOn, ← List.countP_eq_length_filter, termsInForce, List.count_eq_countP,
    List.countP_filterMap]
  refine List.countP_congr fun i _ => ?_
  cases i.inForce? items <;> simp [Terms.equals_eq ht]

theorem countP_equals (ht : t.equalsItself) (items : List Item) :
    items.countP (·.terms.equals t) = (items.map Item.terms).count t := by
  rw [List.count_eq_countP, List.countP_map]
  refine List.countP_congr fun i _ => ?_
  simp [Terms.equals_eq ht]

theorem repairsFor_cases {ids : Nat → Id} {x : Charge × Verdict} {o : Option Item}
    (h : x.1.repair (ids x.1.handle) x.2 = .ok o) :
    x.2.isKept ∧ repairsFor ids x = [] ∨ x.2.isKept = false ∧ ∃ r, repairsFor ids x = [r] := by
  have hrepairs : repairsFor ids x = o.toList := by simp [repairsFor, h]
  obtain ⟨c, v⟩ := x
  rw [hrepairs]
  rcases Charge.repair_cases h with ⟨⟨p, rfl⟩, rfl⟩ | ⟨r, rfl, -⟩
  · exact .inl ⟨rfl, rfl⟩
  · refine .inr ⟨?_, r, rfl⟩
    cases v with
    | kept p => cases h
    | shortened p => rfl
    | cancelled => rfl

namespace Posting

variable {Good : List Item → Charge → Prop} {items proposed : List Item} {ids : Nat → Id}
  {issued rest : List Charge} {vs : List (Charge × Verdict)} {r : Reconciliation}

theorem chargesOn_perm (post : Posting Good items proposed [] ids issued rest vs r)
    (ht : t.equalsItself) :
    (chargesOn items t).Perm ((vs.filter (·.1.terms = t)).map (·.1.item)) := by
  have hitems : chargesOf items = issued.map (·.item) := by
    rw [post.items_eq]
    symm
    exact List.filter_eq_self.2 fun i _ => by cases hs : i.subscription <;> simp [Item.isOf, hs]
  have hdue : chargesOn items t =
      ((issued.filter (·.isActive)).filter (·.terms = t)).map (·.item) := by
    rw [chargesOn, hitems, List.filter_map, List.filter_filter]
    refine congrArg _ (List.filter_congr fun c hc => ?_)
    rw [Function.comp, Item.inForce?_of_issued (post.stands c hc).1]
    cases hactive : c.isActive <;> simp [Terms.equals_eq ht]
  have hverdicts : (vs.filter (·.1.terms = t)).map (·.1.item) =
      ((vs.map (·.1)).filter (·.terms = t)).map (·.item) := by
    rw [List.filter_map, List.map_map]
    rfl
  rw [hdue, hverdicts]
  exact ((post.settles.charges.filter _).map _).symm

theorem repairsIn_chargesOn (post : Posting Good items proposed [] ids issued rest vs r)
    (hids : ((chargesOf items).map (·.id)).Nodup) (ht : t.equalsItself) :
    (∀ i ∈ chargesOn items t, i.repairsIn r.difference.repairs = [] ∨
      ∃ x, i.repairsIn r.difference.repairs = [x]) ∧
    (chargesOn items t).countP (fun i => i.repairsIn r.difference.repairs = []) =
      vs.countP fun x => x.2.isKept && x.1.terms = t := by
  have hperm := post.chargesOn_perm ht
  have hcases : ∀ x ∈ vs, (x.2.isKept ∧ x.1.item.repairsIn r.difference.repairs = []) ∨
      x.2.isKept = false ∧ ∃ b, x.1.item.repairsIn r.difference.repairs = [b] := by
    intro x hx
    obtain ⟨o, ho⟩ := post.settles.made x hx
    rw [post.repairsIn_repairs hids hx]
    exact repairsFor_cases ho
  constructor
  · intro i hi
    obtain ⟨x, hx, rfl⟩ := List.mem_map.1 (hperm.mem_iff.1 hi)
    exact (hcases x (List.mem_of_mem_filter hx)).imp And.right And.right
  · rw [hperm.countP_eq, List.countP_map, List.countP_filter]
    refine List.countP_congr fun x hx => ?_
    rcases hcases x hx with ⟨hkept, hnone⟩ | ⟨hkept, b, hone⟩
    · simp [hkept, hnone]
    · simp [hkept, hone]

theorem count_new_le (post : Posting Good items proposed [] ids issued rest vs r)
    (ht : t.equalsItself) :
    r.difference.newItems.countP (·.terms.equals t) +
      vs.countP (fun x => x.2.isKept && x.1.terms = t) ≤ proposed.countP (·.terms.equals t) := by
  have hnew : r.difference.newItems.map Item.terms = rest.map Charge.terms := by
    rw [post.newItems, List.map_map]
    exact List.map_congr_left fun p hp => by rw [(post.mem_rest hp).2]; rfl
  have hkept : vs.countP (fun x => x.2.isKept && x.1.terms = t) ≤
      ((vs.filterMap (·.2.proposal?)).map Charge.terms).count t := by
    rw [List.count_eq_countP, List.countP_map, List.countP_filterMap]
    refine List.countP_mono_left fun x hx hkept => ?_
    obtain ⟨c, v⟩ := x
    simp only [Bool.and_eq_true, decide_eq_true_eq] at hkept
    cases v with
    | kept p =>
      have hterms : p.terms = c.terms := post.settles.fits _ hx
      simp [Verdict.proposal?, hterms, hkept.2]
    | shortened p => simp [Verdict.isKept] at hkept
    | cancelled => simp [Verdict.isKept] at hkept
  have hall := (post.settles.proposals.map Charge.terms).count_eq t
  rw [List.map_append, List.count_append, map_terms_proposals] at hall
  rw [countP_equals ht, countP_equals ht, hnew]
  omega

end Posting

variable {existing proposed : List Item} {pinned : List Id} {r : Reconciliation}

/-- Of the charges in force on some terms as many are left alone as are proposed on the same terms, each
of the others gets one repair, and of the proposals only the others can be new. -/
theorem reconcile_keeps_equal {s s' : Session}
    (hids : ((chargesOf (owned existing pinned)).map (·.id)).Nodup)
    (hfinite : ∀ i ∈ owned existing pinned, i.amount.amount.isFinite)
    (hrun : (reconcile existing proposed pinned).from_ s = (.ok r, s')) (t : Terms) :
    (∀ i ∈ chargesOn (owned existing pinned) t, i.repairsIn r.difference.repairs = [] ∨
      ∃ x, i.repairsIn r.difference.repairs = [x]) ∧
    (chargesOn (owned existing pinned) t).countP
        (fun i => i.repairsIn r.difference.repairs = []) =
      min (chargesOn (owned existing pinned) t).length (proposed.countP (·.terms.equals t)) ∧
    r.difference.newItems.countP (·.terms.equals t) ≤ proposed.countP (·.terms.equals t) -
      min (chargesOn (owned existing pinned) t).length (proposed.countP (·.terms.equals t)) := by
  cases ht : t.equalsItself with
  | false => simp [chargesOn, Terms.equals_eq_false ht]
  | true =>
    obtain ⟨ids, hr⟩ := reconciled_of_run hrun
    obtain ⟨issued, rest, post⟩ := posting_owned hr
    obtain ⟨cs, hcs, hsettled⟩ := reconciled_parts hr
    obtain ⟨hone, hleft⟩ := post.repairsIn_chargesOn hids ht
    have hnew := post.count_new_le ht
    have hkept := count_kept_verdicts ht (nodup_handle_proposals proposed)
      (fun _ => open_proposals) (Holdings.amount_isFinite hfinite hcs) hsettled
    have hverdicts : verdictsOf existing proposed pinned = verdicts cs (proposals proposed) := by
      rw [verdictsOf, hcs]
    rw [← termsInForce_owned hcs, ← length_chargesOn ht, map_terms_proposals, ← countP_equals ht,
      ← hverdicts] at hkept
    rw [hkept] at hleft hnew
    exact ⟨hone, hleft, by omega⟩

/-- A charge for two months, and two equal ones for the first of them. -/
def twinItems : List Item :=
  [monthlyCharge 10 1 march january_lt_march 6000 (.ofInt 30),
   monthlyCharge 11 1 february january_lt_february 3000 (.ofInt 30),
   monthlyCharge 12 1 february january_lt_february 3000 (.ofInt 30)]

/-- The first month, at a price of 30.0. -/
def twinProposal : Item :=
  monthlyCharge 20 1 february january_lt_february 3000 (.finite false 300 (-1))

/-- The charges that are found of them. -/
def twinCharges : List Charge := (twinItems.zipIdx 1).map fun (i, h) => .proposed h i

theorem reconcile_twins :
    ∃ r s', (reconcile twinItems [twinProposal] []).from_ .start = (.ok r, s') := by
  obtain ⟨s', hrun, -⟩ := reconcile_from twinItems [twinProposal] [] .start
  have hissued : (Holdings.ofItems twinItems []).issued 1 = .ok twinCharges := rfl
  have hcs : ∀ c ∈ twinCharges, c.Comparable := by decide
  have hps : ∀ p ∈ proposals [twinProposal], p.Comparable := by decide
  have hmade : ∀ c ∈ twinCharges, (c.repair (.minted (0 + c.handle)) .cancelled).isOk ∧
      ∀ p ∈ proposals [twinProposal],
        (c.repair (.minted (0 + c.handle)) (.shortened p)).isOk := by decide +kernel
  obtain ⟨d, hd⟩ : ∃ d, settleAll (fun i => .minted (0 + i))
      (ledgers twinCharges (proposals [twinProposal])) = .ok d := by
    refine settleAll_isOk hcs hps fun c hc _ v _ hv => ?_
    cases v with
    | kept p => exact ⟨none, rfl⟩
    | shortened p => exact isOk_iff.1 ((hmade c hc).2 p (hv p rfl))
    | cancelled => exact isOk_iff.1 (hmade c hc).1
  have hr : reconciled (fun i => .minted (0 + i)) twinItems [twinProposal] [] =
      .ok ⟨d, (Holdings.ofItems twinItems []).untouched⟩ :=
    bind_eq_ok_iff.2 ⟨_, hissued, bind_eq_ok_iff.2 ⟨d, hd, rfl⟩⟩
  exact ⟨_, s', hrun.trans (congrArg (·, s') hr)⟩

/-- Of the equal charges one is kept, since the longer one does not take the proposal. -/
theorem reconcile_keeps_equal_twins :
    ((chargesOf (owned twinItems [])).map (·.id)).Nodup ∧
    (∀ i ∈ owned twinItems [], i.amount.amount.isFinite) ∧
    ∃ r s', (reconcile twinItems [twinProposal] []).from_ .start = (.ok r, s') ∧
      (chargesOn (owned twinItems []) twinProposal.terms).length = 2 ∧
      (chargesOn (owned twinItems []) twinProposal.terms).countP
        (fun i => i.repairsIn r.difference.repairs = []) = 1 ∧
      r.difference.newItems.countP (·.terms.equals twinProposal.terms) = 0 := by
  have hids : ((chargesOf (owned twinItems [])).map (·.id)).Nodup := by decide
  have hfinite : ∀ i ∈ owned twinItems [], i.amount.amount.isFinite := by decide
  have hlength : (chargesOn (owned twinItems []) twinProposal.terms).length = 2 := by
    decide +kernel
  have hcount : [twinProposal].countP (·.terms.equals twinProposal.terms) = 1 := by
    decide +kernel
  obtain ⟨r, s', hrun⟩ := reconcile_twins
  obtain ⟨-, hleft, hnew⟩ := reconcile_keeps_equal hids hfinite hrun twinProposal.terms
  rw [hlength, hcount] at hleft hnew
  exact ⟨hids, hfinite, r, s', hrun, hlength, hleft, Nat.le_zero.1 hnew⟩

end Invoicing
