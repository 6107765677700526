import Invoicing.Proofs.Proposal.Ending
import Invoicing.Proofs.Reconciliation.Matching

/-!
# Subscriptions that end, reconciled

If what is proposed is what is in force up to the end of a subscription, every charge that does not run
beyond the end is kept (`kept_iff`), and no proposal is new. The charge that is cut off on that day is
shortened to its proposal: a charge is not cancelled while there is a part of it among the proposals left
(`named_of_cancelled`). All others that run beyond the day are cancelled (`EndedOn.verdict_cases`).
-/

namespace Invoicing

/-! ## Parts that are left -/

/-- Whether a proposal is part of a recurring charge: on its terms, for fewer days and no more. -/
structure Charge.HasPart (c p : Charge) : Prop where
  kind : c.item.kind = .recurring
  cause : p.SameCause c
  within : p.isPartOf? c = .ok true

variable {c p : Charge} {ps cs : List Charge} {v : Verdict}

theorem Charge.HasPart.not_cancelled (h : c.HasPart p) (hrate : ∀ r ∈ c.item.rate, r.equalsItself)
    (hmem : p ∈ ps) (hopen : p.matched = false) : c.verdict? ps ≠ .ok .cancelled := by
  intro hv
  obtain ⟨l, hl, hv⟩ := bind_eq_ok_iff.1 hv
  obtain ⟨-, hkind, hplan, hphase, hworth, hstart⟩ := h.cause
  have hsame : sameTerms? c p = .ok true := by
    rw [sameTerms?, if_pos ⟨hplan.symm, hphase.symm⟩]
    exact equalPrices?_of_worth_eq hrate hworth.symm
  have hpl : p ∈ l := by
    rw [candidates?] at hl
    rw [filterM_eq_ok hl, List.mem_filter, List.mem_filter]
    exact ⟨⟨hmem, by simp [hkind, hstart, hopen]⟩, holds_iff.2 hsame⟩
  obtain ⟨o, -, hv⟩ := bind_eq_ok_iff.1 hv
  cases o with
  | some q => cases Except.ok.inj hv
  | none =>
    rw [if_pos h.kind] at hv
    obtain ⟨o, ho, hv⟩ := bind_eq_ok_iff.1 hv
    cases o with
    | some q => cases Except.ok.inj hv
    | none =>
      have hfalse := findM?_eq_none ho p hpl
      rw [h.within] at hfalse
      cases hfalse

namespace Ledger

theorem mem_markProposal (hp : p ∈ ps) (hv : ∀ q ∈ v.proposal?, q.handle ≠ p.handle) :
    p ∈ markProposal ps v := by
  have hmark : ∀ handle, handle ≠ p.handle → p ∈ mark handle ps := fun handle hne =>
    List.mem_map.2 ⟨p, hp, if_neg (Ne.symm hne)⟩
  cases v with
  | kept q => exact hmark _ (hv q rfl)
  | shortened q => exact hmark _ (hv q rfl)
  | cancelled => exact hp

theorem judge_cancelled (hpart : c.HasPart p) (hrate : ∀ r ∈ c.item.rate, r.equalsItself)
    (hmem : p ∈ ps) (hopen : p.matched = false) (hc : (c, .cancelled) ∈ judge ps cs) :
    ∃ x ∈ judge ps cs, ∃ q ∈ x.2.proposal?, q.handle = p.handle := by
  -- The induction is on the charges to be settled; the proposal is open until it is named.
  induction cs generalizing ps with
  | nil => simp [judge] at hc
  | cons d cs ih =>
    by_cases hactive : d.isActive
    · cases hv : d.verdict? ps with
      | error s => simp [judge, hactive, hv] at hc
      | ok v =>
        simp only [judge, hactive, hv, if_true] at hc ⊢
        by_cases hnamed : ∃ q ∈ v.proposal?, q.handle = p.handle
        · exact ⟨(d, v), by simp, hnamed⟩
        rcases List.mem_cons.1 hc with heq | hc
        · obtain ⟨rfl, rfl⟩ := Prod.ext_iff.1 heq
          exact absurd hv (hpart.not_cancelled hrate hmem hopen)
        · obtain ⟨x, hx, hq⟩ := ih (mem_markProposal hmem fun q hq he => hnamed ⟨q, hq, he⟩) hc
          exact ⟨x, List.mem_cons_of_mem _ hx, hq⟩
    · simp only [judge, hactive] at hc ⊢
      exact ih hmem hc

theorem verdicts_cancelled {l : Ledger} (hpart : c.HasPart p)
    (hrate : ∀ r ∈ c.item.rate, r.equalsItself) (hmem : p ∈ l.proposed) (hopen : p.matched = false)
    (hc : (c, .cancelled) ∈ l.verdicts) : ∃ x ∈ l.verdicts, ∃ q ∈ x.2.proposal?, q.handle = p.handle :=
  judge_cancelled hpart hrate ((sorted_perm _).mem_iff.2 hmem) hopen hc

end Ledger

variable {issued proposed rest : List Charge}

/-- If a charge is cancelled in a reconciliation, a proposal that is part of it is taken by another. -/
theorem named_of_cancelled (hpart : c.HasPart p) (hrate : ∀ r ∈ c.item.rate, r.equalsItself)
    (hmem : p ∈ proposed) (hopen : p.matched = false)
    (hc : (c, .cancelled) ∈ verdicts issued proposed) :
    ∃ x ∈ verdicts issued proposed, ∃ q ∈ x.2.proposal?, q.handle = p.handle := by
  have hfilter := filter_verdicts issued proposed c.item.subscription
  have hown : (c, Verdict.cancelled) ∈ Ledger.verdicts
      ⟨ofSubscription c.item.subscription issued, ofSubscription c.item.subscription proposed⟩ := by
    rw [← hfilter]
    exact List.mem_filter.2 ⟨hc, by simp⟩
  have hp : p ∈ ofSubscription c.item.subscription proposed :=
    List.mem_filter.2 ⟨hmem, by simp [hpart.cause.1]⟩
  obtain ⟨x, hx, hq⟩ := Ledger.verdicts_cancelled hpart hrate hp hopen hown
  rw [← hfilter] at hx
  exact ⟨x, List.mem_of_mem_filter hx, hq⟩

/-! ## What is proposed up to the end -/

/-- Whether some terms are those of a recurring charge of a subscription that runs beyond a day. -/
def Terms.runsBeyond (s : Id) (day : Date) (t : Terms) : Bool :=
  t.kind = .recurring && t.subscription = some s && t.finish.any (day < ·)

@[simp] theorem Item.runsBeyond_terms (s : Id) (day : Date) (i : Item) :
    i.terms.runsBeyond s day = i.runsBeyond s day := rfl

@[simp] theorem Item.start_terms (i : Item) : i.terms.start = i.start := rfl

/-- Whether new terms are the old ones up to the end of a subscription: `same` stays, `gone` starts on the
last day or later, and of one charge there may be a part left. -/
structure EndedOn (s : Id) (day : Date) (old new : List Terms) (same gone : List Item)
    (cut : Option (Item × Item)) : Prop where
  old : old.Perm ((same ++ (cut.map Prod.fst).toList ++ gone).map Item.terms)
  new : new.Perm ((same ++ (cut.map Prod.snd).toList).map Item.terms)
  same : ∀ i ∈ same, i.runsBeyond s day = false
  cut : ∀ p ∈ cut, p.1.runsBeyond s day ∧ p.1.CutTo day p.2
  gone : ∀ i ∈ gone, i.runsBeyond s day ∧ day ≤ i.start

namespace EndedOn

variable {s : Id} {day : Date} {old new : List Terms} {same gone : List Item}
  {cut : Option (Item × Item)} {t : Terms}

theorem filter_terms_eq_self {q : Terms → Bool} {is : List Item} (h : ∀ i ∈ is, q i.terms = true) :
    (is.map Item.terms).filter q = is.map Item.terms :=
  List.filter_eq_self.2 fun t ht => by
    obtain ⟨i, hi, rfl⟩ := List.mem_map.1 ht
    exact h i hi

theorem filter_terms_eq_nil {q : Terms → Bool} {is : List Item} (h : ∀ i ∈ is, q i.terms = false) :
    (is.map Item.terms).filter q = [] :=
  List.filter_eq_nil_iff.2 fun t ht => by
    obtain ⟨i, hi, rfl⟩ := List.mem_map.1 ht
    simp [h i hi]

theorem of_endOn {drafts drafts' : List Item}
    (h : Item.EndOn s day (drafts.filter (·.subscription = some s))
      (drafts'.filter (·.subscription = some s)))
    (hothers : (drafts.filter (·.subscription ≠ some s)).Perm
      (drafts'.filter (·.subscription ≠ some s))) : ∃ same gone cut,
    EndedOn s day (drafts.map Item.terms) (drafts'.map Item.terms) same gone cut := by
  obtain ⟨same, cut, gone, hold, hnew, hsame, hcut, hgone⟩ := h.parts
  have hparts : ∀ is : List Item, is.Perm (is.filter (·.subscription ≠ some s) ++
      is.filter (·.subscription = some s)) := fun is => by
    have hparts := List.filter_append_perm (fun i : Item => i.subscription = some s) is
    simpa using (List.perm_append_comm.trans hparts).symm
  refine ⟨drafts.filter (·.subscription ≠ some s) ++ same, gone, cut, ?_, ?_, ?_, hcut, hgone⟩
  · have hperm := hparts drafts
    rw [hold, ← List.append_assoc, ← List.append_assoc] at hperm
    exact hperm.map _
  · have hperm := (hparts drafts').trans (hothers.symm.append_right _)
    rw [hnew, ← List.append_assoc] at hperm
    exact hperm.map _
  · refine List.forall_mem_append.2 ⟨fun i hi => ?_, hsame⟩
    have hsub := (List.mem_filter.1 hi).2
    simp only [decide_not, Bool.not_eq_true', decide_eq_false_iff_not] at hsub
    simp [Item.runsBeyond, hsub]

variable (h : EndedOn s day old new same gone cut)
include h

theorem mem_cut {i : Item} (hi : i ∈ (cut.map Prod.fst).toList) :
    i.runsBeyond s day ∧ i.start < day := by
  obtain ⟨p, hp, rfl⟩ := Option.map_eq_some_iff.1 (Option.mem_toList.1 hi)
  exact ⟨(h.cut p hp).1, (h.cut p hp).2.start_lt⟩

theorem filter_same : (old.filter (!·.runsBeyond s day)).Perm (same.map Item.terms) := by
  refine (h.old.filter _).trans (List.Perm.of_eq ?_)
  rw [List.map_append, List.map_append, List.filter_append, List.filter_append,
    filter_terms_eq_self fun i hi => by simp [h.same i hi],
    filter_terms_eq_nil fun i hi => by simp [(h.mem_cut hi).1],
    filter_terms_eq_nil fun i hi => by simp [(h.gone i hi).1], List.append_nil, List.append_nil]

theorem filter_cut : (old.filter fun t => t.runsBeyond s day && t.start < day).Perm
    ((cut.map Prod.fst).toList.map Item.terms) := by
  refine (h.old.filter _).trans (List.Perm.of_eq ?_)
  rw [List.map_append, List.map_append, List.filter_append, List.filter_append,
    filter_terms_eq_nil fun i hi => by simp [h.same i hi],
    filter_terms_eq_self fun i hi => by simp [h.mem_cut hi],
    filter_terms_eq_nil fun i hi => by simp [not_lt.2 (h.gone i hi).2], List.append_nil, List.nil_append]

theorem not_runsBeyond (ht : t ∈ new) : t.runsBeyond s day = false := by
  obtain ⟨i, hi, rfl⟩ := List.mem_map.1 (h.new.mem_iff.1 ht)
  rcases List.mem_append.1 hi with hi | hi
  · exact h.same i hi
  · obtain ⟨p, hp, rfl⟩ := Option.map_eq_some_iff.1 (Option.mem_toList.1 hi)
    rw [(h.cut p hp).2.terms]
    simp [Terms.runsBeyond]

theorem count_le (ht : t.runsBeyond s day = false) : old.count t ≤ new.count t := by
  have hold : old.count t = (same.map Item.terms).count t := by
    rw [← h.filter_same.count_eq, List.count_filter (by simp [ht])]
  rw [hold, h.new.count_eq, List.map_append, List.count_append]
  exact Nat.le_add_right ..

end EndedOn

/-! ## Settled up to the end -/

/-- The proposal that a charge is shortened to. -/
def Verdict.shorter? : Verdict → Option Charge
  | .shortened p => some p
  | _ => none

theorem named_perm {vs : List (Charge × Verdict)} (h : ∀ x ∈ vs, x.2.Fits x.1) :
    ((vs.filterMap (·.2.proposal?)).map Charge.terms).Perm
      ((vs.filter (·.2.isKept)).map (·.1.terms) ++
        (vs.filterMap (·.2.shorter?)).map Charge.terms) := by
  induction vs with
  | nil => exact .refl _
  | cons x vs ih =>
    obtain ⟨hx, hvs⟩ := List.forall_mem_cons.1 h
    obtain ⟨c, v⟩ := x
    cases v with
    | kept p =>
      have hterms : p.terms = c.terms := hx
      simpa [Verdict.proposal?, Verdict.shorter?, Verdict.isKept, hterms] using ih hvs
    | shortened p =>
      refine List.Perm.trans ?_ List.perm_middle.symm
      simpa [Verdict.proposal?, Verdict.shorter?, Verdict.isKept] using ih hvs
    | cancelled => simpa [Verdict.proposal?, Verdict.shorter?, Verdict.isKept] using ih hvs

theorem Charge.terms_equalsItself (h : ∀ r ∈ c.item.rate, r.isFinite) : c.terms.equalsItself := by
  unfold Terms.equalsItself terms
  cases hr : c.item.rate with
  | none => rfl
  | some r => simp [Decimal.worth_eq_inl (h r hr)]

namespace EndedOn

variable {s : Id} {day : Date} {old new : List Terms} {same gone : List Item}
  {cut : Option (Item × Item)} {ids : Nat → Id} {repairs : List Item} {d : Difference}

theorem hasPart (h : EndedOn s day old new same gone cut) {i j : Item} (hcut : (i, j) ∈ cut)
    {x q : Charge} (hx : x.terms = i.terms) (hq : q.terms = j.terms)
    (hxf : x.amount.amount.isFinite) (hqf : q.amount.amount.isFinite) : x.HasPart q := by
  obtain ⟨hbeyond, hij⟩ := h.cut _ hcut
  have hterms : q.terms = { x.terms with finish := some day, amount := q.terms.amount } := by
    rw [hx, hq]
    exact hij.terms
  have hvalue : ∀ {a : Charge} {b : Item}, a.terms = b.terms → a.amount.amount.isFinite →
      b.amount.amount.toRat = a.amount.amount.toRat := fun hab ha =>
    (Decimal.finite_of_worth ((congrArg Terms.amount hab).symm.trans (Decimal.worth_eq_inl ha))).2
  obtain ⟨hkind, -, e, he, hlt⟩ := Item.runsBeyond_parts hbeyond
  have hend : x.finish = some e := (congrArg Terms.finish hx).trans he
  have hend' : q.finish = some day := congrArg Terms.finish hterms
  refine ⟨(congrArg Terms.kind hx).trans hkind, ⟨congrArg Terms.subscription hterms,
    congrArg Terms.kind hterms, congrArg Terms.plan hterms, congrArg Terms.phase hterms,
    congrArg Terms.rate hterms, congrArg Terms.start hterms⟩, ?_⟩
  rw [Charge.isPartOf?, hend, hend']
  simp only [hlt, if_true, Decimal.le?_eq hqf hxf]
  rw [← hvalue hq hqf, ← hvalue hx hxf, decide_eq_true hij.amount_le]

section

variable (h : EndedOn s day ((issued.filter (·.isActive)).map Charge.terms)
    (proposed.map Charge.terms) same gone cut)
  (hs : Settles ids issued proposed repairs rest (verdicts issued proposed))
  (hd : settleAll ids (ledgers issued proposed) = .ok d)
  (hn : (proposed.map (·.handle)).Nodup) (hopen : ∀ p ∈ proposed, p.matched = false)
  (hissued : ∀ c ∈ issued, c.amount.amount.isFinite ∧ ∀ r ∈ c.item.rate, r.isFinite)

include hs in
theorem mem_issued {x : Charge × Verdict} (hx : x ∈ verdicts issued proposed) : x.1 ∈ issued :=
  List.mem_of_mem_filter (hs.charges.mem_iff.1 (List.mem_map_of_mem hx))

include hs in
theorem map_terms_verdicts : ((verdicts issued proposed).map (·.1.terms)).Perm
    ((issued.filter (·.isActive)).map Charge.terms) := by
  have hterms := hs.charges.map Charge.terms
  rwa [List.map_map] at hterms

include h hs hd hn hopen hissued

theorem kept_iff {x : Charge × Verdict} (hx : x ∈ verdicts issued proposed) :
    x.2.isKept = !x.1.terms.runsBeyond s day := by
  have hcount := count_kept_verdicts (t := x.1.terms)
    (Charge.terms_equalsItself (hissued _ (mem_issued hs hx)).2) hn hopen
    (fun c hc => (hissued c hc).1) hd
  cases hbeyond : x.1.terms.runsBeyond s day with
  | true =>
    have hnone : (proposed.map Charge.terms).count x.1.terms = 0 :=
      List.count_eq_zero.2 fun hmem => by simpa [hbeyond] using h.not_runsBeyond hmem
    rw [hnone, Nat.min_zero, List.countP_eq_zero] at hcount
    simpa using hcount x hx
  | false =>
    have hall : (verdicts issued proposed).countP (fun y => y.2.isKept && y.1.terms = x.1.terms) =
        (verdicts issued proposed).countP (·.1.terms = x.1.terms) := by
      rw [hcount, min_eq_left (h.count_le hbeyond), ← (map_terms_verdicts hs).count_eq,
        List.count_eq_countP, List.countP_map]
      rfl
    rw [← List.countP_filter, List.countP_eq_length_filter
      (p := fun y : Charge × Verdict => decide (y.1.terms = x.1.terms)), List.countP_eq_length] at hall
    simpa using hall x (List.mem_filter.2 ⟨hx, by simp⟩)

theorem left_perm : (((verdicts issued proposed).filterMap (·.2.shorter?) ++ rest).map
    Charge.terms).Perm ((cut.map Prod.snd).toList.map Item.terms) := by
  have hkept : ((verdicts issued proposed).filter (·.2.isKept)).map (·.1.terms) =
      ((verdicts issued proposed).map (·.1.terms)).filter (!·.runsBeyond s day) := by
    rw [List.filter_map]
    exact congrArg _ (List.filter_congr fun x hx => kept_iff h hs hd hn hopen hissued hx)
  have hsame := ((map_terms_verdicts hs).filter (!·.runsBeyond s day)).trans h.filter_same
  have hall := (hs.proposals.map Charge.terms).trans h.new
  rw [List.map_append, List.map_append] at hall
  have hnamed := named_perm hs.fits
  rw [hkept] at hnamed
  have hparts := ((hnamed.trans (hsame.append_right _)).append_right _).symm.trans hall
  rw [List.append_assoc, List.perm_append_left_iff] at hparts
  rwa [List.map_append]

theorem terms_of_shortened {x : Charge × Verdict} {p : Charge} (hx : x ∈ verdicts issued proposed)
    (hp : x.2 = .shortened p) : ∃ i j, (i, j) ∈ cut ∧ p.terms = j.terms := by
  have hmem : p.terms ∈ ((verdicts issued proposed).filterMap (·.2.shorter?) ++ rest).map
      Charge.terms :=
    List.mem_map_of_mem (List.mem_append_left _
      (List.mem_filterMap.2 ⟨x, hx, by rw [hp]; rfl⟩))
  obtain ⟨j, hj, hterms⟩ :=
    List.mem_map.1 ((left_perm h hs hd hn hopen hissued).mem_iff.1 hmem)
  obtain ⟨⟨i, j⟩, hcut, rfl⟩ := Option.map_eq_some_iff.1 (Option.mem_toList.1 hj)
  exact ⟨i, j, hcut, hterms.symm⟩

omit hd hn hopen hissued in
theorem exists_cut {x : Charge × Verdict} (hx : x ∈ verdicts issued proposed)
    (hbeyond : x.1.terms.runsBeyond s day) (hlt : x.1.item.start < day) :
    ∃ i j, (i, j) ∈ cut ∧ x.1.terms = i.terms ∧ ∀ y ∈ verdicts issued proposed,
      y.1.terms.runsBeyond s day → y.1.item.start < day → y = x := by
  have hperm := ((map_terms_verdicts hs).filter fun t => t.runsBeyond s day && t.start < day).trans
    h.filter_cut
  rw [List.filter_map] at hperm
  have hmem : ∀ {y}, y ∈ verdicts issued proposed → y.1.terms.runsBeyond s day →
      y.1.item.start < day → y ∈ (verdicts issued proposed).filter
        ((fun t => t.runsBeyond s day && t.start < day) ∘ fun x => x.1.terms) := by
    intro y hy hby hly
    exact List.mem_filter.2 ⟨hy, by simp [hby, show y.1.terms.start < day from hly]⟩
  have hx' := hmem hx hbeyond hlt
  obtain ⟨i, hi, hterms⟩ := List.mem_map.1 (hperm.mem_iff.1 (List.mem_map_of_mem hx'))
  obtain ⟨⟨i, j⟩, hcut, rfl⟩ := Option.map_eq_some_iff.1 (Option.mem_toList.1 hi)
  refine ⟨i, j, hcut, hterms.symm, fun y hy hby hly => ?_⟩
  have hlength := hperm.length_eq
  rw [Option.mem_def.1 hcut] at hlength
  simp only [List.length_map, Option.map_some, Option.toList_some, List.length_singleton] at hlength
  obtain ⟨z, hz⟩ := List.length_eq_one_iff.1 hlength
  have hy' := hmem hy hby hly
  rw [hz, List.mem_singleton] at hx' hy'
  rw [hx', hy']

variable (hproposed : ∀ p ∈ proposed, p.amount.amount.isFinite)
include hproposed

theorem ne_cancelled {x : Charge × Verdict} (hx : x ∈ verdicts issued proposed)
    (hbeyond : x.1.terms.runsBeyond s day) (hlt : x.1.item.start < day) : x.2 ≠ .cancelled := by
  intro hcancelled
  obtain ⟨i, j, hcut, hterms, honly⟩ := exists_cut h hs hx hbeyond hlt
  have hleft := left_perm h hs hd hn hopen hissued
  -- Only this charge could be shortened.
  have hnone : (verdicts issued proposed).filterMap (·.2.shorter?) = [] := by
    refine List.filterMap_eq_nil_iff.2 fun y hy => ?_
    rcases hv : y.2 with q | q | _
    · rfl
    · obtain ⟨i', j', hcut', hq⟩ := terms_of_shortened h hs hd hn hopen hissued hy hv
      obtain ⟨rfl, rfl⟩ := Prod.ext_iff.1 (Option.some.inj (hcut.symm.trans hcut'))
      have hkept := kept_iff h hs hd hn hopen hissued hy
      have hfits := hs.fits y hy
      rw [hv] at hkept hfits
      have hstart : y.1.item.start = i.start := by
        have hj := congrArg Terms.start ((h.cut _ hcut).2.terms)
        rw [← hfits.1.2.2.2.2.2]
        exact (congrArg Terms.start hq).trans hj
      have hsame := honly y hy (by simpa [Verdict.isKept] using hkept.symm)
        (hstart ▸ (h.cut _ hcut).2.start_lt)
      rw [hsame, hcancelled] at hv
      cases hv
    · rfl
  rw [hnone, Option.mem_def.1 hcut, List.nil_append] at hleft
  obtain ⟨q, hq, hqterms⟩ := List.mem_map.1 (hleft.mem_iff.2 (List.mem_singleton_self j.terms))
  have hmem := hs.proposals.mem_iff.1 (List.mem_append_right _ hq)
  have hxissued := hissued _ (mem_issued hs hx)
  obtain ⟨y, hy, p, hp, hhandle⟩ := named_of_cancelled (p := q)
    (h.hasPart hcut hterms hqterms hxissued.1 (hproposed q hmem))
    (fun r hr => Decimal.equalsItself_of_isFinite (hxissued.2 r hr)) hmem (hopen q hmem)
    (by rw [← hcancelled]; exact hx)
  -- Every proposal has a handle of its own.
  have hnodup := ((hs.proposals.map (·.handle)).nodup_iff).2 hn
  rw [List.map_append, List.nodup_append] at hnodup
  exact hnodup.2.2 _ (List.mem_map_of_mem (List.mem_filterMap.2 ⟨y, hy, hp⟩)) _
    (List.mem_map_of_mem hq) hhandle

/-- How charges are settled when a subscription ends: those that do not run beyond the end are kept,
those that start on the last day or later are cancelled, and the one in between is shortened. -/
theorem verdict_cases {x : Charge × Verdict} (hx : x ∈ verdicts issued proposed) :
    x.1.terms.runsBeyond s day = false ∧ x.2.isKept ∨
    x.1.terms.runsBeyond s day ∧ (day ≤ x.1.item.start ∧ x.2 = .cancelled ∨
      x.1.item.start < day ∧ ∃ p ∈ proposed, x.2 = .shortened p ∧ p.finish = some day) := by
  have hkept := kept_iff h hs hd hn hopen hissued hx
  cases hbeyond : x.1.terms.runsBeyond s day with
  | false => exact .inl ⟨rfl, by rw [hkept, hbeyond]; rfl⟩
  | true =>
    refine .inr ⟨rfl, ?_⟩
    rcases hv : x.2 with p | p | _
    · simp [hv, hbeyond, Verdict.isKept] at hkept
    · obtain ⟨i, j, hcut, hterms⟩ := terms_of_shortened h hs hd hn hopen hissued hx hv
      have hfits := hs.fits x hx
      rw [hv] at hfits
      have hj := (h.cut _ hcut).2
      have hstart : p.item.start = i.start :=
        (congrArg Terms.start hterms).trans (congrArg Terms.start hj.terms)
      refine .inr ⟨?_, p, ?_, rfl, (congrArg Terms.finish hterms).trans
        (congrArg Terms.finish hj.terms)⟩
      · rw [← hfits.1.2.2.2.2.2, hstart]
        exact hj.start_lt
      · exact hs.proposals.mem_iff.1
          (List.mem_append_left _ (List.mem_filterMap.2 ⟨x, hx, by rw [hv]; rfl⟩))
    · refine .inl ⟨not_lt.1 fun hlt => ?_, rfl⟩
      exact ne_cancelled h hs hd hn hopen hissued hproposed hx hbeyond hlt hv

theorem rest_eq_nil : rest = [] := by
  have hlength := (left_perm h hs hd hn hopen hissued).length_eq
  rw [List.length_map, List.length_append, List.length_map] at hlength
  refine List.length_eq_zero_iff.1 ?_
  cases hcut : cut with
  | none =>
    rw [hcut] at hlength
    simpa using (Nat.add_eq_zero_iff.1 hlength).2
  | some p =>
    -- The charge that is cut off is shortened.
    obtain ⟨hbeyond, hpart⟩ := h.cut p hcut
    have hmem : p.1.terms ∈ (verdicts issued proposed).map (·.1.terms) := by
      refine (map_terms_verdicts hs).mem_iff.2 (h.old.mem_iff.2 (List.mem_map_of_mem ?_))
      simp [hcut]
    obtain ⟨x, hx, hterms⟩ := List.mem_map.1 hmem
    have hstart : x.1.item.start = p.1.start := congrArg Terms.start hterms
    obtain ⟨hout, -⟩ | ⟨-, ⟨hle, -⟩ | ⟨-, q, -, hq, -⟩⟩ :=
      verdict_cases h hs hd hn hopen hissued hproposed hx
    · rw [hterms, Item.runsBeyond_terms, hbeyond] at hout
      cases hout
    · exact absurd hpart.start_lt (not_lt.2 (hstart ▸ hle))
    · have hpos : 0 < ((verdicts issued proposed).filterMap (·.2.shorter?)).length :=
        List.length_pos_of_mem (List.mem_filterMap.2 ⟨x, hx, by rw [hq]; rfl⟩)
      rw [hcut] at hlength
      simp only [Option.map_some, Option.toList_some, List.length_singleton] at hlength
      omega

end

end EndedOn

end Invoicing
