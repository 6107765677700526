import Invoicing.Proofs.Reconciliation.Terms
import Mathlib.Data.List.Perm.Basic
import Mathlib.Data.List.Perm.Subperm

/-!
# Settling

`Settles` accounts for what settling comes to, whatever order the charges were taken in: every
charge in force gets one verdict that fits it, every proposal is named by one verdict or left over,
and the repairs are those that the verdicts call for. `Ledger.judge` are the verdicts in the order in
which they are given, and `Ledger.merge_settles` shows that one ledger is settled by them.
`Ledger.settle_kept` is the case in which nothing has to be repaired.
-/

namespace Invoicing

/-- The repair that a verdict on a charge leads to, if any. -/
def repairsFor (ids : Nat → Id) (x : Charge × Verdict) : List Item :=
  match x.1.repair (ids x.1.handle) x.2 with
  | .ok r => r.toList
  | .error _ => []

/-- `vs` are the verdicts by which issued charges are settled with proposed ones, `rest` are the
proposals left over and `repairs` the repairs made. -/
structure Settles (ids : Nat → Id) (issued proposed : List Charge) (repairs : List Item)
    (rest : List Charge) (vs : List (Charge × Verdict)) : Prop where
  charges : (vs.map (·.1)).Perm (issued.filter (·.isActive))
  proposals : (vs.filterMap (·.2.proposal?) ++ rest).Perm proposed
  fits : ∀ x ∈ vs, x.2.Fits x.1
  made : ∀ x ∈ vs, ∃ r, x.1.repair (ids x.1.handle) x.2 = .ok r
  repairs_eq : repairs = vs.flatMap (repairsFor ids)

namespace Settles

variable {ids : Nat → Id} {issued issued' proposed proposed' rest rest' : List Charge}
  {repairs repairs' : List Item} {vs vs' : List (Charge × Verdict)}

theorem nil (ids : Nat → Id) : Settles ids [] [] [] [] [] :=
  ⟨.refl _, .refl _, by simp, by simp, rfl⟩

theorem perm (h : Settles ids issued proposed repairs rest vs) (hi : issued.Perm issued')
    (hp : proposed.Perm proposed') : Settles ids issued' proposed' repairs rest vs :=
  ⟨h.charges.trans (hi.filter _), h.proposals.trans hp, h.fits, h.made, h.repairs_eq⟩

theorem append (h : Settles ids issued proposed repairs rest vs)
    (h' : Settles ids issued' proposed' repairs' rest' vs') :
    Settles ids (issued ++ issued') (proposed ++ proposed') (repairs ++ repairs') (rest ++ rest')
      (vs ++ vs') where
  charges := by
    rw [List.map_append, List.filter_append]
    exact h.charges.append h'.charges
  proposals := by
    rw [List.filterMap_append]
    calc (vs.filterMap (·.2.proposal?) ++ vs'.filterMap (·.2.proposal?)) ++ (rest ++ rest')
        |>.Perm ((vs.filterMap (·.2.proposal?) ++ rest) ++
          (vs'.filterMap (·.2.proposal?) ++ rest')) := by
          rw [List.append_assoc, List.append_assoc]
          refine List.Perm.append_left _ ?_
          rw [← List.append_assoc, ← List.append_assoc]
          exact List.perm_append_comm.append_right _
      _ |>.Perm (proposed ++ proposed') := h.proposals.append h'.proposals
  fits x hx := (List.mem_append.1 hx).elim (h.fits x) (h'.fits x)
  made x hx := (List.mem_append.1 hx).elim (h.made x) (h'.made x)
  repairs_eq := by rw [h.repairs_eq, h'.repairs_eq, List.flatMap_append]

end Settles

namespace Ledger

theorem map_handle_mark (handle : Nat) (cs : List Charge) :
    (mark handle cs).map (·.handle) = cs.map (·.handle) := by
  rw [mark, List.map_map]
  exact List.map_congr_left fun c _ => by simp only [Function.comp]; split <;> rfl

theorem mark_eq_self {handle : Nat} {cs : List Charge} (h : handle ∉ cs.map (·.handle)) :
    mark handle cs = cs := by
  rw [mark]
  refine (List.map_congr_left fun c hc => ?_).trans (List.map_id cs)
  exact if_neg fun he => h (List.mem_map.2 ⟨c, hc, he⟩)

theorem open_mark {p : Charge} {ps : List Charge} (hn : (ps.map (·.handle)).Nodup) (hp : p ∈ ps)
    (ho : p.matched = false) :
    (p :: (mark p.handle ps).filter (!·.matched)).Perm (ps.filter (!·.matched)) := by
  induction ps with
  | nil => simp at hp
  | cons q ps ih =>
    rw [List.map_cons, List.nodup_cons] at hn
    rcases List.mem_cons.1 hp with rfl | hp
    · have hrest := mark_eq_self hn.1
      simp only [mark, List.map_cons, if_true] at hrest ⊢
      rw [hrest, List.filter_cons_of_neg (by simp), List.filter_cons_of_pos (by simp [ho])]
    · have hne : q.handle ≠ p.handle := fun he => hn.1 (List.mem_map.2 ⟨p, hp, he.symm⟩)
      have ih := ih hn.2 hp
      have hcons : mark p.handle (q :: ps) = q :: mark p.handle ps := by simp [mark, hne]
      rw [hcons]
      by_cases hq : q.matched
      · rw [List.filter_cons_of_neg (by simp [hq]), List.filter_cons_of_neg (by simp [hq])]
        exact ih
      · rw [List.filter_cons_of_pos (by simp [hq]), List.filter_cons_of_pos (by simp [hq])]
        exact (List.Perm.swap _ _ _).trans (ih.cons q)

theorem map_handle_markProposal (ps : List Charge) (v : Verdict) :
    (markProposal ps v).map (·.handle) = ps.map (·.handle) := by
  cases v <;> first | rfl | exact map_handle_mark ..

theorem forall_markProposal {P : Charge → Prop} (hP : ∀ c, P c → P { c with matched := true })
    {ps : List Charge} (v : Verdict) (h : ∀ p ∈ ps, P p) : ∀ p ∈ markProposal ps v, P p := by
  have hmark : ∀ handle, ∀ p ∈ mark handle ps, P p := by
    intro handle p hp
    obtain ⟨q, hq, rfl⟩ := List.mem_map.1 hp
    split
    · exact hP q (h q hq)
    · exact h q hq
  cases v with
  | kept p => exact hmark _
  | shortened p => exact hmark _
  | cancelled => exact h

theorem mem_of_open_markProposal {ps : List Charge} {p : Charge} (v : Verdict)
    (hp : p ∈ markProposal ps v) (ho : p.matched = false) : p ∈ ps := by
  have hmark : ∀ handle, p ∈ mark handle ps → p ∈ ps := by
    intro handle hp
    obtain ⟨q, hq, rfl⟩ := List.mem_map.1 hp
    split at ho
    · simp at ho
    · rwa [if_neg ‹_›]
  cases v with
  | kept q => exact hmark _ hp
  | shortened q => exact hmark _ hp
  | cancelled => exact hp

theorem open_markProposal {ps : List Charge} {v : Verdict} (hn : (ps.map (·.handle)).Nodup)
    (hv : ∀ p ∈ v.proposal?, p ∈ ps ∧ p.matched = false) :
    (v.proposal?.toList ++ (markProposal ps v).filter (!·.matched)).Perm
      (ps.filter (!·.matched)) := by
  cases v with
  | kept p => exact open_mark hn (hv p rfl).1 (hv p rfl).2
  | shortened p => exact open_mark hn (hv p rfl).1 (hv p rfl).2
  | cancelled => exact .refl _

/-- The verdicts by which issued charges are settled one after the other, up to the first that cannot
be given. -/
def judge (proposals : List Charge) : List Charge → List (Charge × Verdict)
  | [] => []
  | c :: rest =>
    if c.isActive then
      match c.verdict? proposals with
      | .error _ => []
      | .ok v => (c, v) :: judge (markProposal proposals v) rest
    else judge proposals rest

/-- The verdicts by which a ledger is settled. -/
def verdicts (l : Ledger) : List (Charge × Verdict) := judge l.sorted.proposed l.sorted.issued

theorem settle_settles {ids : Nat → Id} {s : Option Id} {ps cs : List Charge} {repairs : List Item}
    (hn : (ps.map (·.handle)).Nodup) (hps : ∀ p ∈ ps, p.item.subscription = s)
    (hcs : ∀ c ∈ cs, c.item.subscription = s) (h : (settle ids ps cs).repairs = .ok repairs) :
    Settles ids cs (ps.filter (!·.matched)) repairs
      ((settle ids ps cs).ledger.proposed.filter (!·.matched)) (judge ps cs) := by
  -- The induction is on the issued charges, for any proposals still open.
  induction cs generalizing ps repairs with
  | nil =>
    obtain rfl : [] = repairs := by simpa [settle] using h
    exact ⟨.refl _, .refl _, by simp [judge], by simp [judge], rfl⟩
  | cons c cs ih =>
    have hcs' : ∀ c' ∈ cs, c'.item.subscription = s := fun c' hc' => hcs c' (by simp [hc'])
    by_cases hactive : c.isActive
    · cases hv : c.verdict? ps with
      | error f => simp [settle, hactive, hv] at h
      | ok v =>
        cases hr : c.repair (ids c.handle) v with
        | error f => simp [settle, hactive, hv, hr] at h
        | ok r =>
          obtain ⟨hfits, hopen⟩ :=
            Charge.fits_of_verdict? (fun p hp => (hps p hp).trans (hcs c (by simp)).symm) hv
          simp only [settle, judge, hactive, hv, hr, if_true] at h ⊢
          obtain ⟨rs, hrs, rfl⟩ := map_eq_ok_iff.1 h
          have hvs := ih (by rw [map_handle_markProposal]; exact hn)
            (forall_markProposal (fun _ h => h) v hps) hcs' hrs
          refine ⟨?_, ?_, ?_, ?_, ?_⟩
          · rw [List.filter_cons_of_pos hactive]
            exact hvs.charges.cons c
          · have hhead : ((c, v) :: judge (markProposal ps v) cs).filterMap (·.2.proposal?) =
                v.proposal?.toList ++ (judge (markProposal ps v) cs).filterMap (·.2.proposal?) := by
              cases hp : v.proposal? <;> simp [hp]
            rw [hhead, List.append_assoc]
            exact (hvs.proposals.append_left _).trans (open_markProposal hn hopen)
          · rintro x (_ | ⟨_, hx⟩)
            · exact hfits
            · exact hvs.fits x hx
          · rintro x (_ | ⟨_, hx⟩)
            · exact ⟨r, hr⟩
            · exact hvs.made x hx
          · rw [List.flatMap_cons, ← hvs.repairs_eq]
            simp [repairsFor, hr]
    · simp only [settle, judge, hactive] at h ⊢
      have hvs := ih hn hps hcs' h
      refine ⟨?_, hvs.proposals, hvs.fits, hvs.made, hvs.repairs_eq⟩
      rw [List.filter_cons_of_neg (by simpa using hactive)]
      exact hvs.charges

theorem settle_isOk {ids : Nat → Id} {s : Option Id} {ps cs : List Charge}
    (hc : ∀ c ∈ cs, c.Comparable) (hp : ∀ p ∈ ps, p.Comparable)
    (hps : ∀ p ∈ ps, p.item.subscription = s) (hcs : ∀ c ∈ cs, c.item.subscription = s)
    (hrepair : ∀ c ∈ cs, c.isActive → ∀ v : Verdict, v.Fits c →
      (∀ p ∈ v.proposal?, p ∈ ps ∧ p.matched = false) → ∃ r, c.repair (ids c.handle) v = .ok r) :
    ∃ repairs, (settle ids ps cs).repairs = .ok repairs := by
  induction cs generalizing ps with
  | nil => exact ⟨[], rfl⟩
  | cons c cs ih =>
    have hc' : ∀ c' ∈ cs, c'.Comparable := fun c' h => hc c' (by simp [h])
    have hcs' : ∀ c' ∈ cs, c'.item.subscription = s := fun c' h => hcs c' (by simp [h])
    by_cases hactive : c.isActive
    · obtain ⟨v, hv⟩ := Charge.verdict?_isOk (hc c (by simp)) hp
      obtain ⟨hfits, hopen⟩ :=
        Charge.fits_of_verdict? (fun p h => (hps p h).trans (hcs c (by simp)).symm) hv
      obtain ⟨r, hr⟩ := hrepair c (by simp) hactive v hfits hopen
      obtain ⟨rs, hrs⟩ := ih hc' (forall_markProposal (fun _ h => h) v hp)
        (forall_markProposal (fun _ h => h) v hps) hcs'
        fun c' h ha w hw hq => hrepair c' (by simp [h]) ha w hw fun q hm =>
          ⟨mem_of_open_markProposal v (hq q hm).1 (hq q hm).2, (hq q hm).2⟩
      simp only [settle, hactive, hv, hr, hrs, if_true]
      exact ⟨_, rfl⟩
    · obtain ⟨rs, hrs⟩ := ih hc' hp hps hcs' fun c' h => hrepair c' (by simp [h])
      simp only [settle, hactive]
      exact ⟨rs, hrs⟩

/-- Nothing is repaired if what is in force is all proposed again. The induction takes the terms of
each charge kept from those of the proposals still open. -/
theorem settle_kept (ids : Nat → Id) (s : Option Id) {ps cs : List Charge}
    (hn : (ps.map (·.handle)).Nodup) (hc : ∀ c ∈ cs, c.Comparable)
    (hrate : ∀ c ∈ cs, ∀ r ∈ c.item.rate, r.isFinite) (hp : ∀ p ∈ ps, p.Comparable)
    (hps : ∀ p ∈ ps, p.item.subscription = s) (hcs : ∀ c ∈ cs, c.item.subscription = s)
    (hsub : ((cs.filter (·.isActive)).map Charge.terms).Subperm
      ((ps.filter (!·.matched)).map Charge.terms)) :
    (settle ids ps cs).repairs = .ok [] := by
  induction cs generalizing ps with
  | nil => rfl
  | cons c cs ih =>
    have hc' : ∀ c' ∈ cs, c'.Comparable := fun c' h => hc c' (by simp [h])
    have hrate' : ∀ c' ∈ cs, ∀ r ∈ c'.item.rate, r.isFinite := fun c' h => hrate c' (by simp [h])
    have hcs' : ∀ c' ∈ cs, c'.item.subscription = s := fun c' h => hcs c' (by simp [h])
    by_cases hactive : c.isActive
    · rw [List.filter_cons_of_pos hactive, List.map_cons] at hsub
      obtain ⟨p, hpo, hterms⟩ := List.mem_map.1 (hsub.subset (List.mem_cons_self ..))
      obtain ⟨hmem, hopen⟩ : p ∈ ps ∧ p.matched = false := by simpa using hpo
      obtain ⟨q, hq⟩ := Charge.verdict?_kept (hc c (by simp)) (hrate c (by simp))
        hp hmem hopen hterms
      obtain ⟨hqterms, hqopen⟩ :=
        Charge.fits_of_verdict? (fun p h => (hps p h).trans (hcs c (by simp)).symm) hq
      have hperm := (open_mark hn (hqopen q rfl).1 (hqopen q rfl).2).map Charge.terms
      rw [List.map_cons, show q.terms = c.terms from hqterms] at hperm
      have hrest := (List.subperm_cons _).1 (hsub.trans hperm.symm.subperm)
      have ih := ih (by rw [map_handle_markProposal]; exact hn) hc' hrate'
        (forall_markProposal (fun _ h => h) (.kept q) hp)
        (forall_markProposal (fun _ h => h) (.kept q) hps) hcs' hrest
      have hrepair : c.repair (ids c.handle) (.kept q) = .ok none := rfl
      simp only [settle, hactive, hq, hrepair, if_true, ih]
      rfl
    · rw [List.filter_cons_of_neg (by simpa using hactive)] at hsub
      simp only [settle, hactive]
      exact ih hn hc' hrate' hp hps hcs' hsub

theorem sorted_perm (cs : List Charge) : (Charge.sorted cs).Perm cs := List.mergeSort_perm ..

/-- A ledger whose proposals are all open is settled as a whole. -/
theorem merge_settles {ids : Nat → Id} {s : Option Id} {l : Ledger} {d : Difference}
    (hn : (l.proposed.map (·.handle)).Nodup) (hopen : ∀ p ∈ l.proposed, p.matched = false)
    (hps : ∀ p ∈ l.proposed, p.item.subscription = s)
    (hcs : ∀ c ∈ l.issued, c.item.subscription = s) (h : (l.merge ids).1 = .ok d) :
    ∃ rest, Settles ids l.issued l.proposed d.repairs rest l.verdicts ∧
      d.newItems = rest.map (·.item) := by
  rw [merge] at h
  obtain ⟨rs, hrs, rfl⟩ := map_eq_ok_iff.1 h
  have hperm := sorted_perm l.proposed
  have hvs := settle_settles (s := s) (((hperm.map _).nodup_iff).2 hn)
    (fun p hp => hps p (hperm.mem_iff.1 hp))
    (fun c hc => hcs c ((sorted_perm l.issued).mem_iff.1 hc)) hrs
  refine ⟨_, hvs.perm (sorted_perm l.issued) ?_, rfl⟩
  refine (hperm.filter _).trans ?_
  rw [List.filter_eq_self.2 fun p hp => by simp [hopen p hp]]

end Ledger

end Invoicing
