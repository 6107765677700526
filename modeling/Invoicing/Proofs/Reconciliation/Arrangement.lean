import Invoicing.Proofs.Decimal.Congruence
import Invoicing.Proofs.Reconciliation.Parallel
import Mathlib.Data.Prod.Lex

/-!
# Charges settled in whatever order

Charges of one ledger are settled by first days and ends, and otherwise as they came. Two that come
in either order have different terms unless they are the same charge twice; then neither takes a
proposal that the other could have (`Charge.verdict?_markProposal`), so that their steps commute
(`Ledger.trail_swap`). What settling comes to does not depend on the order in which charges came in,
as long as no two of them stand in one place on the same terms (`Ledger.trail_perm`).
-/

namespace Invoicing

/-! ## The order of charges -/

namespace Charge

/-- What charges are ordered by, before their numbers. -/
def place (c : Charge) : Int ×ₗ Int ×ₗ Int :=
  toLex (c.item.start.dayNumber, toLex ((c.finish.getD c.item.start).dayNumber,
    if c.item.kind = .fixed then 0 else 1))

/-- What charges are ordered by. -/
def fullPlace (c : Charge) : Int ×ₗ Int ×ₗ Int ×ₗ Int :=
  toLex (c.item.start.dayNumber, toLex ((c.finish.getD c.item.start).dayNumber,
    toLex (if c.item.kind = .fixed then 0 else 1, (c.handle : Int))))

theorem rank_lex (a b : Charge) : a.rank.lex b.rank (· < ·) = decide (a.fullPlace < b.fullPlace) := by
  rw [Bool.eq_iff_iff, decide_eq_true_iff]
  simp only [fullPlace, Prod.Lex.toLex_lt_toLex, rank, List.lex, Bool.or_eq_true, Bool.and_eq_true,
    decide_eq_true_eq, beq_iff_eq, Bool.false_eq_true, and_false, or_false]

theorem place_le_of_fullPlace_le {a b : Charge} (h : a.fullPlace ≤ b.fullPlace) :
    a.place ≤ b.place := by
  simp only [fullPlace, place, Prod.Lex.toLex_le_toLex] at h ⊢
  omega

theorem pairwise_place_sorted (cs : List Charge) :
    (sorted cs).Pairwise fun a b => a.place ≤ b.place := by
  have hsorted : sorted cs = cs.mergeSort fun a b => decide (a.fullPlace ≤ b.fullPlace) := by
    unfold sorted
    congr 1
    funext a b
    rw [rank_lex, Bool.eq_iff_iff]
    simp
  rw [hsorted]
  have htrans : ∀ a b c : Charge, decide (a.fullPlace ≤ b.fullPlace) = true →
      decide (b.fullPlace ≤ c.fullPlace) = true → decide (a.fullPlace ≤ c.fullPlace) = true := by
    intro a b c hab hbc
    rw [decide_eq_true_iff] at *
    exact hab.trans hbc
  have htotal : ∀ a b : Charge,
      (decide (a.fullPlace ≤ b.fullPlace) || decide (b.fullPlace ≤ a.fullPlace)) = true :=
    fun a b => by simpa using le_total a.fullPlace b.fullPlace
  exact (List.pairwise_mergeSort htrans htotal cs).imp fun h =>
    place_le_of_fullPlace_le (of_decide_eq_true h)

theorem sorted_of_pairwise {cs : List Charge}
    (h : cs.Pairwise fun a b => a.fullPlace ≤ b.fullPlace) : sorted cs = cs := by
  refine List.mergeSort_of_pairwise (h.imp fun hab => ?_)
  rw [rank_lex]
  simpa using hab

/-! ## Charges on different terms -/

variable {a c p : Charge} {ps : List Charge} {v w : Verdict}

theorem sameTerms?_comm (a b : Charge) : sameTerms? a b = sameTerms? b a := by
  unfold sameTerms?
  by_cases h : a.item.plan = b.item.plan ∧ a.item.phase = b.item.phase
  · rw [if_pos h, if_pos ⟨h.1.symm, h.2.symm⟩, equalPrices?_comm]
  · rw [if_neg h, if_neg fun h' => h ⟨h'.1.symm, h'.2.symm⟩]

theorem sameTerms?_eq_false (hap : sameTerms? a p = .ok true) (hac : sameTerms? a c ≠ .ok true)
    (hc : ∀ r ∈ c.item.rate, r.isSignaling = false) : sameTerms? c p = .ok false := by
  unfold sameTerms? at hap hac ⊢
  by_cases hcp : c.item.plan = p.item.plan ∧ c.item.phase = p.item.phase
  case neg => rw [if_neg hcp]
  rw [if_pos hcp]
  split at hap
  case isFalse => cases hap
  case isTrue hplan =>
  rw [if_pos ⟨hplan.1.trans hcp.1.symm, hplan.2.trans hcp.2.symm⟩] at hac
  obtain ⟨answer, hanswer⟩ := equalPrices?_isOk hc (isSignaling_of_equalPrices? hap)
  cases answer with
  | false => exact hanswer
  | true => exact absurd (equalPrices?_trans hap hanswer) hac

theorem sameTerms?_of_verdict? (h : c.verdict? ps = .ok v) :
    ∀ p ∈ v.proposal?, p ∈ ps ∧ sameTerms? c p = .ok true := by
  obtain ⟨l, hl, h⟩ := bind_eq_ok_iff.1 h
  have hcandidate : ∀ p ∈ l, p ∈ ps ∧ sameTerms? c p = .ok true := by
    intro p hp
    rw [candidates?] at hl
    rw [filterM_eq_ok hl, List.mem_filter, List.mem_filter] at hp
    exact ⟨hp.1.1, holds_iff.1 hp.2⟩
  obtain ⟨o, ho, h⟩ := bind_eq_ok_iff.1 h
  cases o with
  | some q =>
    obtain rfl : Verdict.kept q = v := by simpa [pure, Except.pure] using h
    exact fun p hp => by cases hp; exact hcandidate q (findM?_eq_some ho).1
  | none =>
    dsimp only at h
    split at h
    case isFalse =>
      obtain rfl : Verdict.cancelled = v := by simpa [pure, Except.pure] using h
      exact fun p hp => by cases hp
    case isTrue =>
      obtain ⟨o, ho, h⟩ := bind_eq_ok_iff.1 h
      cases o with
      | some q =>
        obtain rfl : Verdict.shortened q = v := by simpa [pure, Except.pure] using h
        exact fun p hp => by cases hp; exact hcandidate q (findM?_eq_some ho).1
      | none =>
        obtain rfl : Verdict.cancelled = v := by simpa [pure, Except.pure] using h
        exact fun p hp => by cases hp

theorem candidates?_mark {handle : Nat}
    (h : ∀ p ∈ ps, p.handle = handle → sameTerms? c p = .ok false) :
    c.candidates? (Ledger.mark handle ps) = c.candidates? ps := by
  have hmarked : ((Ledger.mark handle ps).filter fun p =>
      p.item.kind = c.item.kind && p.item.start = c.item.start && !p.matched) =
      (ps.filter fun p => p.item.kind = c.item.kind && p.item.start = c.item.start &&
        !p.matched).filter fun p => p.handle ≠ handle := by
    induction ps with
    | nil => rfl
    | cons p ps ih =>
      have ih := ih fun q hq => h q (by simp [hq])
      rw [Ledger.mark] at ih ⊢
      rw [List.map_cons, List.filter_cons, ih, List.filter_cons]
      by_cases hp : p.handle = handle
      · simp only [hp, if_true, Bool.not_true, Bool.and_false, Bool.false_eq_true, if_false]
        split
        · rw [List.filter_cons_of_neg (by simp [hp])]
        · rfl
      · simp only [hp, if_false]
        split
        · rw [List.filter_cons_of_pos (by simp [hp])]
        · rfl
  rw [candidates?, candidates?, hmarked]
  exact filterM_filter fun p hp hne => h p (List.mem_of_mem_filter hp) (by simpa using hne)

theorem verdict?_markProposal
    (h : ∀ p ∈ v.proposal?, ∀ q ∈ ps, q.handle = p.handle → sameTerms? c q = .ok false) :
    c.verdict? (Ledger.markProposal ps v) = c.verdict? ps := by
  have hmark : ∀ p ∈ v.proposal?, c.verdict? (Ledger.mark p.handle ps) = c.verdict? ps := by
    intro p hp
    rw [verdict?, verdict?, candidates?_mark (h p hp)]
  cases v with
  | kept p => exact hmark p rfl
  | shortened p => exact hmark p rfl
  | cancelled => rfl

end Charge

/-! ## Settling in another order -/

namespace Ledger

open Charge (sameTerms?)

variable {ids : Nat → Id} {ps cs ds : List Charge} {a c : Charge}
  {x y : List (Charge × Option Item) × List Charge}

theorem mark_comm (m n : Nat) (cs : List Charge) : mark m (mark n cs) = mark n (mark m cs) := by
  rw [mark, mark, mark, mark, List.map_map, List.map_map]
  refine List.map_congr_left fun c _ => ?_
  simp only [Function.comp]
  split <;> split <;> simp_all

theorem markProposal_comm (ps : List Charge) (v w : Verdict) :
    markProposal (markProposal ps v) w = markProposal (markProposal ps w) v := by
  cases v <;> cases w <;> first | rfl | exact mark_comm ..

theorem trail_filter (ids : Nat → Id) (ps cs : List Charge) :
    trail ids ps cs = trail ids ps (cs.filter (·.isActive)) := by
  induction cs generalizing ps with
  | nil => rfl
  | cons c cs ih =>
    by_cases hc : c.isActive
    · rw [List.filter_cons_of_pos hc, trail, trail, if_pos hc, if_pos hc]
      simp only [← ih]
    · rw [List.filter_cons_of_neg hc, trail, if_neg hc]
      exact ih ps

theorem trail_cons (hc : c.isActive) : trail ids ps (c :: cs) = .ok x ↔
    ∃ v r y, c.verdict? ps = .ok v ∧ c.repair (ids c.handle) v = .ok r ∧
      trail ids (markProposal ps v) cs = .ok y ∧ x = ((c, r) :: y.1, y.2) := by
  rw [trail, if_pos hc]
  constructor
  · intro h
    obtain ⟨v, hv, h⟩ := bind_eq_ok_iff.1 h
    obtain ⟨r, hr, h⟩ := bind_eq_ok_iff.1 h
    obtain ⟨y, hy, h⟩ := bind_eq_ok_iff.1 h
    exact ⟨v, r, y, mapError_eq_ok_iff.1 hv, hr, hy, (Except.ok.inj h).symm⟩
  · rintro ⟨v, r, y, hv, hr, hy, rfl⟩
    rw [hv]
    refine bind_eq_ok_iff.2 ⟨v, rfl, bind_eq_ok_iff.2 ⟨r, hr, bind_eq_ok_iff.2 ⟨y, hy, rfl⟩⟩⟩

/-- Whether two runs come to the same, but for the order of their steps. -/
def Rearranged (x y : List (Charge × Option Item) × List Charge) : Prop :=
  x.1.Perm y.1 ∧ x.2 = y.2

/-- Charges that can be settled in either order: both are in force, on different terms, and their
prices can be compared. -/
structure Exchangeable (a c : Charge) : Prop where
  active : a.isActive ∧ c.isActive
  terms : sameTerms? a c ≠ .ok true
  rates : (∀ r ∈ a.item.rate, r.isSignaling = false) ∧ ∀ r ∈ c.item.rate, r.isSignaling = false

theorem Exchangeable.symm (h : Exchangeable a c) : Exchangeable c a :=
  ⟨h.active.symm, Charge.sameTerms?_comm a c ▸ h.terms, h.rates.symm⟩

theorem Exchangeable.verdict? (h : Exchangeable a c) (hn : (ps.map (·.handle)).Nodup) {v : Verdict}
    (hv : a.verdict? ps = .ok v) : c.verdict? (markProposal ps v) = c.verdict? ps := by
  refine Charge.verdict?_markProposal fun p hp q hq hqp => ?_
  obtain ⟨hmem, hterms⟩ := Charge.sameTerms?_of_verdict? hv p hp
  obtain rfl : q = p := List.inj_on_of_nodup_map hn hq hmem hqp
  exact Charge.sameTerms?_eq_false hterms h.terms h.rates.2

/-- Neighbours on different terms can be settled in either order. -/
theorem trail_swap (h : Exchangeable a c) (hn : (ps.map (·.handle)).Nodup)
    (hx : trail ids ps (a :: c :: cs) = .ok x) :
    ∃ y, trail ids ps (c :: a :: cs) = .ok y ∧ Rearranged x y := by
  obtain ⟨v, r, x', hv, hr, hx', rfl⟩ := (trail_cons h.active.1).1 hx
  obtain ⟨w, s, y, hw, hs, hy, rfl⟩ := (trail_cons h.active.2).1 hx'
  rw [h.verdict? hn hv] at hw
  have hv' := (h.symm.verdict? hn hw).trans hv
  rw [markProposal_comm] at hy
  exact ⟨_, (trail_cons h.active.2).2 ⟨w, s, _, hw, hs,
    (trail_cons h.active.1).2 ⟨v, r, y, hv', hr, hy, rfl⟩, rfl⟩, List.Perm.swap .., rfl⟩

theorem trail_move {as bs : List Charge} (h : ∀ a ∈ as, Exchangeable c a)
    (hn : (ps.map (·.handle)).Nodup) (hx : trail ids ps (c :: (as ++ bs)) = .ok x) :
    ∃ y, trail ids ps (as ++ c :: bs) = .ok y ∧ Rearranged x y := by
  induction as generalizing ps x with
  | nil => exact ⟨x, hx, .refl _, rfl⟩
  | cons a as ih =>
    have ha := h a (by simp)
    obtain ⟨y, hy, hxy, hfinal⟩ := trail_swap ha hn hx
    obtain ⟨v, r, y', hv, hr, hy', rfl⟩ := (trail_cons ha.active.2).1 hy
    obtain ⟨z, hz, hyz, hfinal'⟩ := ih (fun b hb => h b (by simp [hb]))
      (by rw [map_handle_markProposal]; exact hn) hy'
    exact ⟨_, (trail_cons ha.active.2).2 ⟨v, r, z, hv, hr, hz, rfl⟩,
      hxy.trans (hyz.cons _), hfinal.trans hfinal'⟩

/-- What settling comes to does not depend on the order of charges that stand in one place. The
induction is on the first order; the first charge moves to where the second order has it, past
charges that stand in its place. -/
theorem trail_perm (hp : cs.Perm ds) (hcs : cs.Pairwise fun a b => a.place ≤ b.place)
    (hds : ds.Pairwise fun a b => a.place ≤ b.place)
    (h : cs.Pairwise fun a b => a.place = b.place → Exchangeable a b)
    (hactive : ∀ c ∈ cs, c.isActive) (hn : (ps.map (·.handle)).Nodup)
    (hx : trail ids ps cs = .ok x) : ∃ y, trail ids ps ds = .ok y ∧ Rearranged x y := by
  induction cs generalizing ds ps x with
  | nil =>
    obtain rfl : ds = [] := List.nil_perm.1 hp
    exact ⟨x, hx, .refl _, rfl⟩
  | cons c cs ih =>
    obtain ⟨as, bs, rfl⟩ := List.append_of_mem (hp.subset (List.mem_cons_self ..))
    have hrest : cs.Perm (as ++ bs) := (List.perm_cons c).1 (hp.trans List.perm_middle)
    obtain ⟨hfirst, hcs⟩ := List.pairwise_cons.1 hcs
    obtain ⟨hexchange, h⟩ := List.pairwise_cons.1 h
    obtain ⟨v, r, x', hv, hr, hx', rfl⟩ := (trail_cons (hactive c (by simp))).1 hx
    obtain ⟨y, hy, hxy, hfinal⟩ := ih hrest hcs (hds.sublist (by simp)) h
      (fun d hd => hactive d (by simp [hd])) (by rw [map_handle_markProposal]; exact hn) hx'
    have hpast : ∀ a ∈ as, Exchangeable c a := by
      intro a ha
      have hmem : a ∈ cs := hrest.symm.subset (by simp [ha])
      have hle : a.place ≤ c.place := (List.pairwise_append.1 hds).2.2 a ha c (by simp)
      exact hexchange a hmem (le_antisymm (hfirst a hmem) hle)
    obtain ⟨z, hz, hyz, hfinal'⟩ := trail_move hpast hn
      ((trail_cons (hactive c (by simp))).2 ⟨v, r, y, hv, hr, hy, rfl⟩)
    exact ⟨z, hz, (hxy.cons _).trans hyz, hfinal.trans hfinal'⟩

end Ledger

end Invoicing
