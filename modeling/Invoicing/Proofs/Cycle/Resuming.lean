import Invoicing.Proofs.Cycle.Counts
import Invoicing.Proofs.Cycle.Segments

/-!
# Taking up a segment at a boundary

The grid of a segment is the same from each of its dates on (`BillingCycle.grid_of_grid`), also where
that date is the last day of a short month. So a segment may be ended at the start of one of its cycles
and taken up again there: the cycles are the same, with their counts (`BillingCycle.inAdvance_resumed`).
-/

namespace Invoicing.BillingCycle

variable {first start target s next previous : Date} {finish : Option Date} {day : Int}
  {months j k : Nat} {hm : 0 < months} {c : BillingCycle} {cs left right rest : List BillingCycle}

/-! ## The grid from one of its dates on -/

/-- The grid goes on from one of its dates as before. -/
theorem grid_of_grid (hs : grid first day months j = .ok s) (k : Nat) :
    grid s day months k = grid first day months (j + k) := by
  rw [grid, Date.boundary_of_boundary hs, grid, Nat.add_mul, Nat.cast_add]

theorem firstBoundary_of_grid (hs : grid first day months j = .ok s) :
    firstBoundary s day = .ok s :=
  firstBoundary_eq_ok_iff.2 ⟨⟨le_rfl, (Date.boundary_eq_ok_iff.1 hs).2⟩, fun _ hd => hd.1⟩

theorem cyclesFrom_of_grid (hs : grid first day months j = .ok s)
    (h : cyclesFrom first finish target day months hm (j + k) = .ok cs) :
    cyclesFrom s finish target day months hm k = .ok cs := by
  induction cs generalizing k with
  | nil =>
    obtain ⟨t, ht, ⟨-, hout⟩ | ⟨-, next, -, ⟨f, -, -, -, hcs⟩ | ⟨-, rest, -, hcs⟩⟩⟩ :=
      cyclesFrom_cases h
    · exact cyclesFrom_nil ((grid_of_grid hs k).trans ht) hout
    · cases hcs
    · cases hcs
  | cons c cs ih =>
    obtain ⟨t, ht, ⟨hcs, -⟩ | ⟨hdue, next, hnext, hcases⟩⟩ := cyclesFrom_cases h
    · cases hcs
    have ht' := (grid_of_grid hs k).trans ht
    have hnext' := (grid_of_grid hs (k + 1)).trans hnext
    obtain ⟨f, rfl, htf, hfn, hcs⟩ | ⟨hlong, rest, hrest, hcs⟩ := hcases
    · rw [hcs]
      exact cyclesFrom_last ht' hdue htf hnext' hfn
    · obtain ⟨rfl, rfl⟩ := List.cons.inj hcs
      exact cyclesFrom_whole ht' hdue hnext' hlong (ih hrest)

theorem cyclesFrom_split
    (h : cyclesFrom first finish target day months hm k = .ok (left ++ c :: right)) :
    grid first day months (k + left.length) = .ok c.start ∧ (∀ f ∈ finish, c.start < f) ∧
      cyclesFrom first (some c.start) target day months hm k = .ok left ∧
      cyclesFrom first finish target day months hm (k + left.length) = .ok (c :: right) := by
  induction left generalizing k with
  | nil =>
    obtain ⟨s, hs, ⟨hcs, -⟩ | ⟨-, next, hnext, hcases⟩⟩ := cyclesFrom_cases h
    · cases hcs
    obtain ⟨hstart, hopen⟩ : c.start = s ∧ ∀ f ∈ finish, s < f := by
      obtain ⟨f, rfl, hsf, -, hcs⟩ | ⟨hlong, rest, -, hcs⟩ := hcases
      · rw [(List.cons.inj hcs).1]
        exact ⟨rfl, by rintro _ ⟨⟩; exact hsf⟩
      · rw [(List.cons.inj hcs).1]
        exact ⟨rfl, fun f hf => (grid_lt hm hs hnext (Nat.lt_succ_self k)).trans_le (hlong f hf)⟩
    subst hstart
    exact ⟨hs, hopen, cyclesFrom_nil hs (.inr ⟨_, rfl, le_rfl⟩), h⟩
  | cons d left ih =>
    obtain ⟨s, hs, ⟨hcs, -⟩ | ⟨hdue, next, hnext, ⟨f, -, -, -, hcs⟩ | ⟨hlong, rest, hrest, hcs⟩⟩⟩ :=
      cyclesFrom_cases h
    · cases hcs
    · exact absurd (List.cons.inj hcs).2 (by simp)
    · obtain ⟨rfl, rfl⟩ := List.cons.inj hcs
      obtain ⟨hgrid, hopen, hleft, hright⟩ := ih hrest
      have hlen : k + (whole s next :: left).length = k + 1 + left.length := by
        rw [List.length_cons]
        omega
      rw [hlen]
      have hnc : next ≤ c.start := grid_le hnext hgrid (Nat.le_add_right _ _)
      exact ⟨hgrid, hopen, cyclesFrom_whole hs hdue hnext (by rintro _ ⟨⟩; exact hnc) hleft, hright⟩

/-! ## Segments -/

variable {period : BillingPeriod}

theorem inAdvance_of_grid {hm : 0 < period.months} (hs : grid first day period.months k = .ok s)
    (hopen : ∀ f ∈ finish, s < f) (hdue : s ≤ target)
    (h : cyclesFrom first finish target day period.months hm k = .ok cs) :
    inAdvance s finish target day period = .ok cs :=
  inAdvance_aligned hm hopen hdue (firstBoundary_of_grid hs) (cyclesFrom_of_grid hs h)

/-- A segment that ends where a cycle of it starts, but the first, has the cycles before that, and one
that is taken up there the others. -/
theorem inAdvance_resumed
    (h : inAdvance start finish target day period = .ok cs) (hc : c ∈ cs.tail) :
    ∃ left right, inAdvance start (some c.start) target day period = .ok left ∧
      inAdvance c.start finish target day period = .ok right ∧ left ++ right = cs := by
  obtain ⟨d, cs, rfl⟩ : ∃ d ds, cs = d :: ds := List.exists_cons_of_ne_nil (by rintro rfl; cases hc)
  obtain ⟨left, right, rfl⟩ := List.append_of_mem (show c ∈ cs from hc)
  have hdue : c.start ≤ target := start_le_target h c (by simp)
  obtain ⟨hcs, -⟩ | ⟨hstart, -, hm, first, hfirst, hcases⟩ := inAdvance_cases h
  · cases hcs
  have hzero : grid first day period.months 0 = .ok first := grid_zero hfirst
  obtain ⟨rfl, hcs⟩ | ⟨hlt, previous, hprevious, ⟨f, -, -, hcs⟩ | ⟨-, rest, hrest, hcs⟩⟩ := hcases
  · -- The first cycle is one from the grid as well.
    have hcs : cyclesFrom start finish target day period.months hm 0 =
        .ok ((d :: left) ++ c :: right) := hcs
    obtain ⟨hgrid, hopen, hleft, hright⟩ := cyclesFrom_split hcs
    have hsc : start < c.start := grid_lt hm hzero hgrid (by simp)
    exact ⟨d :: left, c :: right,
      inAdvance_aligned hm (by rintro _ ⟨⟩; exact hsc) hstart hfirst hleft,
      inAdvance_of_grid hgrid hopen hdue hright, rfl⟩
  · exact absurd (List.cons.inj hcs).2 (by simp)
  · obtain ⟨rfl, rfl⟩ := List.cons.inj hcs
    obtain ⟨hgrid, hopen, hleft, hright⟩ := cyclesFrom_split hrest
    have hfc : first ≤ c.start := grid_le hzero hgrid (Nat.zero_le _)
    exact ⟨_ :: left, c :: right,
      inAdvance_leading hm hstart hfirst hlt hprevious (by rintro _ ⟨⟩; exact hfc) hleft,
      inAdvance_of_grid hgrid hopen hdue hright, rfl⟩

/-- A quarter that starts on the last day of April reaches to the last day of July also if the segment
is taken up there, after a part of a quarter up to the end of January. -/
theorem inAdvance_resumed_endOfApril :
    ∃ cs c, inAdvance midJanuary none endOfJune 31 .quarterly = .ok cs ∧ c ∈ cs.tail ∧
      c.start = endOfApril ∧
      ∃ left right, inAdvance midJanuary (some endOfApril) endOfJune 31 .quarterly = .ok left ∧
        inAdvance endOfApril none endOfJune 31 .quarterly = .ok right ∧ left ++ right = cs := by
  obtain ⟨cs, hcs⟩ := isOk_iff.1
    (by decide +kernel : (inAdvance midJanuary none endOfJune 31 .quarterly).isOk = true)
  have hany : (inAdvance midJanuary none endOfJune 31 .quarterly).toOption.any
      (·.tail.any fun c => c.start = endOfApril) = true := by
    decide +kernel
  obtain ⟨c, hc, hstart⟩ : ∃ c ∈ cs.tail, c.start = endOfApril := by
    rw [hcs] at hany
    simpa [Except.toOption] using hany
  refine ⟨cs, c, hcs, hc, hstart, ?_⟩
  rw [← hstart]
  exact inAdvance_resumed hcs hc

end Invoicing.BillingCycle
