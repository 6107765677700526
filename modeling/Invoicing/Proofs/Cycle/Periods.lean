import Invoicing.Proofs.Cycle.Tiling
import Invoicing.Proofs.Decimal.Nearest

/-!
# Cycles within their periods

A period runs from one boundary up to the next. Every cycle lies in a period, and counts for the share
that its days are of the days of the period (`BillingCycle.mem_inAdvance`); a whole period counts for
one. A period has less than a thousand days (`IsPeriod.days_lt`).
-/

namespace Invoicing

theorem monthStart_add_le (index : Int) (k : Nat) :
    monthStart (index + k) ≤ monthStart index + 31 * k := by
  induction k with
  | zero => simp
  | succ k ih =>
    have hdays : monthDays (index + k) ≤ 31 := daysInMonth_le _ _
    have hnext := monthStart_succ (index + k)
    push_cast
    rw [← add_assoc]
    omega

namespace Date

theorem daysUntil_pos {a b : Date} (h : a < b) : 0 < (a.daysUntil b).toNat := by
  have := lt_iff.1 h
  unfold daysUntil
  omega

theorem daysUntil_le {a b c d : Date} (h : c ≤ a) (h' : b ≤ d) :
    (a.daysUntil b).toNat ≤ (c.daysUntil d).toNat := by
  have := le_iff.1 h
  have := le_iff.1 h'
  unfold daysUntil
  omega

theorem daysUntil_boundary_le {first p q : Date} {m n day : Int} {months : Nat}
    (hp : first.boundary m day = .ok p) (hq : first.boundary n day = .ok q) (h : n = m + months) :
    p.daysUntil q ≤ 31 * months + 30 := by
  have hmonths : q.monthIndex = p.monthIndex + months := by
    rw [monthIndex_boundary hp, monthIndex_boundary hq]
    omega
  have hstart := monthStart_add_le p.monthIndex months
  have hday := q.day_le
  have hdays : monthDays q.monthIndex ≤ 31 := daysInMonth_le _ _
  have hfirst := p.day_mem.1
  unfold daysUntil
  rw [dayNumber_eq, dayNumber_eq, ← hmonths] at *
  omega

end Date

theorem BillingPeriod.months_le (p : BillingPeriod) : p.months ≤ 24 := by cases p <;> decide

namespace BillingCycle

variable {start : Date} {day : Int} {period : BillingPeriod} {p q : Date}

/-- Whether some days are one of the periods of a segment: that up to its first boundary, or one of those
that follow. -/
def IsPeriod (start : Date) (day : Int) (period : BillingPeriod) (p q : Date) : Prop :=
  ∃ first, firstBoundary start day = .ok first ∧ ∃ k : Int, -1 ≤ k ∧
    first.boundary (k * period.months) day = .ok p ∧
    first.boundary ((k + 1) * period.months) day = .ok q

theorem IsPeriod.days_lt (h : IsPeriod start day period p q) : (p.daysUntil q).toNat < 1000 := by
  obtain ⟨first, -, k, -, hp, hq⟩ := h
  have hdays := Date.daysUntil_boundary_le hp hq (add_one_mul k (period.months : Int))
  have := period.months_le
  omega

/-- Whether a cycle lies in a period, and counts for the share that its days are of it. -/
structure Within (c : BillingCycle) (p q : Date) : Prop where
  start_le : p ≤ c.start
  start_lt : c.start < c.finish
  finish_le : c.finish ≤ q
  count_eq : c.count = share c.start c.finish p q

theorem whole_within (h : p < q) : (whole p q).Within p q where
  start_le := le_rfl
  start_lt := h
  finish_le := le_rfl
  count_eq := by
    have hdays := Date.daysUntil_pos h
    show Decimal.ofInt 1 = share p q p q
    rw [share, Decimal.ratio, if_pos (Nat.mod_self _), Nat.div_self hdays]
    rfl

theorem previous_le {first previous : Date} {months : Nat} (hm : 0 < months)
    (h : firstBoundary start day = .ok first)
    (hp : first.boundary (-months) day = .ok previous) : previous ≤ start := by
  have hmonth := Date.monthIndex_boundary hp
  unfold firstBoundary at h
  rw [Date.alignedDate_eq] at h
  split at h
  case h_1 => cases h
  case h_2 d hd =>
  split at h
  case isFalse =>
    obtain rfl := Except.ok.inj h
    have := Date.monthIndex_boundary hd
    exact (Date.lt_of_monthIndex_lt (by omega)).le
  case isTrue hlt =>
    have hfirst := Date.monthIndex_boundary h
    rcases Nat.lt_or_ge 1 months with hmany | hone
    · exact (Date.lt_of_monthIndex_lt (by omega)).le
    · -- With periods of a month it is the boundary in the month of the first day.
      obtain rfl : months = 1 := by omega
      have hsame : first.boundary (-(1 : Nat)) day = start.boundary 0 day := by
        rw [Date.boundary_eq, Date.boundary_eq, hfirst]
        congr 2 <;> omega
      rw [hsame, hd] at hp
      obtain rfl := Except.ok.inj hp
      exact hlt.le

section

variable {first : Date} {finish : Option Date} {target : Date} {months k : Nat} {hm : 0 < months}
  {cs : List BillingCycle}

theorem mem_cyclesFrom (h : cyclesFrom first finish target day months hm k = .ok cs) :
    ∀ c ∈ cs, ∃ (j : Nat) (p q : Date), grid first day months j = .ok p ∧
      grid first day months (j + 1) = .ok q ∧ c.Within p q := by
  induction cs generalizing k with
  | nil => simp
  | cons c cs ih =>
    obtain ⟨s, hs, ⟨hcs, -⟩ | ⟨-, next, hnext, ⟨f, -, hsf, hfn, hcs⟩ | ⟨-, rest, hrest, hcs⟩⟩⟩ :=
      cyclesFrom_cases h
    · cases hcs
    · rw [hcs]
      exact List.forall_mem_singleton.2 ⟨k, s, next, hs, hnext, le_rfl, hsf, hfn.le, rfl⟩
    · obtain ⟨rfl, rfl⟩ := List.cons.inj hcs
      have hsn : s < next := grid_lt hm hs hnext (Nat.lt_succ_self k)
      exact List.forall_mem_cons.2 ⟨⟨k, s, next, hs, hnext, whole_within hsn⟩, ih hrest⟩

/-- Every cycle of a segment is part of one of its periods. -/
theorem mem_inAdvance (h : inAdvance start finish target day period = .ok cs) :
    ∀ c ∈ cs, ∃ p q, IsPeriod start day period p q ∧ c.Within p q := by
  rcases inAdvance_cases h with ⟨rfl, -⟩ | ⟨-, hopen, hm, first, hfirst, hcases⟩
  · simp
  have hfrom : ∀ {rest}, cyclesFrom first finish target day period.months hm 0 = .ok rest →
      ∀ c ∈ rest, ∃ p q, IsPeriod start day period p q ∧ c.Within p q := by
    intro rest hrest c hc
    obtain ⟨j, p, q, hp, hq, hpart⟩ := mem_cyclesFrom hrest c hc
    exact ⟨p, q, ⟨first, hfirst, j, by omega, by exact_mod_cast hp, by exact_mod_cast hq⟩, hpart⟩
  rcases hcases with ⟨-, hcs⟩ | ⟨hlt, previous, hprevious, hcases⟩
  · exact hfrom hcs
  have hperiod : IsPeriod start day period previous first := by
    refine ⟨first, hfirst, -1, le_rfl, by simpa using hprevious, ?_⟩
    simpa using (firstBoundary_spec hfirst).2
  have hle := previous_le hm hfirst hprevious
  rcases hcases with ⟨f, hf, hff, rfl⟩ | ⟨-, rest, hrest, rfl⟩
  · exact List.forall_mem_singleton.2
      ⟨previous, first, hperiod, hle, hopen f hf, hff.le, rfl⟩
  · exact List.forall_mem_cons.2
      ⟨⟨previous, first, hperiod, hle, hlt, le_rfl, rfl⟩, hfrom hrest⟩

end

/-! ## Counts -/

theorem count_of_mem {finish : Option Date} {target : Date} {cs : List BillingCycle}
    (h : inAdvance start finish target day period = .ok cs) :
    ∀ c ∈ cs, ∃ n e, c.count = .finite false n e := by
  intro c hc
  obtain ⟨p, q, -, hpart⟩ := mem_inAdvance h c hc
  rw [hpart.count_eq]
  exact Decimal.ratio_eq ..

end BillingCycle

end Invoicing
