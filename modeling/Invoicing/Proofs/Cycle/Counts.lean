import Invoicing.Proofs.Cycle.Grid
import Invoicing.Proofs.Cycle.Periods
import Invoicing.Proofs.Decimal.Quotient

/-!
# Cycle counts

Periods follow each other, so days lie in one period at most (`BillingCycle.IsPeriod.unique`). The count
of a cycle is the number of its days divided by that of its period, correctly rounded: positive, and one
just for a whole period (`BillingCycle.inAdvance_counts`).
-/

namespace Invoicing.BillingCycle

variable {start target p q p' q' s e : Date} {finish : Option Date} {day : Int} {period : BillingPeriod}
  {cs : List BillingCycle} {c : BillingCycle}

theorem IsPeriod.isBoundary (h : IsPeriod start day period p q) :
    p.IsBoundary day ∧ q.IsBoundary day := by
  obtain ⟨first, -, k, -, hp, hq⟩ := h
  exact ⟨(Date.boundary_eq_ok_iff.1 hp).2, (Date.boundary_eq_ok_iff.1 hq).2⟩

theorem IsPeriod.unique (h : IsPeriod start day period p q) (h' : IsPeriod start day period p' q')
    (hpq : p < q') (hpq' : p' < q) : p = p' ∧ q = q' := by
  obtain ⟨first, hfirst, k, -, hp, hq⟩ := h
  obtain ⟨first', hfirst', k', -, hp', hq'⟩ := h'
  obtain rfl : first = first' := Except.ok.inj (hfirst.symm.trans hfirst')
  obtain ⟨hpi, hpb⟩ := Date.boundary_eq_ok_iff.1 hp
  obtain ⟨hqi, hqb⟩ := Date.boundary_eq_ok_iff.1 hq
  obtain ⟨hpi', hpb'⟩ := Date.boundary_eq_ok_iff.1 hp'
  obtain ⟨hqi', hqb'⟩ := Date.boundary_eq_ok_iff.1 hq'
  rw [hpb.lt_iff hqb'] at hpq
  rw [hpb'.lt_iff hqb] at hpq'
  have hpos : (0 : Int) ≤ period.months := Int.natCast_nonneg _
  have hle : k < k' + 1 := lt_of_mul_lt_mul_right (by omega) hpos
  have hge : k' < k + 1 := lt_of_mul_lt_mul_right (by omega) hpos
  obtain rfl : k = k' := by omega
  exact ⟨hpb.eq hpb' (by omega), hqb.eq hqb' (by omega)⟩

theorem Within.days_le (h : c.Within p q) :
    0 < (c.start.daysUntil c.finish).toNat ∧
    (c.start.daysUntil c.finish).toNat ≤ (p.daysUntil q).toNat :=
  ⟨Date.daysUntil_pos h.start_lt, Date.daysUntil_le h.start_le h.finish_le⟩

theorem Within.days_eq_iff (h : c.Within p q) :
    (c.start.daysUntil c.finish).toNat = (p.daysUntil q).toNat ↔ c.start = p ∧ c.finish = q := by
  constructor
  · intro hdays
    have hstart := Date.le_iff.1 h.start_le
    have hlt := Date.lt_iff.1 h.start_lt
    have hfinish := Date.le_iff.1 h.finish_le
    unfold Date.daysUntil at hdays
    exact ⟨Date.dayNumber_injective (by omega), Date.dayNumber_injective (by omega)⟩
  · rintro ⟨rfl, rfl⟩
    rfl

/-- Every cycle of a segment lies in one period, which has days. It counts for the quotient of its days
and those of the period, rounded to 28 digits: for more than nothing, for one if it is the whole period,
and for less than one otherwise, as when the segment starts off the boundaries. -/
theorem inAdvance_counts (h : inAdvance start finish target day period = .ok cs) :
    ∀ c ∈ cs, ∃ p q, IsPeriod start day period p q ∧ c.Within p q ∧ 0 < p.daysUntil q ∧
      (∀ p' q', IsPeriod start day period p' q' → p' ≤ c.start → c.finish ≤ q' →
        p' = p ∧ q' = q) ∧
      c.count.Rounds 28 (c.start.daysUntil c.finish / p.daysUntil q) ∧
      0 < c.count.toRat ∧ c.count.toRat ≤ 1 ∧
      (c.count.toRat = 1 ↔ c.start = p ∧ c.finish = q) ∧
      (c.start = start → ¬ start.IsBoundary day → c.count.toRat < 1) := by
  intro c hc
  obtain ⟨p, q, hperiod, hwithin⟩ := mem_inAdvance h c hc
  obtain ⟨hpos, hle⟩ := hwithin.days_le
  have hsmall : (p.daysUntil q).toNat ≤ 10 ^ (working.digits - 1) :=
    hperiod.days_lt.le.trans (by norm_num [Precision.working])
  have hcast : ∀ a b : Date, 0 < (a.daysUntil b).toNat →
      ((a.daysUntil b : Int) : ℚ) = ((a.daysUntil b).toNat : ℚ) := by
    intro a b hab
    exact_mod_cast (Int.toNat_of_nonneg (by omega)).symm
  have hrounds : c.count.Rounds 28 (c.start.daysUntil c.finish / p.daysUntil q) := by
    rw [hwithin.count_eq, hcast _ _ hpos, hcast _ _ (hpos.trans_le hle)]
    exact Decimal.ratio_rounds (p := working) (by decide) hpos hle
  have hone : c.count.toRat = 1 ↔ c.start = p ∧ c.finish = q := by
    rw [← hwithin.days_eq_iff, hwithin.count_eq]
    exact Decimal.ratio_eq_one_iff (by decide) (hpos.trans_le hle) hle hsmall
  have hlt : ¬ (c.start = p ∧ c.finish = q) → c.count.toRat < 1 := by
    rw [← hwithin.days_eq_iff, hwithin.count_eq]
    exact fun hne => Decimal.ratio_lt_one (by decide) (lt_of_le_of_ne hle hne) hsmall
  refine ⟨p, q, hperiod, hwithin, by omega, fun p' q' h' hp' hq' => ?_, hrounds, hrounds.pos, ?_,
    hone, ?_⟩
  · exact h'.unique hperiod (hp'.trans_lt (hwithin.start_lt.trans_le hwithin.finish_le))
      (hwithin.start_le.trans_lt (hwithin.start_lt.trans_le hq'))
  · by_cases hwhole : c.start = p ∧ c.finish = q
    · exact (hone.2 hwhole).le
    · exact (hlt hwhole).le
  · rintro hstart hoff
    refine hlt fun hwhole => hoff ?_
    rw [← hstart, hwhole.1]
    exact hperiod.isBoundary.1

def tenthOfFebruary : Date := (Date.of? 2024 2 10).get rfl

def endOfJune : Date := (Date.of? 2024 6 30).get rfl

/-- The days up to the end of a leap February count for part of the quarter from the end of November
on. -/
theorem inAdvance_counts_leading :
    ∃ cs, inAdvance tenthOfFebruary none endOfJune 31 .quarterly = .ok cs ∧
      ∃ c ∈ cs, c.start = tenthOfFebruary ∧ c.count.Rounds 28 (19 / 91) ∧ c.count.toRat < 1 := by
  let endOfNovember : Date := (Date.of? 2023 11 30).get rfl
  let endOfFebruary : Date := (Date.of? 2024 2 29).get rfl
  obtain ⟨cs, hcs⟩ := isOk_iff.1
    (by decide +kernel : (inAdvance tenthOfFebruary none endOfJune 31 .quarterly).isOk = true)
  have hany : (inAdvance tenthOfFebruary none endOfJune 31 .quarterly).toOption.any
      (·.any fun c => c.start = tenthOfFebruary ∧ c.finish = endOfFebruary) = true := by
    decide +kernel
  obtain ⟨c, hc, hstart, hfinish⟩ :
      ∃ c ∈ cs, c.start = tenthOfFebruary ∧ c.finish = endOfFebruary := by
    rw [hcs] at hany
    simpa [Except.toOption] using hany
  obtain ⟨p, q, -, -, -, hunique, hrounds, -, -, -, hpart⟩ := inAdvance_counts hcs c hc
  obtain ⟨rfl, rfl⟩ := hunique endOfNovember endOfFebruary
    ⟨endOfFebruary, rfl, -1, by decide, rfl, rfl⟩ (hstart ▸ by decide) hfinish.le
  have hdays : tenthOfFebruary.daysUntil endOfFebruary = 19 ∧
      endOfNovember.daysUntil endOfFebruary = 91 := by decide
  rw [hstart, hfinish, hdays.1, hdays.2] at hrounds
  exact ⟨cs, hcs, c, hc, hstart, hrounds, hpart hstart (by decide)⟩

end Invoicing.BillingCycle
