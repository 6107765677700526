import Invoicing.Proofs.Decimal.Units
import Invoicing.Proofs.Money

/-!
# Rounding to the minor unit

`Money.units` is how many minor units an amount is rounded to. An amount can be rounded just if the
digits of this number are within the working precision (`Money.round_cases`); what it is rounded to is
a `Money.IsRounding`, and larger amounts are not rounded to less.
-/

namespace Invoicing

theorem Currency.toRat_quantum (c : Currency) : c.quantum.toRat = 10 ^ (-(c.places : Int)) := by
  simp [quantum, Decimal.toRat, Decimal.magnitude]

theorem Currency.quantum_pos (c : Currency) : 0 < c.quantum.toRat := by
  rw [toRat_quantum]
  positivity

namespace Money

/-- The number of minor units that an amount is rounded to. -/
def units (mode : RoundingMode) (m : Money) : ℤ :=
  mode.units (m.amount.toRat / m.currency.quantum.toRat)

/-- What an amount is rounded to: as many minor units as the mode says, so less than one away and a
half at most for the modes that go to the nearest. What is a number of minor units already keeps its
value, and what was rounded stays as it is. -/
structure IsRounding (mode : RoundingMode) (m r : Money) : Prop where
  currency : r.currency = m.currency
  exponent : ∃ s k e, r.amount = .finite s k e ∧ m.currency.quantum = .finite false 1 e
  value : r.amount.toRat = m.units mode * m.currency.quantum.toRat
  near : |r.amount.toRat - m.amount.toRat| < m.currency.quantum.toRat
  nearest : mode.IsNearest → |r.amount.toRat - m.amount.toRat| ≤ m.currency.quantum.toRat / 2
  exact : (∃ k : ℤ, m.amount.toRat = k * m.currency.quantum.toRat) →
    r.amount.toRat = m.amount.toRat
  again : ∀ mode', r.round (some mode') = .ok r

variable {m m' r r' : Money} {mode : RoundingMode}

theorem round_eq_ok : m.round (some mode) = .ok r ↔
    ∃ d, Decimal.quantize working mode (-m.currency.places) m.amount = .ok d ∧
      r = ⟨d, m.currency⟩ := by
  unfold round
  dsimp only
  rw [map_eq_ok_iff]
  constructor
  · rintro ⟨d, hd, rfl⟩
    exact ⟨d, mapError_eq_ok_iff.1 hd, rfl⟩
  · rintro ⟨d, hd, rfl⟩
    exact ⟨d, mapError_eq_ok_iff.2 hd, rfl⟩

theorem abs_units_sub (mode : RoundingMode) (m : Money) :
    |m.units mode * m.currency.quantum.toRat - m.amount.toRat| =
      |(m.units mode : ℚ) - m.amount.toRat / m.currency.quantum.toRat| *
        m.currency.quantum.toRat := by
  have hpos := m.currency.quantum_pos
  rw [← abs_of_pos hpos, ← abs_mul, abs_of_pos hpos, sub_mul, div_mul_cancel₀ _ hpos.ne']

theorem isRounding_of_units {s : Bool} {k : Nat}
    (hk : digitCount k ≤ working.digits) (hcounts : Decimal.Counts
      (.finite s k (-m.currency.places)) (-m.currency.places) (m.units mode)) :
    IsRounding mode m ⟨.finite s k (-m.currency.places), m.currency⟩ := by
  have hpos := m.currency.quantum_pos
  have hvalue : Decimal.toRat (.finite s k (-m.currency.places)) =
      m.units mode * m.currency.quantum.toRat := by
    rw [Currency.toRat_quantum]
    exact hcounts.2
  refine ⟨rfl, ⟨s, k, _, rfl, rfl⟩, hvalue, ?_, fun hmode => ?_, ?_, fun mode' => ?_⟩
  · have hnear := mode.abs_units_sub_lt_one (m.amount.toRat / m.currency.quantum.toRat)
    rw [hvalue, abs_units_sub]
    exact mul_lt_of_lt_one_left hpos hnear
  · have hnear := hmode.abs_units_sub_le (m.amount.toRat / m.currency.quantum.toRat)
    rw [hvalue, abs_units_sub]
    have := mul_le_mul_of_nonneg_right hnear hpos.le
    rw [units]
    linarith
  · rintro ⟨n, hn⟩
    rw [hvalue, units, hn, mul_div_cancel_right₀ _ hpos.ne', RoundingMode.units_intCast]
  · exact round_eq_ok.2 ⟨_, Decimal.quantize_self (by decide) mode' hk, rfl⟩

/-- An amount is refused if its minor units have too many digits, and rounded otherwise. -/
theorem round_cases (mode : RoundingMode) (hf : m.amount.isFinite) :
    (28 < digitCount (m.units mode).natAbs ∧
      m.round (some mode) = .error (.decimal .invalidOperation)) ∨
    (digitCount (m.units mode).natAbs ≤ 28 ∧
      ∃ r, m.round (some mode) = .ok r ∧ IsRounding mode m r) := by
  have hunits := Decimal.quantize_units (p := working) (u := -m.currency.places) (by decide) mode hf
  rw [← Currency.toRat_quantum] at hunits
  rcases hunits with ⟨hdigits, herror⟩ | ⟨hdigits, s, k, hok, hk, hcounts⟩
  · left
    refine ⟨hdigits, ?_⟩
    rw [round, herror]
    rfl
  · right
    exact ⟨hdigits, _, round_eq_ok.2 ⟨_, hok, rfl⟩, isRounding_of_units hk hcounts⟩

theorem round_mono (hf : m.amount.isFinite) (hf' : m'.amount.isFinite)
    (hc : m'.currency = m.currency) (hle : m.amount.toRat ≤ m'.amount.toRat)
    (h : m.round (some mode) = .ok r) (h' : m'.round (some mode) = .ok r') :
    r.amount.toRat ≤ r'.amount.toRat := by
  obtain ⟨d, hd, rfl⟩ := round_eq_ok.1 h
  obtain ⟨d', hd', rfl⟩ := round_eq_ok.1 h'
  rw [hc] at hd'
  exact Decimal.quantize_mono (by decide) hf hf' hle hd hd'

/-- Rounding is proper in every mode: a finite amount is refused just if the minor units it is rounded
to have more than 28 digits, otherwise it is rounded to them, and a larger amount of the same currency
is not rounded to less. -/
theorem round_proper (mode : RoundingMode) (m : Money) (hf : m.amount.isFinite) :
    (m.round (some mode) = .error (.decimal .invalidOperation) ↔
      28 < digitCount (m.units mode).natAbs) ∧
    (digitCount (m.units mode).natAbs ≤ 28 →
      ∃ r, m.round (some mode) = .ok r ∧ IsRounding mode m r) ∧
    ∀ m' r r' : Money, m'.amount.isFinite → m'.currency = m.currency →
      m.amount.toRat ≤ m'.amount.toRat → m.round (some mode) = .ok r →
      m'.round (some mode) = .ok r' → r.amount.toRat ≤ r'.amount.toRat := by
  refine ⟨?_, ?_, fun m' r r' hf' hc hle h h' => round_mono hf hf' hc hle h h'⟩
  · rcases round_cases mode hf with ⟨hdigits, herror⟩ | ⟨hdigits, r, hok, -⟩
    · exact iff_of_true herror hdigits
    · apply iff_of_false
      · rw [hok]
        exact fun h => by cases h
      · omega
  · intro hdigits
    rcases round_cases mode hf with ⟨hmore, -⟩ | ⟨-, hr⟩
    · omega
    · exact hr

/-- Half a cent above an even number of cents, rounded to the nearest, stays with that number. -/
theorem round_proper_halfCent :
    (⟨.finite false 2345 (-3), .usd⟩ : Money).amount.isFinite ∧
    ∃ r, (⟨.finite false 2345 (-3), .usd⟩ : Money).round (some .halfEven) = .ok r ∧
      IsRounding .halfEven ⟨.finite false 2345 (-3), .usd⟩ r := by
  refine ⟨rfl, ?_⟩
  obtain ⟨-, hround, -⟩ := round_proper .halfEven ⟨.finite false 2345 (-3), .usd⟩ rfl
  exact hround (by decide +kernel)

end Money

end Invoicing
