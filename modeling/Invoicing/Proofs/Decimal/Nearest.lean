import Invoicing.Proofs.Decimal.Residue
import Invoicing.Proofs.Decimal.Sign
import Invoicing.Proofs.Decimal.Units

/-!
# How far rounded results are off

A result that is fitted to a precision is off by a part of itself at most, its `roundoff`, apart from
the `underflow` of numbers near the least exponent (`Decimal.fit_near`). The quotient of two whole
numbers is off by its roundoff, and exact if it is a decimal fraction of few places
(`Decimal.ratio_near`, `Decimal.ratio_exact`). Only rounding to a unit goes to the nearest multiple, a
half upwards (`Decimal.quantize_halfUp`).
-/

namespace Invoicing

namespace Precision

variable (p : Precision)

/-- The part of itself by which a rounded number can be off. -/
def roundoff : ℚ := 10 ^ (1 - (p.digits : Int))

/-- What a rounded number near the least exponent can be off besides. -/
def underflow : ℚ := 10 ^ p.least

theorem roundoff_pos : 0 < p.roundoff := by
  unfold roundoff
  positivity

theorem roundoff_eq (h : 0 < p.digits) : p.roundoff = 1 / 10 ^ (p.digits - 1) := by
  have hexp : (1 : Int) - p.digits = -((p.digits - 1 : Nat) : Int) := by omega
  rw [roundoff, hexp, zpow_neg, zpow_natCast, one_div]

theorem underflow_pos : 0 < p.underflow := by
  unfold underflow
  positivity

end Precision

namespace Decimal

variable {p : Precision} {d : Decimal}

/-! ## Fitting -/

theorem magnitude_fitted {c : Nat} {e : Int} (hd : 0 < p.digits) :
    magnitude (fitted p c e).1 (fitted p c e).2 = magnitude (keptDigits p c e) (lastPlace p c e) := by
  obtain ⟨k, hplace, -, hkept⟩ := fitted_shift (p := p) (c := c) (e := e) hd
  rw [hplace, ← magnitude_shift, hkept]

theorem abs_keptDigits_sub (c : Nat) (e : Int) :
    |magnitude (keptDigits p c e) (lastPlace p c e) - magnitude c e| ≤ 10 ^ lastPlace p c e := by
  have hle : e ≤ lastPlace p c e := by unfold lastPlace; omega
  have hnear := dropDigits_near .halfEven false c (lastPlace p c e - e).toNat
  obtain ⟨k, hk⟩ : ∃ k : Nat, lastPlace p c e = e + k := ⟨(lastPlace p c e - e).toNat, by omega⟩
  have hdrop : (lastPlace p c e - e).toNat = k := by omega
  rw [keptDigits, hdrop, hk, ← magnitude_shift]
  rw [hdrop] at hnear
  have hunits : |(dropDigits .halfEven false c k : Int) * 10 ^ k - c| ≤ 10 ^ k := by
    rw [Int.abs_eq_natAbs]
    exact_mod_cast hnear
  have hunits : |(dropDigits .halfEven false c k : ℚ) * 10 ^ k - c| ≤ 10 ^ k := by
    exact_mod_cast hunits
  unfold magnitude
  rw [← sub_mul, abs_mul, abs_of_pos (by positivity : (0 : ℚ) < 10 ^ e), zpow_add₀ (by norm_num),
    zpow_natCast, mul_comm ((10 : ℚ) ^ e)]
  refine mul_le_mul_of_nonneg_right ?_ (by positivity)
  push_cast
  exact hunits

theorem fit_near {negative : Bool} {c : Nat} {e : Int} (hd : 0 < p.digits)
    (h : fit p negative c e = .ok d) :
    |d.toRat - toRat (.finite negative c e)| ≤ p.roundoff * magnitude c e + p.underflow := by
  have hround := p.roundoff_pos
  have hunder := p.underflow_pos
  have hmag := magnitude_nonneg c e
  rcases eq_or_ne c 0 with rfl | hc
  · obtain rfl := Except.ok.inj h
    simp [toRat]
    positivity
  rw [fit_eq _ hc] at h
  split at h
  case isTrue => cases h
  case isFalse =>
  obtain rfl := Except.ok.inj h
  have hsign : |toRat (.finite negative (fitted p c e).1 (fitted p c e).2) -
      toRat (.finite negative c e)| =
      |magnitude (keptDigits p c e) (lastPlace p c e) - magnitude c e| := by
    rw [← magnitude_fitted hd]
    cases negative
    · simp [toRat]
    · simp only [toRat, if_true]
      rw [← abs_neg]
      congr 1
      ring
  rw [hsign]
  have hnear := abs_keptDigits_sub (p := p) c e
  have hlast : lastPlace p c e = e ∨ lastPlace p c e = p.least ∨
      lastPlace p c e = e + digitCount c - p.digits := by unfold lastPlace; omega
  rcases hlast with hl | hl | hl
  · rw [keptDigits_of_eq hl, hl, sub_self, abs_zero]
    positivity
  · rw [hl] at hnear ⊢
    exact hnear.trans (le_add_of_nonneg_left (by positivity))
  · -- The last place is that of the first digit, less the digits kept.
    have hpow : (10 : ℚ) ^ lastPlace p c e = p.roundoff * 10 ^ leading c e := by
      unfold Precision.roundoff leading
      rw [← zpow_add₀ (by norm_num), hl]
      congr 1
      omega
    have hlead := mul_le_mul_of_nonneg_left (pow_le_magnitude hc e) hround.le
    linarith

/-! ## Products -/

theorem toRat_product (n₁ n₂ : Bool) (c₁ c₂ : Nat) (e₁ e₂ : Int) :
    toRat (.finite (n₁ != n₂) (c₁ * c₂) (e₁ + e₂)) =
      toRat (.finite n₁ c₁ e₁) * toRat (.finite n₂ c₂ e₂) := by
  have hmag : magnitude (c₁ * c₂) (e₁ + e₂) = magnitude c₁ e₁ * magnitude c₂ e₂ := by
    unfold magnitude
    rw [zpow_add₀ (by norm_num)]
    push_cast
    ring
  cases n₁ <;> cases n₂ <;> simp [toRat, hmag]

section

variable {a b : Decimal} (ha : a.isFinite) (hb : b.isFinite)
include ha hb

theorem mul_near (hp : 0 < p.digits) (h : mul p a b = .ok d) :
    |d.toRat - a.toRat * b.toRat| ≤ p.roundoff * |a.toRat * b.toRat| + p.underflow := by
  match a, b, ha, hb with
  | .finite n₁ c₁ e₁, .finite n₂ c₂ e₂, _, _ =>
    rw [← toRat_product, abs_toRat]
    exact fit_near hp h

theorem mul_counts {u n : Int} (hu : Precision.Admits p u)
    (hvalue : a.toRat * b.toRat = n * 10 ^ u) (hn : n.natAbs < 10 ^ p.digits) :
    ∃ d, mul p a b = .ok d ∧ d.Counts u n := by
  match a, b, ha, hb with
  | .finite n₁ c₁ e₁, .finite n₂ c₂ e₂, _, _ =>
    exact fit_counts hu ⟨rfl, (toRat_product ..).trans hvalue⟩ hn

end

/-! ## Quotients -/

theorem trimZeros_spec {c places c' k : Nat} (h : trimZeros c places = (c', k)) :
    k ≤ places ∧ c' * 10 ^ (places - k) = c := by
  induction places generalizing c with
  | zero =>
    obtain ⟨rfl, rfl⟩ := Prod.mk.inj h
    simp
  | succ places ih =>
    unfold trimZeros at h
    split at h
    case isTrue hzero =>
      obtain ⟨hle, hc⟩ := ih h
      have hsub : places + 1 - k = places - k + 1 := by omega
      refine ⟨by omega, ?_⟩
      rw [hsub, pow_succ, ← mul_assoc, hc]
      omega
    case isFalse =>
      obtain ⟨rfl, rfl⟩ := Prod.mk.inj h
      simp

theorem toRat_trimZeros {c places c' k : Nat} (h : trimZeros c places = (c', k)) :
    toRat (.finite false c' (-k)) = c / 10 ^ places := by
  obtain ⟨hk, rfl⟩ := trimZeros_spec h
  have hplaces : (10 : ℚ) ^ places = 10 ^ (places - k) * 10 ^ k := by
    rw [← pow_add]
    congr 1
    omega
  simp only [toRat, magnitude, Bool.false_eq_true, if_false, zpow_neg, zpow_natCast]
  rw [hplaces]
  push_cast
  field_simp

section

variable {n m : Nat}

theorem digitCount_mono (h : n ≤ m) : digitCount n ≤ digitCount m :=
  (digitCount_le_iff (digitCount_pos m)).2 (h.trans_lt (lt_pow_digitCount m))

theorem le_quotientPlaces (digits : Nat) (h : n ≤ m) : digits - 1 ≤ quotientPlaces digits n m := by
  have := digitCount_mono h
  unfold quotientPlaces
  dsimp only
  split <;> omega

theorem pow_le_quotient {digits : Nat} (hn : n ≠ 0) (h : n ≤ m) (hd : 0 < digits) :
    10 ^ (digits - 1) * m ≤ n * 10 ^ quotientPlaces digits n m := by
  have hmono := digitCount_mono h
  have hpos := digitCount_pos n
  unfold quotientPlaces
  dsimp only
  split
  case isTrue hmore =>
    rw [Nat.pow_eq, Nat.pow_eq, Nat.le_div_iff_mul_le (by omega)] at hmore
    have hplaces : digits + digitCount m - digitCount n =
        digits + digitCount m - digitCount n - 1 + 1 := by omega
    have hdigits : 10 ^ digits * m = 10 ^ (digits - 1) * m * 10 := by
      rw [mul_right_comm, ← pow_succ]
      congr 2
      omega
    rw [hplaces, pow_succ, ← mul_assoc, hdigits] at hmore
    exact Nat.le_of_mul_le_mul_right hmore (by decide)
  case isFalse =>
    calc 10 ^ (digits - 1) * m ≤ 10 ^ (digits - 1) * 10 ^ digitCount m :=
          Nat.mul_le_mul_left _ (lt_pow_digitCount m).le
      _ = 10 ^ (digitCount n - 1) * 10 ^ (digits + digitCount m - digitCount n) := by
          rw [← pow_add, ← pow_add]
          congr 1
          omega
      _ ≤ n * 10 ^ (digits + digitCount m - digitCount n) :=
          Nat.mul_le_mul_right _ (pow_digitCount_le hn)

theorem ratio_eq (p : Precision) (n m : Nat) : ∃ c e, ratio p n m = .finite false c e := by
  unfold ratio
  split
  · exact ⟨_, _, rfl⟩
  · dsimp only
    split
    · exact ⟨_, _, rfl⟩
    · exact ⟨_, _, rfl⟩

theorem abs_roundDiv_sub (k : Nat) (hm : 0 < m) :
    |(roundDiv .halfEven false (n * 10 ^ k) m : ℚ) / 10 ^ k - n / m| ≤ 1 / 10 ^ k := by
  have hm' : (0 : ℚ) < m := by exact_mod_cast hm
  have hnear := roundDiv_near .halfEven false (n * 10 ^ k) hm
  generalize roundDiv .halfEven false (n * 10 ^ k) m = q at hnear ⊢
  have hunits : |(q : Int) * m - (n * 10 ^ k : Nat)| ≤ m := by
    rw [Int.abs_eq_natAbs]
    exact_mod_cast hnear
  have hunits : |(q : ℚ) * m - n * 10 ^ k| ≤ m := by exact_mod_cast hunits
  have hdiff : (q : ℚ) / 10 ^ k - n / m = (q * m - n * 10 ^ k) / (m * 10 ^ k) := by field_simp
  rw [hdiff, abs_div, abs_of_pos (by positivity : (0 : ℚ) < m * 10 ^ k),
    div_le_div_iff₀ (by positivity) (by positivity)]
  have := mul_le_mul_of_nonneg_right hunits (by positivity : (0 : ℚ) ≤ 10 ^ k)
  linarith

theorem roundDiv_of_eq_mul {q : Nat} (hm : 0 < m) (h : n = q * m) :
    roundDiv .halfEven false n m = q := by
  rw [roundDiv, if_pos (by rw [h, Nat.mul_mod_left]), h, Nat.mul_div_cancel q hm]

theorem toRat_ratio (p : Precision) (hm : 0 < m) : (ratio p n m).toRat =
    roundDiv .halfEven false (n * 10 ^ quotientPlaces p.digits n m) m /
      10 ^ quotientPlaces p.digits n m := by
  unfold ratio
  split
  case isTrue hdvd =>
    obtain ⟨q, rfl⟩ := Nat.dvd_of_mod_eq_zero hdvd
    generalize quotientPlaces p.digits (m * q) m = k
    have hunits : m * q * 10 ^ k = q * 10 ^ k * m := by ring
    rw [Nat.mul_div_cancel_left q hm, roundDiv_of_eq_mul hm hunits]
    simp [toRat, magnitude]
  case isFalse =>
  dsimp only
  rw [Nat.pow_eq]
  split
  case isTrue =>
    rcases htrim : trimZeros _ (quotientPlaces p.digits n m) with ⟨c, k⟩
    exact toRat_trimZeros htrim
  case isFalse =>
    simp only [toRat, magnitude, Bool.false_eq_true, if_false, zpow_neg, zpow_natCast]
    rw [← div_eq_mul_inv]

theorem ratio_cases (p : Precision) (hm : 0 < m) : (ratio p n m).toRat = n / m ∨
    ¬ m ∣ n * 10 ^ quotientPlaces p.digits n m ∧
    |(ratio p n m).toRat - n / m| ≤ 1 / 10 ^ quotientPlaces p.digits n m := by
  have hm' : (0 : ℚ) < m := by exact_mod_cast hm
  rw [toRat_ratio p hm]
  by_cases hdvd : m ∣ n * 10 ^ quotientPlaces p.digits n m
  · left
    obtain ⟨q, hq⟩ := hdvd
    rw [roundDiv_of_eq_mul hm (hq.trans (mul_comm m q)), div_eq_div_iff (by positivity) hm'.ne',
      mul_comm (q : ℚ)]
    exact_mod_cast hq.symm
  · exact .inr ⟨hdvd, abs_roundDiv_sub _ hm⟩

theorem ratio_exact (hm : 0 < m) (h : n ≤ m) {k : Nat} (hk : k < p.digits) (hdvd : m ∣ n * 10 ^ k) :
    (ratio p n m).toRat = n / m := by
  rcases ratio_cases p hm with h' | ⟨hnot, -⟩
  · exact h'
  · have hle : k ≤ quotientPlaces p.digits n m := by
      have := le_quotientPlaces p.digits h
      omega
    refine absurd ?_ hnot
    rw [← Nat.add_sub_cancel' hle, pow_add, ← mul_assoc]
    exact hdvd.mul_right _

/-- A quotient is off by its roundoff at most. -/
theorem ratio_near (hp : 0 < p.digits) (hm : 0 < m) (h : n ≤ m) :
    |(ratio p n m).toRat - n / m| ≤ p.roundoff * (n / m) := by
  have hround := p.roundoff_pos
  rcases ratio_cases p hm with h' | ⟨hnot, hnear⟩
  · rw [h', sub_self, abs_zero]
    positivity
  · have hn : n ≠ 0 := by
      rintro rfl
      exact hnot (by simp)
    refine hnear.trans ?_
    have hdigits : (10 : ℚ) ^ (p.digits - 1) * m ≤ n * 10 ^ quotientPlaces p.digits n m := by
      exact_mod_cast pow_le_quotient hn h hp
    have hm' : (0 : ℚ) < m := by exact_mod_cast hm
    rw [p.roundoff_eq hp, div_mul_div_comm, div_le_div_iff₀ (by positivity) (by positivity)]
    linarith

end

/-! ## Halves -/

theorem units_halfUp {x : ℚ} (hx : 0 ≤ x) : RoundingMode.units .halfUp x = ⌊x + 1 / 2⌋₊ := by
  have hfract := Int.floor_add_fract x
  have hceil : (⌈x⌉ : ℚ) ≤ ⌊x⌋ + 1 := by exact_mod_cast Int.ceil_le_floor_add_one x
  have hle := Int.le_ceil x
  have hnonneg := Int.fract_nonneg x
  rw [Int.natCast_floor_eq_floor (by positivity), eq_comm, Int.floor_eq_iff]
  unfold RoundingMode.units
  by_cases hhalf : 1 / 2 ≤ Int.fract x
  · have hpos : 0 < x := by
      have : (0 : ℚ) ≤ ⌊x⌋ := by exact_mod_cast Int.floor_nonneg.2 hx
      linarith
    have hup : RoundingMode.GoesUp .halfUp x := by
      simpa only [RoundingMode.GoesUp, if_pos hpos] using hhalf
    rw [if_pos hup]
    constructor <;> linarith
  · have hdown : ¬ RoundingMode.GoesUp .halfUp x := by
      simp only [RoundingMode.GoesUp]
      split
      · exact hhalf
      · exact fun h => hhalf h.le
    rw [if_neg hdown]
    constructor <;> linarith

/-- Rounding to a unit goes to the nearest number of units, a half upwards. -/
theorem quantize_halfUp {u : Int} {a : Decimal} (hf : a.isFinite) (hp : 0 < p.digits)
    (hnonneg : 0 ≤ a.toRat) (h : quantize p .halfUp u a = .ok d) :
    d.Counts u ⌊a.toRat / 10 ^ u + 1 / 2⌋₊ := by
  rw [← units_halfUp (by positivity)]
  rcases quantize_units (u := u) hp .halfUp hf with ⟨-, herror⟩ | ⟨-, s, k, hok, -, hcounts⟩
  · rw [herror] at h
    cases h
  · rw [hok] at h
    obtain rfl := Except.ok.inj h
    exact hcounts

section

variable {a b n : Nat} {w : ℚ} (hb : 0 < b)
include hb

theorem half_gap (hne : (a : ℚ) / b ≠ n + 1 / 2) : 1 / (2 * b) ≤ |(a : ℚ) / b - (n + 1 / 2)| := by
  have hb' : (0 : ℚ) < b := by exact_mod_cast hb
  have hunits : (a : ℚ) / b - (n + 1 / 2) = ((2 * a - (2 * n + 1) * b : Int) : ℚ) / (2 * b) := by
    push_cast
    field_simp
  have hsome : (2 * a - (2 * n + 1) * b : Int) ≠ 0 := by
    intro hzero
    rw [hzero, Int.cast_zero, zero_div, sub_eq_zero] at hunits
    exact hne hunits
  rw [hunits, abs_div, abs_of_pos (by positivity : (0 : ℚ) < 2 * b)]
  refine div_le_div_of_nonneg_right ?_ (by positivity)
  exact_mod_cast Int.one_le_abs hsome

theorem floor_half_of_near (hw : 0 ≤ w) (h : |w - a / b| < 1 / (2 * b)) :
    ⌊w + 1 / 2⌋₊ = ⌊(a : ℚ) / b + 1 / 2⌋₊ ∨ (a : ℚ) / b = ⌊w + 1 / 2⌋₊ + 1 / 2 := by
  by_cases hhalf : (a : ℚ) / b = ⌊w + 1 / 2⌋₊ + 1 / 2
  · exact .inr hhalf
  left
  have hfrac : (0 : ℚ) ≤ a / b := by positivity
  have hle := Nat.floor_le (show 0 ≤ w + 1 / 2 by positivity)
  have hlt := Nat.lt_floor_add_one (w + 1 / 2)
  generalize ⌊w + 1 / 2⌋₊ = n at hhalf hle hlt ⊢
  obtain ⟨hlow, hhigh⟩ := abs_lt.1 h
  symm
  rw [Nat.floor_eq_iff (by positivity)]
  constructor
  · by_contra hbelow
    cases n with
    | zero =>
      push_cast at hbelow
      linarith
    | succ n =>
      push_cast at hbelow hle
      have hgap := half_gap (a := a) (n := n) hb (by linarith)
      rw [abs_of_neg (by linarith)] at hgap
      linarith
  · by_contra habove
    have hgap := half_gap hb hhalf
    rw [abs_of_nonneg (by linarith)] at hgap
    linarith

end

end Decimal

end Invoicing
