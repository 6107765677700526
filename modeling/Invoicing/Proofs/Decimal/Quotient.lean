import Invoicing.Proofs.Decimal.Nearest
import Mathlib.Algebra.Group.Nat.Even

/-!
# Quotients are correctly rounded

`Decimal.Rounds` says that a decimal is a positive number rounded to so many digits, a half going to
the even neighbour. The quotient of two whole numbers, of which the second is not the smaller one, is
their exact quotient rounded to the digits of the precision (`Decimal.ratio_rounds`). It is positive,
and below one unless the numbers are the same, as long as there are digits enough to tell it from one
(`Decimal.Rounds.pos`, `Decimal.ratio_eq_one_iff`).
-/

namespace Invoicing

theorem roundDiv_halfEven (negative : Bool) (n : Nat) {m : Nat} (hm : 0 < m) :
    2 * ((roundDiv .halfEven negative n m * m : Nat) - n : Int).natAbs ≤ m ∧
    (2 * ((roundDiv .halfEven negative n m * m : Nat) - n : Int).natAbs = m →
      Even (roundDiv .halfEven negative n m)) := by
  have hmod := Nat.mod_lt n hm
  have hsplit := Nat.div_add_mod' n m
  have hsucc : (n / m + 1) * m = n / m * m + m := Nat.succ_mul (n / m) m
  unfold roundDiv
  split
  case isTrue hzero => constructor <;> omega
  case isFalse hrest =>
  simp only [RoundingMode.roundsUp, Bool.or_eq_true, decide_eq_true_eq, Bool.and_eq_true, beq_iff_eq]
  split
  case isTrue hup =>
    refine ⟨by omega, fun heq => ?_⟩
    rw [Nat.even_iff]
    omega
  case isFalse hdown =>
    refine ⟨by omega, fun heq => ?_⟩
    rw [Nat.even_iff]
    omega

namespace Decimal

/-- Whether a decimal is a positive number rounded to so many digits: a whole number of units of the
last digit, as near as there is one, and an even number of them if another is as near. -/
def Rounds (d : Decimal) (digits : Nat) (x : ℚ) : Prop :=
  ∃ (c : Nat) (u : Int), d.toRat = c * 10 ^ u ∧
    10 ^ (digits - 1) ≤ x / 10 ^ u ∧ x / 10 ^ u < 10 ^ digits ∧
    |c - x / 10 ^ u| ≤ 1 / 2 ∧ (|c - x / 10 ^ u| = 1 / 2 → Even c)

variable {p : Precision} {n m : Nat}

theorem quotient_lt_pow {digits : Nat} (hn : n ≠ 0) (h : n ≤ m) (hd : 0 < digits) :
    n * 10 ^ quotientPlaces digits n m < 10 ^ digits * m := by
  have hmono := digitCount_mono h
  unfold quotientPlaces
  dsimp only
  rw [Nat.pow_eq, Nat.pow_eq]
  split
  case isTrue =>
    calc n * 10 ^ (digits + digitCount m - digitCount n - 1)
        < 10 ^ digitCount n * 10 ^ (digits + digitCount m - digitCount n - 1) :=
          Nat.mul_lt_mul_of_pos_right (lt_pow_digitCount n) (by positivity)
      _ = 10 ^ digits * 10 ^ (digitCount m - 1) := by
          have := digitCount_pos m
          rw [← pow_add, ← pow_add]
          congr 1
          omega
      _ ≤ 10 ^ digits * m := Nat.mul_le_mul_left _ (pow_digitCount_le (by omega))
  case isFalse hfew =>
    rw [not_le, Nat.div_lt_iff_lt_mul (by omega)] at hfew
    exact hfew

/-- The quotient of two whole numbers is correctly rounded. -/
theorem ratio_rounds (hp : 0 < p.digits) (hn : 0 < n) (h : n ≤ m) :
    (ratio p n m).Rounds p.digits (n / m) := by
  have hm : 0 < m := hn.trans_le h
  have hm' : (0 : ℚ) < m := by exact_mod_cast hm
  have hlow := pow_le_quotient hn.ne' h hp
  have hhigh := quotient_lt_pow hn.ne' h hp
  have hvalue := toRat_ratio (n := n) p hm
  generalize quotientPlaces p.digits n m = k at hlow hhigh hvalue
  obtain ⟨hnear, htie⟩ := roundDiv_halfEven false (n * 10 ^ k) hm
  generalize roundDiv .halfEven false (n * 10 ^ k) m = c at hnear htie hvalue
  have hunits : (n / m : ℚ) / 10 ^ (-k : Int) = (n * 10 ^ k : Nat) / m := by
    rw [zpow_neg, zpow_natCast, div_inv_eq_mul]
    push_cast
    ring
  have hdist : |c - (n / m : ℚ) / 10 ^ (-k : Int)| =
      (((c * m : Nat) - (n * 10 ^ k : Nat) : Int).natAbs : ℚ) / m := by
    have hdiff : c - (n / m : ℚ) / 10 ^ (-k : Int) =
        (((c * m : Nat) - (n * 10 ^ k : Nat) : Int) : ℚ) / m := by
      rw [hunits]
      push_cast
      field_simp
    rw [hdiff, abs_div, abs_of_pos hm', Nat.cast_natAbs, Int.cast_abs]
  generalize ((c * m : Nat) - (n * 10 ^ k : Nat) : Int).natAbs = r at hnear htie hdist
  refine ⟨c, -k, ?_, ?_, ?_, ?_, ?_⟩
  · rw [hvalue, zpow_neg, zpow_natCast, div_eq_mul_inv]
  · rw [hunits, le_div_iff₀ hm']
    exact_mod_cast hlow
  · rw [hunits, div_lt_iff₀ hm']
    exact_mod_cast hhigh
  · rw [hdist, div_le_div_iff₀ hm' (by norm_num), mul_comm, one_mul]
    exact_mod_cast hnear
  · rw [hdist, div_eq_div_iff hm'.ne' (by norm_num), mul_comm, one_mul]
    exact fun heq => htie (by exact_mod_cast heq)

/-! ## Shares of a whole -/

theorem Rounds.pos {d : Decimal} {digits : Nat} {x : ℚ} (h : d.Rounds digits x) : 0 < d.toRat := by
  obtain ⟨c, u, hvalue, hlow, -, hnear, -⟩ := h
  have hone : (1 : ℚ) ≤ 10 ^ (digits - 1) := one_le_pow₀ (by norm_num)
  have hc : (0 : ℚ) < c := by
    have := (abs_le.1 hnear).1
    linarith
  rw [hvalue]
  positivity

theorem ratio_self (p : Precision) (hm : 0 < m) : (ratio p m m).toRat = 1 := by
  rw [ratio, if_pos (Nat.mod_self m), Nat.div_self hm]
  simp [toRat, magnitude]

theorem ratio_lt_one (hp : 0 < p.digits) (h : n < m) (hm : m ≤ 10 ^ (p.digits - 1)) :
    (ratio p n m).toRat < 1 := by
  have hpos : (0 : ℚ) < m := by exact_mod_cast Nat.zero_lt_of_lt h
  have hround : p.roundoff ≤ 1 / m := by
    rw [p.roundoff_eq hp]
    exact one_div_le_one_div_of_le hpos (by exact_mod_cast hm)
  have hshare : (n : ℚ) / m ≤ 1 - 1 / m := by
    have hle : (n : ℚ) + 1 ≤ m := by exact_mod_cast h
    rw [← sub_nonneg]
    have : 1 - 1 / (m : ℚ) - n / m = (m - (n + 1)) / m := by
      field_simp
      ring
    rw [this]
    exact div_nonneg (by linarith) hpos.le
  have hnear := (abs_le.1 (ratio_near hp (Nat.zero_lt_of_lt h) h.le)).2
  have hinv : (0 : ℚ) < 1 / m := by positivity
  have hgain : p.roundoff * ((n : ℚ) / m) ≤ 1 / m * (1 - 1 / m) :=
    mul_le_mul hround hshare (by positivity) hinv.le
  have hsquare : (0 : ℚ) < 1 / m * (1 / m) := mul_pos hinv hinv
  linarith

theorem ratio_eq_one_iff (hp : 0 < p.digits) (hpos : 0 < m) (h : n ≤ m)
    (hm : m ≤ 10 ^ (p.digits - 1)) : (ratio p n m).toRat = 1 ↔ n = m := by
  constructor
  · intro hone
    by_contra hne
    exact (ratio_lt_one hp (lt_of_le_of_ne h hne) hm).ne hone
  · rintro rfl
    exact ratio_self p hpos

end Decimal

end Invoicing
