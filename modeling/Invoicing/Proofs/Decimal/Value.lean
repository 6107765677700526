import Invoicing.Decimal.Arithmetic
import Mathlib.Algebra.Order.Field.Power
import Mathlib.Algebra.Order.Field.Rat
import Mathlib.Tactic.Linarith
import Mathlib.Tactic.NormNum
import Mathlib.Tactic.Positivity
import Mathlib.Tactic.Ring

/-!
# The value of a decimal

`Decimal.toRat` is the rational number that a finite decimal stands for. Decimals are compared by
their values (`Decimal.order?_eq`), whatever their exponents are: `Decimal.lt?`, `Decimal.le?` and
`Decimal.equal?` answer for finite decimals what the order of the rationals says.
-/

namespace Invoicing

/-! ## Digits -/

theorem digitCount_pos (n : Nat) : 0 < digitCount n := by
  unfold digitCount; split <;> omega

theorem lt_pow_digitCount (n : Nat) : n < 10 ^ digitCount n := by
  fun_induction digitCount n with
  | case1 n h => simpa using h
  | case2 n h ih => rw [pow_succ]; omega

theorem pow_digitCount_le {n : Nat} (hn : n ≠ 0) : 10 ^ (digitCount n - 1) ≤ n := by
  fun_induction digitCount n with
  | case1 n h => simp; omega
  | case2 n h ih =>
    have hpos := digitCount_pos (n / 10)
    have hpow : 10 ^ (digitCount (n / 10) + 1 - 1) = 10 ^ (digitCount (n / 10) - 1) * 10 := by
      rw [← pow_succ]; congr 1; omega
    have := ih (by omega)
    rw [hpow]; omega

theorem digitCount_le_iff {n k : Nat} (hk : 0 < k) : digitCount n ≤ k ↔ n < 10 ^ k := by
  constructor
  · intro h
    exact (lt_pow_digitCount n).trans_le (Nat.pow_le_pow_right (by decide) h)
  · intro h
    rcases eq_or_ne n 0 with rfl | hn
    · rw [digitCount, if_pos (by decide)]; exact hk
    · have := (pow_digitCount_le hn).trans_lt h
      have := (Nat.pow_lt_pow_iff_right (by decide)).1 this
      omega

theorem digitCount_mul_pow {c : Nat} (hc : c ≠ 0) (k : Nat) :
    digitCount (c * 10 ^ k) = digitCount c + k := by
  induction k with
  | zero => simp
  | succ k ih =>
    have hpos : 0 < c * 10 ^ k := Nat.mul_pos (Nat.pos_of_ne_zero hc) (by positivity)
    rw [pow_succ, ← mul_assoc, digitCount, if_neg (by omega), Nat.mul_div_cancel _ (by decide), ih]
    rfl

namespace Decimal

/-- Whether a decimal is a number and no infinity. -/
def isFinite : Decimal → Bool
  | .finite .. => true
  | _ => false

/-- The magnitude `c * 10 ^ e`. -/
def magnitude (c : Nat) (e : Int) : ℚ := c * (10 : ℚ) ^ e

/-- The number that a finite decimal stands for; others stand for nothing. -/
def toRat : Decimal → ℚ
  | .finite n c e => if n then -magnitude c e else magnitude c e
  | _ => 0

theorem magnitude_nonneg (c : Nat) (e : Int) : 0 ≤ magnitude c e := by
  unfold magnitude; positivity

theorem magnitude_pos {c : Nat} (hc : c ≠ 0) (e : Int) : 0 < magnitude c e := by
  have : 0 < c := Nat.pos_of_ne_zero hc
  unfold magnitude; positivity

@[simp] theorem magnitude_zero (e : Int) : magnitude 0 e = 0 := by simp [magnitude]

theorem magnitude_eq_zero_iff {c : Nat} {e : Int} : magnitude c e = 0 ↔ c = 0 := by
  constructor
  · intro h
    by_contra hc
    exact absurd h (magnitude_pos hc e).ne'
  · rintro rfl; simp

theorem magnitude_shift (c k : Nat) (e : Int) : magnitude (c * 10 ^ k) e = magnitude c (e + k) := by
  unfold magnitude
  rw [zpow_add₀ (by norm_num), zpow_natCast]
  push_cast; ring

theorem magnitude_lt_pow (c : Nat) (e : Int) : magnitude c e < 10 ^ (leading c e + 1) := by
  have h : (c : ℚ) < 10 ^ digitCount c := by exact_mod_cast lt_pow_digitCount c
  have hexp : leading c e + 1 = (digitCount c : Int) + e := by unfold leading; omega
  rw [hexp, zpow_add₀ (by norm_num), zpow_natCast]
  exact mul_lt_mul_of_pos_right h (by positivity)

theorem pow_le_magnitude {c : Nat} (hc : c ≠ 0) (e : Int) :
    (10 : ℚ) ^ leading c e ≤ magnitude c e := by
  have h : (10 : ℚ) ^ (digitCount c - 1) ≤ c := by exact_mod_cast pow_digitCount_le hc
  have hpos := digitCount_pos c
  have hexp : leading c e = ((digitCount c - 1 : Nat) : Int) + e := by unfold leading; omega
  rw [hexp, zpow_add₀ (by norm_num), zpow_natCast]
  exact mul_le_mul_of_nonneg_right h (by positivity)

/-! ## Comparison -/

theorem compare_congr {α β : Type*} [LinearOrder α] [LinearOrder β] {a b : α} {x y : β}
    (hlt : a < b ↔ x < y) (hgt : b < a ↔ y < x) : compare a b = compare x y := by
  rcases lt_trichotomy x y with h | h | h
  · rw [compare_lt_iff_lt.2 h, compare_lt_iff_lt.2 (hlt.2 h)]
  · have hx : ¬ x < y := by rw [h]; exact lt_irrefl _
    have hy : ¬ y < x := by rw [h]; exact lt_irrefl _
    have : a = b := le_antisymm (not_lt.1 fun h' => hy (hgt.1 h'))
      (not_lt.1 fun h' => hx (hlt.1 h'))
    rw [compare_eq_iff_eq.2 h, compare_eq_iff_eq.2 this]
  · rw [compare_gt_iff_gt.2 h, compare_gt_iff_gt.2 (hgt.2 h)]

theorem magnitude_lt_iff (c₁ : Nat) (e₁ : Int) (c₂ : Nat) (e₂ : Int) :
    magnitude c₁ e₁ < magnitude c₂ e₂ ↔
      c₁ * 10 ^ (e₁ - e₂).toNat < c₂ * 10 ^ (e₂ - e₁).toNat := by
  have h₁ : magnitude c₁ e₁ = magnitude (c₁ * 10 ^ (e₁ - e₂).toNat) (min e₁ e₂) := by
    rw [magnitude_shift]; congr 1; omega
  have h₂ : magnitude c₂ e₂ = magnitude (c₂ * 10 ^ (e₂ - e₁).toNat) (min e₁ e₂) := by
    rw [magnitude_shift]; congr 1; omega
  have hpos : (0 : ℚ) < 10 ^ min e₁ e₂ := by positivity
  rw [h₁, h₂]
  unfold magnitude
  rw [mul_lt_mul_iff_left₀ hpos, Nat.cast_lt]

theorem compareMagnitude_eq (c₁ : Nat) (e₁ : Int) (c₂ : Nat) (e₂ : Int) :
    compareMagnitude c₁ e₁ c₂ e₂ = compare (magnitude c₁ e₁) (magnitude c₂ e₂) := by
  unfold compareMagnitude
  split
  case isTrue h =>
    -- With a zero on one side only the signs of the coefficients matter.
    have hiff : ∀ {a b : Nat} {e f : Int}, (a = 0 ∨ b = 0) →
        (a < b ↔ magnitude a e < magnitude b f) := by
      intro a b e f h
      rcases eq_or_ne b 0 with rfl | hb
      · simpa using magnitude_nonneg a e
      · obtain rfl : a = 0 := h.resolve_right hb
        simpa [Nat.pos_iff_ne_zero, hb] using magnitude_pos hb f
    exact compare_congr (hiff h) (hiff h.symm)
  case isFalse h =>
    obtain ⟨h₁, h₂⟩ := not_or.1 h
    rcases lt_trichotomy (leading c₁ e₁) (leading c₂ e₂) with hl | hl | hl
    · rw [compare_lt_iff_lt.2 hl]
      refine (compare_lt_iff_lt.2 ?_).symm
      calc magnitude c₁ e₁ < 10 ^ (leading c₁ e₁ + 1) := magnitude_lt_pow c₁ e₁
        _ ≤ 10 ^ leading c₂ e₂ := zpow_le_zpow_right₀ (by norm_num) (by omega)
        _ ≤ magnitude c₂ e₂ := pow_le_magnitude h₂ e₂
    · rw [compare_eq_iff_eq.2 hl]
      exact compare_congr (magnitude_lt_iff c₁ e₁ c₂ e₂).symm (magnitude_lt_iff c₂ e₂ c₁ e₁).symm
    · rw [compare_gt_iff_gt.2 hl]
      refine (compare_gt_iff_gt.2 ?_).symm
      calc magnitude c₂ e₂ < 10 ^ (leading c₂ e₂ + 1) := magnitude_lt_pow c₂ e₂
        _ ≤ 10 ^ leading c₁ e₁ := zpow_le_zpow_right₀ (by norm_num) (by omega)
        _ ≤ magnitude c₁ e₁ := pow_le_magnitude h₁ e₁

theorem compareFinite_eq (n₁ : Bool) (c₁ : Nat) (e₁ : Int) (n₂ : Bool) (c₂ : Nat) (e₂ : Int) :
    compareFinite n₁ c₁ e₁ n₂ c₂ e₂ =
      compare (toRat (.finite n₁ c₁ e₁)) (toRat (.finite n₂ c₂ e₂)) := by
  -- A zero counts as positive, so the sign of a value is that of `n && c != 0`.
  have hsign : ∀ (n : Bool) (c : Nat) (e : Int), toRat (.finite n c e) =
      if n && c != 0 then -magnitude c e else magnitude c e := by
    intro n c e
    rcases eq_or_ne c 0 with rfl | hc
    · simp [toRat]
    · cases n <;> simp [toRat, hc]
  have hpos : ∀ (n : Bool) (c : Nat) (e : Int), (n && c != 0) = true → 0 < magnitude c e := by
    intro n c e h
    exact magnitude_pos (by simp at h; exact h.2) e
  rw [hsign, hsign]
  unfold compareFinite
  cases hs₁ : n₁ && c₁ != 0 <;> cases hs₂ : n₂ && c₂ != 0 <;> simp only [if_true, if_false,
    Bool.false_eq_true]
  · exact compareMagnitude_eq c₁ e₁ c₂ e₂
  · have := hpos n₂ c₂ e₂ hs₂
    have := magnitude_nonneg c₁ e₁
    exact (compare_gt_iff_gt.2 (show -magnitude c₂ e₂ < magnitude c₁ e₁ by linarith)).symm
  · have := hpos n₁ c₁ e₁ hs₁
    have := magnitude_nonneg c₂ e₂
    exact (compare_lt_iff_lt.2 (show -magnitude c₁ e₁ < magnitude c₂ e₂ by linarith)).symm
  · rw [compareMagnitude_eq]
    exact compare_congr neg_lt_neg_iff.symm neg_lt_neg_iff.symm

variable {a b : Decimal}

theorem order?_eq (ha : a.isFinite) (hb : b.isFinite) :
    order? a b = some (compare a.toRat b.toRat) := by
  match a, b, ha, hb with
  | .finite n₁ c₁ e₁, .finite n₂ c₂ e₂, _, _ => exact congrArg some (compareFinite_eq ..)

theorem lt?_eq (ha : a.isFinite) (hb : b.isFinite) :
    a.lt? b = .ok (decide (a.toRat < b.toRat)) := by
  rw [lt?, order?_eq ha hb]
  by_cases h : a.toRat < b.toRat
  · simp [compare_lt_iff_lt.2 h, h]
  · have : compare a.toRat b.toRat ≠ .lt := fun h' => h (compare_lt_iff_lt.1 h')
    simp [h, this]

theorem le?_eq (ha : a.isFinite) (hb : b.isFinite) :
    a.le? b = .ok (decide (a.toRat ≤ b.toRat)) := by
  rw [le?, order?_eq ha hb]
  by_cases h : b.toRat < a.toRat
  · simp [compare_gt_iff_gt.2 h, h]
  · have : compare a.toRat b.toRat ≠ .gt := fun h' => h (compare_gt_iff_gt.1 h')
    simp [this, not_lt.1 h]

theorem equal?_eq (ha : a.isFinite) (hb : b.isFinite) :
    a.equal? b = .ok (decide (a.toRat = b.toRat)) := by
  rw [equal?, order?_eq ha hb]
  by_cases h : a.toRat = b.toRat
  · simp [h]
  · have : compare a.toRat b.toRat ≠ .eq := fun h' => h (compare_eq_iff_eq.1 h')
    simp [h, this]

end Decimal

end Invoicing
