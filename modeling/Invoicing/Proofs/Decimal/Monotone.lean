import Invoicing.Proofs.Decimal.Quotient
import Invoicing.Proofs.Decimal.Remainder

/-!
# Rounded results are monotone

A number is rounded to a multiple of a unit that grows with the number. Between two numbers with
different units there is a power of ten that neither is rounded beyond (`units_scale_mono`). So a larger
number is not fitted to less (`Decimal.keptMagnitude_mono`), a larger factor does not make a product
less (`Decimal.mul_mono`), and a larger part of a whole is not a smaller share of it
(`Decimal.ratio_mono`).
-/

namespace Invoicing

/-- A larger number is not rounded to less, though its unit may be another, if there is a power of ten
between two numbers with different units. -/
theorem RoundingMode.units_scale_mono (mode : RoundingMode) {x y : ℚ} {u v : Int} (hle : x ≤ y)
    (hunits : u = v ∨ ∃ b, u ≤ b ∧ v ≤ b ∧ x ≤ 10 ^ b ∧ (10 : ℚ) ^ b ≤ y) :
    (mode.units (x / 10 ^ u) : ℚ) * 10 ^ u ≤ mode.units (y / 10 ^ v) * 10 ^ v := by
  have hpos : ∀ w : Int, (0 : ℚ) < 10 ^ w := fun w => by positivity
  rcases hunits with rfl | ⟨b, hub, hvb, hx, hy⟩
  · have hmono := mode.units_mono ((div_le_div_iff_of_pos_right (hpos u)).2 hle)
    exact mul_le_mul_of_nonneg_right (by exact_mod_cast hmono) (hpos u).le
  -- The power is a multiple of both units, and left as it is.
  have hkept : ∀ w ≤ b, (mode.units (10 ^ b / 10 ^ w) : ℚ) * 10 ^ w = 10 ^ b := by
    intro w hw
    have hwhole : (10 : ℚ) ^ b / 10 ^ w = ((10 ^ (b - w).toNat : Int) : ℚ) := by
      rw [← zpow_sub₀ (by norm_num), ← Int.toNat_of_nonneg (by omega : 0 ≤ b - w), zpow_natCast]
      push_cast
      rfl
    rw [hwhole, mode.units_intCast, ← hwhole, div_mul_cancel₀ _ (hpos w).ne']
  have hlow := mode.units_mono ((div_le_div_iff_of_pos_right (hpos u)).2 hx)
  have hhigh := mode.units_mono ((div_le_div_iff_of_pos_right (hpos v)).2 hy)
  calc (mode.units (x / 10 ^ u) : ℚ) * 10 ^ u
      ≤ mode.units (10 ^ b / 10 ^ u) * 10 ^ u :=
        mul_le_mul_of_nonneg_right (by exact_mod_cast hlow) (hpos u).le
    _ = mode.units (10 ^ b / 10 ^ v) * 10 ^ v := by rw [hkept u hub, hkept v hvb]
    _ ≤ mode.units (y / 10 ^ v) * 10 ^ v :=
        mul_le_mul_of_nonneg_right (by exact_mod_cast hhigh) (hpos v).le

namespace Decimal

variable {p : Precision}

/-! ## Fitting -/

section

variable {c c' : Nat} {e e' : Int}

/-- The place that a magnitude is rounded at, however it is written. -/
def roundingPlace (p : Precision) (c : Nat) (e : Int) : Int :=
  max p.least (leading c e + 1 - p.digits)

theorem keptMagnitude_eq_units (p : Precision) (c : Nat) (e : Int) : keptMagnitude p c e =
    RoundingMode.units .halfEven (magnitude c e / 10 ^ roundingPlace p c e) *
      10 ^ roundingPlace p c e := by
  have hlast : lastPlace p c e = max e (roundingPlace p c e) := by
    unfold lastPlace roundingPlace leading
    omega
  rcases le_total (roundingPlace p c e) e with hle | hle
  · -- Nothing is rounded away.
    have hplace : lastPlace p c e = e := by omega
    have hwhole : magnitude c e / 10 ^ roundingPlace p c e =
        ((c * 10 ^ (e - roundingPlace p c e).toNat : Nat) : Int) := by
      rw [units_of_le c hle]
      push_cast
      rfl
    rw [keptMagnitude, keptDigits_of_eq hplace, hplace, hwhole, RoundingMode.units_intCast, ← hwhole,
      div_mul_cancel₀ _ (by positivity)]
  · have hplace : lastPlace p c e = roundingPlace p c e := by omega
    have hunits := RoundingMode.units_roundDiv .halfEven false c
      (d := 10 ^ (roundingPlace p c e - e).toNat) (by positivity)
    simp only [Bool.false_eq_true, if_false] at hunits
    rw [keptMagnitude, keptDigits_eq, hplace, units_of_ge c hle, hunits]
    rfl

theorem keptMagnitude_mono (hd : 0 < p.digits) (h : magnitude c e ≤ magnitude c' e') :
    keptMagnitude p c e ≤ keptMagnitude p c' e' := by
  rcases eq_or_ne c 0 with rfl | hc
  · have hzero : keptMagnitude p 0 e = 0 :=
      (keptMagnitude_of_multiple ⟨0, by simp⟩).trans (magnitude_zero e)
    rw [hzero]
    exact magnitude_nonneg ..
  have hc' : c' ≠ 0 := by
    rintro rfl
    rw [magnitude_zero] at h
    exact absurd h (not_le.2 (magnitude_pos hc e))
  have hlead : leading c e < leading c' e' + 1 := (zpow_lt_zpow_iff_right₀ (by norm_num)).1
    (((pow_le_magnitude hc e).trans h).trans_lt (magnitude_lt_pow c' e'))
  rw [keptMagnitude_eq_units, keptMagnitude_eq_units]
  refine RoundingMode.units_scale_mono _ h ?_
  by_cases hplace : roundingPlace p c e = roundingPlace p c' e'
  · exact .inl hplace
  right
  -- The larger magnitude has more places, and its first one parts the two.
  have hplaces : roundingPlace p c e ≤ leading c' e' ∧ roundingPlace p c' e' ≤ leading c' e' ∧
      leading c e + 1 ≤ leading c' e' := by
    unfold roundingPlace at hplace ⊢
    omega
  refine ⟨leading c' e', hplaces.1, hplaces.2.1, ?_, pow_le_magnitude hc' e'⟩
  exact (magnitude_lt_pow c e).le.trans (zpow_le_zpow_right₀ (by norm_num) hplaces.2.2)

end

/-! ## Products -/

theorem toRat_mul_eq_kept (hd : 0 < p.digits) {a b d : Decimal} (ha : a.isFinite) (hb : b.isFinite)
    (h0 : 0 ≤ a.toRat) (hb0 : 0 ≤ b.toRat) (h : mul p a b = .ok d) :
    ∃ c e, magnitude c e = a.toRat * b.toRat ∧ d.toRat = keptMagnitude p c e := by
  match a, b, ha, hb with
  | .finite n₁ c₁ e₁, .finite n₂ c₂ e₂, _, _ =>
  have hvalue := toRat_product n₁ n₂ c₁ c₂ e₁ e₂
  have hnonneg : 0 ≤ toRat (.finite (n₁ != n₂) (c₁ * c₂) (e₁ + e₂)) := by
    rw [hvalue]
    exact Rat.mul_nonneg h0 hb0
  have hfit : fit p (n₁ != n₂) (c₁ * c₂) (e₁ + e₂) = .ok d := h
  refine ⟨c₁ * c₂, e₁ + e₂, ?_, ?_⟩
  · rw [← hvalue, ← abs_toRat (n₁ != n₂), abs_of_nonneg hnonneg]
  · rw [toRat_fit hd hfit]
    rcases eq_or_ne (c₁ * c₂) 0 with hzero | hne
    · rw [hzero, keptMagnitude_of_multiple ⟨0, by simp⟩]
      simp
    · rw [sign_of_nonneg hne hnonneg]
      rfl

theorem mul_mono (hd : 0 < p.digits) {a a' b d d' : Decimal} (ha : a.isFinite) (ha' : a'.isFinite)
    (hb : b.isFinite) (h0 : 0 ≤ a.toRat) (hle : a.toRat ≤ a'.toRat) (hb0 : 0 ≤ b.toRat)
    (h : mul p a b = .ok d) (h' : mul p a' b = .ok d') : d.toRat ≤ d'.toRat := by
  obtain ⟨c, e, hvalue, hkept⟩ := toRat_mul_eq_kept hd ha hb h0 hb0 h
  obtain ⟨c', e', hvalue', hkept'⟩ := toRat_mul_eq_kept hd ha' hb (h0.trans hle) hb0 h'
  rw [hkept, hkept']
  refine keptMagnitude_mono hd ?_
  rw [hvalue, hvalue']
  exact mul_le_mul_of_nonneg_right hle hb0

/-! ## Quotients -/

section

variable {n n' m : Nat}

theorem toRat_ratio_eq_units (p : Precision) (n : Nat) (hm : 0 < m) : (ratio p n m).toRat =
    RoundingMode.units .halfEven ((n : ℚ) / m / 10 ^ (-(quotientPlaces p.digits n m : Int))) *
      10 ^ (-(quotientPlaces p.digits n m : Int)) := by
  have hround := RoundingMode.units_roundDiv .halfEven false
    (n * 10 ^ quotientPlaces p.digits n m) hm
  have hshift : (n : ℚ) / m / 10 ^ (-(quotientPlaces p.digits n m : Int)) =
      (n * 10 ^ quotientPlaces p.digits n m : Nat) / m := by
    rw [zpow_neg, zpow_natCast, div_inv_eq_mul]
    push_cast
    ring
  simp only [Bool.false_eq_true, if_false] at hround
  rw [toRat_ratio p hm, hshift, hround, zpow_neg, zpow_natCast, div_eq_mul_inv]
  rfl

theorem share_bounds (hp : 0 < p.digits) (hn : 0 < n) (hle : n ≤ m) :
    (10 : ℚ) ^ (p.digits - 1 - quotientPlaces p.digits n m : Int) ≤ n / m ∧
      (n : ℚ) / m < 10 ^ (p.digits - quotientPlaces p.digits n m : Int) := by
  have hpos : (0 : ℚ) < m := by exact_mod_cast hn.trans_le hle
  have hlow := pow_le_quotient hn.ne' hle hp
  have hhigh := quotient_lt_pow hn.ne' hle hp
  have hdigits : (p.digits : Int) - 1 = (p.digits - 1 : Nat) := by omega
  constructor
  · rw [hdigits, zpow_sub₀ (by norm_num), zpow_natCast, zpow_natCast,
      div_le_div_iff₀ (by positivity) hpos]
    exact_mod_cast hlow
  · rw [zpow_sub₀ (by norm_num), zpow_natCast, zpow_natCast,
      div_lt_div_iff₀ hpos (by positivity)]
    exact_mod_cast hhigh

theorem ratio_mono (hp : 0 < p.digits) (hn : 0 < n) (hle : n ≤ n') (hm : n' ≤ m) :
    (ratio p n m).toRat ≤ (ratio p n' m).toRat := by
  have hm' : 0 < m := by omega
  have hshare : (n : ℚ) / m ≤ n' / m :=
    (div_le_div_iff_of_pos_right (by exact_mod_cast hm')).2 (by exact_mod_cast hle)
  obtain ⟨hlow, hhigh⟩ := share_bounds hp hn (hle.trans hm)
  obtain ⟨hlow', hhigh'⟩ := share_bounds hp (hn.trans_le hle) hm
  have hplaces := (zpow_lt_zpow_iff_right₀ (by norm_num)).1 ((hlow.trans hshare).trans_lt hhigh')
  rw [toRat_ratio_eq_units p n hm', toRat_ratio_eq_units p n' hm']
  refine RoundingMode.units_scale_mono _ hshare ?_
  by_cases hsame : quotientPlaces p.digits n m = quotientPlaces p.digits n' m
  · exact .inl (by rw [hsame])
  right
  -- The larger share has fewer places, and its first digit parts the two.
  refine ⟨p.digits - 1 - quotientPlaces p.digits n' m, by omega, by omega, ?_, hlow'⟩
  exact hhigh.le.trans (zpow_le_zpow_right₀ (by norm_num) (by omega))

end

end Decimal

end Invoicing
