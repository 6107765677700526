import Invoicing.Proofs.Decimal.Congruence
import Invoicing.Proofs.Decimal.Nearest

/-!
# What a difference leaves

A precision holds a value if its digits reach from the first place of the value to the last
(`Precision.Holds`). Sums it holds are not rounded (`Decimal.add_of_holds`). A difference of two
values may well be rounded, but if the smaller is taken from the larger then what the difference
leaves of the larger is held again, and is not negative (`Decimal.sub_leaves`). For either the
difference is exact, or the smaller value is so far below the larger that a digit is to spare.
-/

namespace Invoicing

/-! ## Multiples of a place -/

/-- Whether a value is a whole number of units `10 ^ unit`. -/
def IsMultiple (unit : Int) (q : ℚ) : Prop := ∃ n : Int, q = n * 10 ^ unit

namespace IsMultiple

variable {u v : Int} {x y : ℚ}

theorem of_le (h : IsMultiple u x) (hv : v ≤ u) : IsMultiple v x := by
  obtain ⟨n, rfl⟩ := h
  obtain ⟨k, rfl⟩ : ∃ k : Nat, u = v + k := ⟨(u - v).toNat, by omega⟩
  refine ⟨n * 10 ^ k, ?_⟩
  rw [zpow_add₀ (by norm_num), zpow_natCast]
  push_cast
  ring

theorem sub (hx : IsMultiple u x) (hy : IsMultiple u y) : IsMultiple u (x - y) := by
  obtain ⟨m, rfl⟩ := hx
  obtain ⟨n, rfl⟩ := hy
  exact ⟨m - n, by push_cast; ring⟩

theorem magnitude (c : Nat) (e : Int) : IsMultiple e (Decimal.magnitude c e) := ⟨c, rfl⟩

theorem exists_magnitude (h : IsMultiple u x) (h0 : 0 ≤ x) :
    ∃ n : Nat, x = Decimal.magnitude n u := by
  obtain ⟨n, rfl⟩ := h
  have hpos : (0 : ℚ) < 10 ^ u := by positivity
  have hn : 0 ≤ n := by exact_mod_cast nonneg_of_mul_nonneg_left h0 hpos
  obtain ⟨k, rfl⟩ := Int.eq_ofNat_of_zero_le hn
  exact ⟨k, by simp [Decimal.magnitude]⟩

end IsMultiple

/-! ## Values that a precision holds -/

namespace Precision

variable {p : Precision} {q : ℚ}

/-- Whether a value is a number of units within the digits, and the unit not below the least
exponent. How large the value is does not count. -/
def Holds (p : Precision) (q : ℚ) : Prop :=
  ∃ u n : Int, p.least ≤ u ∧ n.natAbs < 10 ^ p.digits ∧ q = n * 10 ^ u

theorem holds_iff :
    p.Holds q ↔ ∃ u, p.least ≤ u ∧ IsMultiple u q ∧ |q| < 10 ^ (u + p.digits) := by
  have hbound : ∀ u n : Int,
      |n * (10 : ℚ) ^ u| < 10 ^ (u + p.digits) ↔ n.natAbs < 10 ^ p.digits := by
    intro u n
    have hpos : (0 : ℚ) < 10 ^ u := by positivity
    rw [abs_mul, abs_of_pos hpos, add_comm u, zpow_add₀ (by norm_num), zpow_natCast,
      mul_lt_mul_iff_left₀ hpos, ← Int.cast_abs, Int.abs_eq_natAbs]
    exact_mod_cast Iff.rfl
  constructor
  · rintro ⟨u, n, hu, hn, rfl⟩
    exact ⟨u, hu, ⟨n, rfl⟩, (hbound u n).2 hn⟩
  · rintro ⟨u, hu, ⟨n, rfl⟩, hlt⟩
    exact ⟨u, n, hu, (hbound u n).1 hlt, rfl⟩

theorem Holds.neg (h : p.Holds q) : p.Holds (-q) := by
  obtain ⟨u, n, hu, hn, rfl⟩ := h
  exact ⟨u, -n, hu, by rwa [Int.natAbs_neg], by push_cast; ring⟩

theorem holds_zero (p : Precision) : p.Holds 0 :=
  ⟨p.least, 0, le_rfl, Nat.pow_pos (by decide), by simp⟩

theorem holds_of_digits {s : Bool} {c : Nat} {e v : Int} (hc : digitCount c ≤ p.digits)
    (hv : p.least ≤ v) (hm : IsMultiple v (Decimal.magnitude c e)) :
    p.Holds (Decimal.toRat (.finite s c e)) := by
  have hlt : Decimal.magnitude c e < 10 ^ (max e v + p.digits) :=
    (Decimal.magnitude_lt_pow c e).trans_le
      (zpow_le_zpow_right₀ (by norm_num) (by unfold Decimal.leading; omega))
  have hunit : IsMultiple (max e v) (Decimal.magnitude c e) := by
    rcases max_choice e v with h | h <;> rw [h]
    · exact .magnitude c e
    · exact hm
  have hheld : p.Holds (Decimal.magnitude c e) :=
    holds_iff.2 ⟨_, hv.trans (le_max_right ..), hunit,
      by rwa [abs_of_nonneg (Decimal.magnitude_nonneg c e)]⟩
  cases s
  · exact hheld
  · exact hheld.neg

end Precision

namespace Decimal

variable {p : Precision} {a b d : Decimal}

/-! ## What is kept of a magnitude -/

section

variable {c : Nat} {e : Int}

/-- A magnitude less the digits rounded away. -/
def keptMagnitude (p : Precision) (c : Nat) (e : Int) : ℚ :=
  magnitude (keptDigits p c e) (lastPlace p c e)

theorem keptMagnitude_of_multiple (h : IsMultiple (lastPlace p c e) (magnitude c e)) :
    keptMagnitude p c e = magnitude c e := by
  rcases eq_or_ne c 0 with rfl | hc
  · simp [keptMagnitude, keptDigits, dropDigits_eq, roundDiv]
  obtain ⟨n, hn⟩ := h.exists_magnitude (magnitude_nonneg c e)
  have hle : e ≤ lastPlace p c e := by unfold lastPlace; omega
  have hcn := (coefficient_of_magnitude_eq hn).1 hle
  have hn0 : n ≠ 0 := by rintro rfl; exact hc (by simpa using hcn)
  have hkept : keptDigits p c e = n := by
    rw [keptDigits]
    generalize (lastPlace p c e - e).toNat = drop at hcn ⊢
    rw [hcn]
    exact dropDigits_mul_pow _ _ hn0 _
  rw [keptMagnitude, hkept, hn]

theorem roundDiv_le (negative : Bool) {n m q : Nat} (h : n ≤ q * m) :
    roundDiv .halfEven negative n m ≤ q := by
  have hdiv : n / m ≤ q := Nat.div_le_of_le_mul (by rwa [mul_comm])
  have hsplit := Nat.div_add_mod n m
  rw [roundDiv]
  split
  case isTrue => exact hdiv
  case isFalse hmod =>
  -- What is not a multiple is below the bound, which is one.
  have hlt : n / m < q := by
    refine lt_of_le_of_ne hdiv fun heq => ?_
    rw [heq, mul_comm] at hsplit
    omega
  split
  · exact hlt
  · exact hlt.le

theorem keptMagnitude_le {y : ℚ} (hy : IsMultiple (lastPlace p c e) y) (h : magnitude c e ≤ y) :
    keptMagnitude p c e ≤ y := by
  obtain ⟨n, rfl⟩ := hy.exists_magnitude ((magnitude_nonneg c e).trans h)
  have hle : e ≤ lastPlace p c e := by unfold lastPlace; omega
  obtain ⟨k, hk⟩ : ∃ k : Nat, lastPlace p c e = e + k := ⟨(lastPlace p c e - e).toNat, by omega⟩
  have hdrop : (lastPlace p c e - e).toNat = k := by omega
  have hpos : ∀ u : Int, (0 : ℚ) < 10 ^ u := fun u => by positivity
  have hunits : c ≤ n * 10 ^ k := by
    rw [hk, ← magnitude_shift] at h
    exact_mod_cast le_of_mul_le_mul_right h (hpos e)
  have hkept : keptDigits p c e ≤ n := by
    rw [keptDigits, hdrop, dropDigits_eq_roundDiv]
    exact roundDiv_le _ hunits
  exact mul_le_mul_of_nonneg_right (by exact_mod_cast hkept) (hpos _).le

theorem lastPlace_cases (p : Precision) {c : Nat} (hc : c ≠ 0) (e : Int) :
    lastPlace p c e = e ∨ lastPlace p c e = p.least ∨
      (10 : ℚ) ^ (lastPlace p c e + p.digits - 1) ≤ magnitude c e := by
  have hcases : lastPlace p c e = e ∨ lastPlace p c e = p.least ∨
      lastPlace p c e = e + digitCount c - p.digits := by unfold lastPlace; omega
  refine hcases.imp_right fun h => h.imp_right fun h => ?_
  refine (zpow_le_zpow_right₀ (by norm_num) ?_).trans (pow_le_magnitude hc e)
  unfold leading
  omega

theorem keptMagnitude_of_holds (h : p.Holds (magnitude c e)) :
    keptMagnitude p c e = magnitude c e := by
  rcases eq_or_ne c 0 with rfl | hc
  · exact keptMagnitude_of_multiple ⟨0, by simp⟩
  obtain ⟨u, hu, hmultiple, hlt⟩ := Precision.holds_iff.1 h
  rw [abs_of_nonneg (magnitude_nonneg c e)] at hlt
  refine keptMagnitude_of_multiple ?_
  rcases lastPlace_cases p hc e with hplace | hplace | hplace
  · rw [hplace]
    exact .magnitude c e
  · exact hmultiple.of_le (hplace.trans_le hu)
  · have := (zpow_lt_zpow_iff_right₀ (by norm_num : (1 : ℚ) < 10)).1 (hplace.trans_lt hlt)
    exact hmultiple.of_le (by omega)

theorem keptMagnitude_leaves {x y : ℚ} (hd : 0 < p.digits) (hx : p.Holds x) (hy : p.Holds y)
    (h0 : 0 ≤ x) (hdiff : magnitude c e = y - x) :
    p.Holds (y - keptMagnitude p c e) ∧ 0 ≤ y - keptMagnitude p c e := by
  by_cases hexact : IsMultiple (lastPlace p c e) (magnitude c e)
  · have hleft : y - keptMagnitude p c e = x := by
      rw [keptMagnitude_of_multiple hexact, hdiff]
      ring
    rw [hleft]
    exact ⟨hx, h0⟩
  -- Digits are lost. Then the larger value has none that low, but the smaller one has.
  have hc : c ≠ 0 := by
    rintro rfl
    exact hexact ⟨0, by simp⟩
  obtain ⟨u, hu, hxu, hxlt⟩ := Precision.holds_iff.1 hx
  obtain ⟨v, hv, hyv, hylt⟩ := Precision.holds_iff.1 hy
  have hle : magnitude c e ≤ y := by linarith
  have hy0 : 0 ≤ y := (magnitude_nonneg c e).trans hle
  rw [abs_of_nonneg h0] at hxlt
  rw [abs_of_nonneg hy0] at hylt
  obtain ⟨l, hl⟩ : ∃ l, l = lastPlace p c e := ⟨_, rfl⟩
  have hleast : p.least ≤ l := by rw [hl]; unfold lastPlace; omega
  have hkept : -10 ^ l ≤ keptMagnitude p c e - magnitude c e := by
    rw [hl]
    exact (abs_le.1 (abs_keptDigits_sub (p := p) c e)).1
  have hlv : l ≤ v := by
    rcases lastPlace_cases p hc e with hplace | hplace | hplace
    · rw [hplace] at hexact
      exact absurd (.magnitude c e) hexact
    · rw [hl, hplace]
      exact hv
    · have := (zpow_lt_zpow_iff_right₀ (by norm_num : (1 : ℚ) < 10)).1
        ((hplace.trans hle).trans_lt hylt)
      omega
  have hyl : IsMultiple (lastPlace p c e) y := hl ▸ hyv.of_le hlv
  have hul : u < l := by
    by_contra hlu
    refine hexact ?_
    rw [hdiff]
    exact hyl.sub (hxu.of_le (by omega))
  have hleft : 0 ≤ y - keptMagnitude p c e := sub_nonneg.2 (keptMagnitude_le hyl hle)
  refine ⟨Precision.holds_iff.2 ⟨l, hleast, ?_, ?_⟩, hleft⟩
  · rw [hl]
    exact hyl.sub (.magnitude _ _)
  · -- What is left is the smaller value and a unit at most, both without the first place.
    obtain ⟨k, hk⟩ : ∃ k : Int, k = l + p.digits - 1 := ⟨_, rfl⟩
    have hmono : ∀ {i : Int}, i ≤ k → (10 : ℚ) ^ i ≤ 10 ^ k := fun h =>
      zpow_le_zpow_right₀ (by norm_num) h
    have hlow := hmono (i := u + p.digits) (by omega)
    have hunit := hmono (i := l) (by omega)
    have hten : (10 : ℚ) ^ (l + p.digits) = 10 ^ k * 10 := by
      rw [← zpow_add_one₀ (by norm_num), hk]
      congr 1
      omega
    have hpos : (0 : ℚ) < 10 ^ k := by positivity
    rw [abs_of_nonneg hleft, hten]
    linarith

end

/-! ## Results -/

theorem toRat_fit {negative : Bool} {c : Nat} {e : Int} (hd : 0 < p.digits)
    (h : fit p negative c e = .ok d) :
    d.toRat = if negative then -keptMagnitude p c e else keptMagnitude p c e := by
  rcases eq_or_ne c 0 with rfl | hc
  · obtain rfl := Except.ok.inj h
    have hzero : keptMagnitude p 0 e = 0 :=
      (keptMagnitude_of_multiple ⟨0, by simp⟩).trans (magnitude_zero e)
    cases negative <;> simp [toRat, hzero]
  · rw [fit_eq _ hc] at h
    split at h
    · cases h
    · obtain rfl := Except.ok.inj h
      rw [toRat, magnitude_fitted hd]
      rfl

theorem add_eq_units (hd : 0 < p.digits) (ha : a.isFinite) (hb : b.isFinite)
    (h : add p a b = .ok d) : ∃ s u : Int, a.toRat + b.toRat = s * 10 ^ u ∧
      d.toRat = if s < 0 then -keptMagnitude p s.natAbs u else keptMagnitude p s.natAbs u := by
  obtain ⟨n₁, c₁, e₁, rfl⟩ := exists_finite ha
  obtain ⟨n₂, c₂, e₂, rfl⟩ := exists_finite hb
  obtain ⟨u, hu⟩ : ∃ u, u = min e₁ e₂ := ⟨_, rfl⟩
  have hu₁ : u ≤ e₁ := by omega
  have hu₂ : u ≤ e₂ := by omega
  have hunits : outcome (add p (.finite n₁ c₁ e₁) (.finite n₂ c₂ e₂)) = _ := add_units hd hu₁ hu₂
  refine ⟨scaled n₁ c₁ e₁ u + scaled n₂ c₂ e₂ u, u, ?_, ?_⟩
  · push_cast
    rw [add_mul, scaled_mul_pow _ _ hu₁, scaled_mul_pow _ _ hu₂]
  generalize scaled n₁ c₁ e₁ u + scaled n₂ c₂ e₂ u = s at hunits
  rw [h] at hunits
  obtain ⟨d', hd', hworth⟩ := map_eq_ok_iff.1 hunits.symm
  have hvalue : d.toRat = d'.toRat := by
    have hfinite := add_isFinite ha hb h
    rw [worth_eq_inl (fit_isFinite hd'), worth_eq_inl hfinite] at hworth
    exact (Sum.inl.inj hworth).symm
  rw [hvalue, toRat_fit hd hd']
  simp

theorem add_of_holds (hd : 0 < p.digits) (ha : a.isFinite) (hb : b.isFinite)
    (hsum : p.Holds (a.toRat + b.toRat)) (h : add p a b = .ok d) : d.toRat = a.toRat + b.toRat := by
  obtain ⟨s, u, hs, hval⟩ := add_eq_units hd ha hb h
  have hsigned := toRat_signed s (decide (s < 0)) u
  simp only [ite_self, toRat, decide_eq_true_eq] at hsigned
  rw [hs, ← hsigned] at hsum ⊢
  rw [hval]
  split at hsum
  case isTrue hneg =>
    rw [if_pos hneg, if_pos hneg, keptMagnitude_of_holds (by simpa using hsum.neg)]
  case isFalse hneg => rw [if_neg hneg, if_neg hneg, keptMagnitude_of_holds hsum]

theorem neg_of_holds (hd : 0 < p.digits) (ha : a.isFinite) (hheld : p.Holds a.toRat)
    (h : neg p a = .ok d) : d.toRat = -a.toRat := by
  obtain ⟨n, c, e, rfl⟩ := exists_finite ha
  have hmag : p.Holds (magnitude c e) := by
    cases n
    · exact hheld
    · simpa [toRat] using hheld.neg
  rw [toRat_fit hd h, keptMagnitude_of_holds hmag]
  rcases eq_or_ne c 0 with rfl | hc
  · simp [toRat]
  · cases n <;> simp [toRat, hc]

/-- What is taken from a larger value leaves a value that the precision holds, and nothing negative,
though the difference may be rounded. -/
theorem sub_leaves (hd : 0 < p.digits) (ha : a.isFinite) (hb : b.isFinite) (hheld : p.Holds a.toRat)
    (hheld' : p.Holds b.toRat) (h0 : 0 ≤ a.toRat) (hle : a.toRat ≤ b.toRat)
    (h : sub p a b = .ok d) : p.Holds (b.toRat + d.toRat) ∧ 0 ≤ b.toRat + d.toRat := by
  obtain ⟨hfin, hopposite⟩ := toRat_opposite hb
  obtain ⟨s, u, hs, hval⟩ := add_eq_units hd ha hfin h
  rw [hopposite] at hs
  have hpos : (0 : ℚ) < 10 ^ u := by positivity
  have hs0 : s ≤ 0 := by
    by_contra hlt
    have : (0 : ℚ) < s * 10 ^ u := mul_pos (by exact_mod_cast not_le.1 hlt) hpos
    linarith
  have hdiff : magnitude s.natAbs u = b.toRat - a.toRat := by
    have habs : (s.natAbs : ℚ) = -s := by
      rw [Nat.cast_natAbs, Int.cast_abs, abs_of_nonpos (by exact_mod_cast hs0)]
    rw [magnitude, habs]
    linarith
  have hleaves := keptMagnitude_leaves hd hheld hheld' h0 hdiff
  have hd' : d.toRat = -keptMagnitude p s.natAbs u := by
    rw [hval]
    split
    · rfl
    · obtain rfl : s = 0 := by omega
      rw [keptMagnitude_of_multiple ⟨0, by simp⟩]
      simp
  rwa [hd', ← sub_eq_add_neg]

end Decimal

end Invoicing
