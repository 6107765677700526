import Invoicing.Proofs.Decimal.Exact

/-!
# Signs

Rounding keeps signs: a sum that is not positive is not positive after it has been rounded either, even
if one summand was so far below the other that it only counted as being there (`Decimal.add_nonpos`).
So what is taken from a number that is at least as large leaves nothing positive
(`Decimal.lt?_zero_sub`).
-/

namespace Invoicing.Decimal

variable {p : Precision} {a b d : Decimal}

theorem toRat_zero : toRat zero = 0 := by simp [toRat, zero, ofInt]

theorem toRat_opposite (hb : b.isFinite) : b.opposite.isFinite ∧ b.opposite.toRat = -b.toRat := by
  match b, hb with
  | .finite s c e, _ => exact ⟨rfl, by cases s <;> simp [opposite, toRat]⟩

theorem nonpos_of_neg (c : Nat) (e : Int) : toRat (.finite true c e) ≤ 0 := by
  have := magnitude_nonneg c e
  simp only [toRat, if_true]
  linarith

theorem fit_isFinite {negative : Bool} {c : Nat} {e : Int} (h : fit p negative c e = .ok d) :
    d.isFinite := by
  obtain ⟨k, f, rfl, -⟩ := fit_sign h
  rfl

theorem fit_nonpos {s : Int} {zeroSign : Bool} {e : Int}
    (h : fit p (if s = 0 then zeroSign else decide (s < 0)) s.natAbs e = .ok d) (hs : s ≤ 0) :
    d.toRat ≤ 0 := by
  obtain ⟨k, f, rfl, hzero⟩ := fit_sign h
  by_cases hs0 : s = 0
  · have hk : k = 0 := hzero (by omega)
    simp [toRat, hk]
  · have hneg : s < 0 := by omega
    rw [if_neg hs0, decide_eq_true hneg]
    exact nonpos_of_neg k f

/-! ## Sums -/

section

variable {n₁ n₂ : Bool} {c₁ c₂ : Nat} {e₁ e₂ : Int}

theorem sumAligned_isFinite (h : sumAligned p n₁ c₁ e₁ n₂ c₂ e₂ = .ok d) : d.isFinite := by
  unfold sumAligned at h
  split at h
  · exact fit_isFinite h
  · exact fit_isFinite h

theorem abs_lt_pow (n : Bool) {c : Nat} {e u : Int} (h : e + digitCount c ≤ u) :
    |toRat (.finite n c e)| < 10 ^ u := by
  rw [abs_toRat]
  calc magnitude c e < 10 ^ (leading c e + 1) := magnitude_lt_pow c e
    _ ≤ 10 ^ u := zpow_le_zpow_right₀ (by norm_num) (by unfold leading; omega)

theorem sign_of_outweighs {u : Int} (hc : c₁ ≠ 0) (h : e₂ + digitCount c₂ ≤ u) (hu : u ≤ e₁)
    (hle : toRat (.finite n₁ c₁ e₁) + toRat (.finite n₂ c₂ e₂) ≤ 0) : n₁ = true := by
  have hfirst : (10 : ℚ) ^ e₁ ≤ magnitude c₁ e₁ := by
    unfold magnitude
    exact le_mul_of_one_le_left (by positivity) (by exact_mod_cast Nat.pos_of_ne_zero hc)
  have hsecond := abs_lt_pow n₂ h
  have hpow : (10 : ℚ) ^ u ≤ 10 ^ e₁ := zpow_le_zpow_right₀ (by norm_num) hu
  cases n₁
  · have := neg_abs_le (toRat (.finite n₂ c₂ e₂))
    simp only [toRat, Bool.false_eq_true, if_false] at hle this hsecond
    linarith
  · rfl

theorem sumAligned_nonpos (he : e₂ ≤ e₁) (h : sumAligned p n₁ c₁ e₁ n₂ c₂ e₂ = .ok d)
    (hle : toRat (.finite n₁ c₁ e₁) + toRat (.finite n₂ c₂ e₂) ≤ 0) : d.toRat ≤ 0 := by
  unfold sumAligned at h
  by_cases hc₁ : c₁ = 0
  · rw [if_pos hc₁] at h
    obtain ⟨k, f, rfl, hzero⟩ := fit_sign h
    rcases eq_or_ne c₂ 0 with rfl | hc₂
    · simp [toRat, hzero rfl]
    · have hpos := magnitude_pos hc₂ e₂
      cases n₂
      · simp only [hc₁, toRat, magnitude_zero] at hle
        simp at hle
        linarith
      · rw [if_neg hc₂]
        exact nonpos_of_neg k f
  rw [if_neg hc₁] at h
  refine fit_nonpos h ?_
  split
  case isTrue hfar =>
    have hneg : n₁ = true := sign_of_outweighs hc₁ hfar (by omega) hle
    have hunits : (1 : Int) ≤ c₁ * 10 ^ (e₁ - (e₁ - (p.digits + 3))).toNat := by
      exact_mod_cast Nat.mul_pos (Nat.pos_of_ne_zero hc₁) (by positivity)
    have hmin : ((min c₂ 1 : Nat) : Int) ≤ 1 := by omega
    have hsigned : scaled n₂ (min c₂ 1) (e₁ - (p.digits + 3)) (e₁ - (p.digits + 3)) ≤ 1 := by
      unfold scaled
      cases n₂ <;> simp
      omega
    rw [hneg]
    simp only [scaled, if_true, Nat.pow_eq] at hsigned ⊢
    push_cast at hunits hsigned ⊢
    linarith
  case isFalse =>
    have hsum : ((scaled n₁ c₁ e₁ e₂ + scaled n₂ c₂ e₂ e₂ : Int) : ℚ) * 10 ^ e₂ ≤ 0 := by
      push_cast
      rw [add_mul, scaled_mul_pow _ _ he, scaled_mul_pow _ _ le_rfl]
      exact hle
    have hpos : (0 : ℚ) < 10 ^ e₂ := by positivity
    by_contra hlt
    have hlt : (0 : ℚ) < (scaled n₁ c₁ e₁ e₂ + scaled n₂ c₂ e₂ e₂ : Int) := by
      exact_mod_cast not_le.1 hlt
    exact absurd hsum (not_le.2 (mul_pos hlt hpos))

end

theorem add_isFinite (ha : a.isFinite) (hb : b.isFinite) (h : add p a b = .ok d) : d.isFinite := by
  match a, b, ha, hb with
  | .finite n₁ c₁ e₁, .finite n₂ c₂ e₂, _, _ =>
    have hmark : markOf? p (.finite n₁ c₁ e₁) (.finite n₂ c₂ e₂) = none := rfl
    simp only [add, hmark] at h
    split at h
    · exact sumAligned_isFinite h
    · exact sumAligned_isFinite h

theorem add_nonpos (ha : a.isFinite) (hb : b.isFinite) (h : add p a b = .ok d)
    (hle : a.toRat + b.toRat ≤ 0) : d.toRat ≤ 0 := by
  match a, b, ha, hb with
  | .finite n₁ c₁ e₁, .finite n₂ c₂ e₂, _, _ =>
    have hmark : markOf? p (.finite n₁ c₁ e₁) (.finite n₂ c₂ e₂) = none := rfl
    simp only [add, hmark] at h
    split at h
    case isTrue he => exact sumAligned_nonpos he h hle
    case isFalse he => exact sumAligned_nonpos (by omega) h (by rwa [add_comm])

theorem sub_isFinite (ha : a.isFinite) (hb : b.isFinite) (h : sub p a b = .ok d) : d.isFinite :=
  add_isFinite ha (toRat_opposite hb).1 h

theorem neg_isFinite (ha : a.isFinite) (h : neg p a = .ok d) : d.isFinite := by
  match a, ha with
  | .finite .., _ => exact fit_isFinite h

theorem neg_nonpos (ha : a.isFinite) (hnonneg : 0 ≤ a.toRat) (h : neg p a = .ok d) :
    d.toRat ≤ 0 := by
  match a, ha with
  | .finite s c e, _ =>
    obtain ⟨k, f, rfl, hzero⟩ := fit_sign h
    rcases eq_or_ne c 0 with rfl | hc
    · simp [toRat, hzero rfl]
    · have hsign : (c != 0 && !s) = true := by simp [hc, sign_of_nonneg hc hnonneg]
      rw [hsign]
      exact nonpos_of_neg k f

/-! ## Nothing positive -/

theorem lt?_zero_of_nonpos (hd : d.isFinite) (h : d.toRat ≤ 0) : lt? .zero d = .ok false := by
  rw [lt?_eq rfl hd, toRat_zero]
  simpa using h

theorem lt?_zero_sub (ha : a.isFinite) (hb : b.isFinite) (hle : a.toRat ≤ b.toRat)
    (h : sub p a b = .ok d) : lt? .zero d = .ok false := by
  obtain ⟨hfin, hval⟩ := toRat_opposite hb
  have hnonpos : d.toRat ≤ 0 := add_nonpos ha hfin h (by rw [hval]; linarith)
  exact lt?_zero_of_nonpos (sub_isFinite ha hb h) hnonpos

theorem lt?_zero_neg (ha : a.isFinite) (hnonneg : 0 ≤ a.toRat) (h : neg p a = .ok d) :
    lt? .zero d = .ok false :=
  lt?_zero_of_nonpos (neg_isFinite ha h) (neg_nonpos ha hnonneg h)

theorem lt?_zero_of_counts {u n : Int} (h : d.Counts u n) (hn : n ≤ 0) :
    lt? .zero d = .ok false := by
  refine lt?_zero_of_nonpos h.1 ?_
  rw [h.2]
  exact mul_nonpos_of_nonpos_of_nonneg (by exact_mod_cast hn) (by positivity)

end Invoicing.Decimal
