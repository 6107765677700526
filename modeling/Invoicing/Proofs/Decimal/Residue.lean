import Invoicing.Proofs.Decimal.Exact

/-!
# Taking a number back

A number with more digits than the precision has is rounded when it is taken back, so that a residue
is left. The residue is at most a unit of the last place kept (`dropDigits_near`), far below the
number itself. `Decimal.add_neg_isOk` concludes that a number and what takes it back can always be
added.
-/

namespace Invoicing

theorem roundDiv_near (mode : RoundingMode) (negative : Bool) (n : Nat) {d : Nat} (hd : 0 < d) :
    ((roundDiv mode negative n d : Int) * d - n).natAbs ≤ d := by
  have hdiv : (n : Int) = d * (n / d : Nat) + (n % d : Nat) := by
    exact_mod_cast (Nat.div_add_mod n d).symm
  have hmod := Nat.mod_lt n hd
  unfold roundDiv
  split
  · rename_i h
    rw [h] at hdiv
    rw [hdiv, mul_comm]; simp
  split
  · rw [hdiv]; push_cast
    have : ((n / d : Nat) + 1 : Int) * d - (d * (n / d : Nat) + (n % d : Nat)) =
        d - (n % d : Nat) := by
      ring
    push_cast at this
    rw [this]; omega
  · rw [hdiv]; push_cast
    have : ((n / d : Nat) : Int) * d - (d * (n / d : Nat) + (n % d : Nat)) =
        -(n % d : Nat) := by ring
    push_cast at this
    rw [this]; omega

/-- Rounding digits away changes a coefficient by a unit of the last digit kept at most. -/
theorem dropDigits_near (mode : RoundingMode) (negative : Bool) (c drop : Nat) :
    ((dropDigits mode negative c drop : Int) * 10 ^ drop - c).natAbs ≤ 10 ^ drop := by
  rw [dropDigits_eq_roundDiv]
  have hnear := roundDiv_near mode negative c (d := 10 ^ drop) (by positivity)
  exact_mod_cast hnear

theorem drop_le_of_dropDigits_ne_zero {negative : Bool} {c drop : Nat}
    (h : dropDigits .halfEven negative c drop ≠ 0) : drop ≤ digitCount c := by
  by_contra hlt
  have hmin : min drop (digitCount c + 1) = digitCount c + 1 := by omega
  have hc := lt_pow_digitCount c
  have hpow : 10 ^ (digitCount c + 1) = 10 * 10 ^ digitCount c := by rw [pow_succ, mul_comm]
  have hdiv : c / 10 ^ (digitCount c + 1) = 0 := Nat.div_eq_of_lt (by omega)
  have hmod : c % 10 ^ (digitCount c + 1) = c := Nat.mod_eq_of_lt (by omega)
  apply h
  rw [dropDigits_eq, hmin, roundDiv, hdiv, hmod]
  have hup : RoundingMode.roundsUp .halfEven negative 0 c (10 ^ (digitCount c + 1)) = false := by
    simp [RoundingMode.roundsUp]; omega
  rw [hup]
  split <;> rfl

namespace Decimal

variable {p : Precision}

/-- The last place that a result keeps. -/
def lastPlace (p : Precision) (c : Nat) (e : Int) : Int :=
  max (max e p.least) (e + digitCount c - p.digits)

/-- The digits that a result keeps, before a carry. -/
def keptDigits (p : Precision) (c : Nat) (e : Int) : Nat :=
  dropDigits .halfEven false c (lastPlace p c e - e).toNat

/-- The coefficient and the exponent of a result. -/
def fitted (p : Precision) (c : Nat) (e : Int) : Nat × Int :=
  if keptDigits p c e = 10 ^ p.digits then (keptDigits p c e / 10, lastPlace p c e + 1)
  else (keptDigits p c e, lastPlace p c e)

theorem fit_eq (negative : Bool) {c : Nat} {e : Int} (hc : c ≠ 0) : fit p negative c e =
    if p.maxLeading < leading (fitted p c e).1 (fitted p c e).2 then .error .overflow
    else .ok (.finite negative (fitted p c e).1 (fitted p c e).2) := by
  have hsign : ∀ k, dropDigits .halfEven negative c k = dropDigits .halfEven false c k :=
    fun _ => rfl
  unfold fit fitted keptDigits lastPlace
  rw [if_neg hc]
  simp only [hsign, Nat.pow_eq]
  split <;> rfl

theorem fit_isOk_of_sign (a b : Bool) {c : Nat} {e : Int} {d : Decimal} (h : fit p a c e = .ok d) :
    ∃ d', fit p b c e = .ok d' ∧ d'.isFinite := by
  rcases eq_or_ne c 0 with rfl | hc
  · exact ⟨_, rfl, rfl⟩
  rw [fit_eq _ hc] at h ⊢
  split at h
  · simp at h
  · rw [if_neg ‹_›]
    exact ⟨_, rfl, rfl⟩

theorem keptDigits_le {c : Nat} {e : Int} : keptDigits p c e ≤ 10 ^ p.digits := by
  by_cases hzero : keptDigits p c e = 0
  · rw [hzero]; exact Nat.zero_le _
  have hc := lt_pow_digitCount c
  set drop := (lastPlace p c e - e).toNat with hdrop
  have hdigits : digitCount c ≤ p.digits + drop := by unfold lastPlace at hdrop; omega
  have hpow : 10 ^ digitCount c ≤ 10 ^ drop * 10 ^ p.digits := by
    rw [← pow_add, add_comm]; exact Nat.pow_le_pow_right (by decide) hdigits
  have hmin : min drop (digitCount c + 1) = drop := by
    have := drop_le_of_dropDigits_ne_zero hzero; omega
  have hdiv : c / 10 ^ drop < 10 ^ p.digits := Nat.div_lt_of_lt_mul (hc.trans_le hpow)
  rw [keptDigits, ← hdrop, dropDigits_eq, hmin, roundDiv]
  split
  · exact hdiv.le
  split
  · exact hdiv
  · exact hdiv.le

theorem fitted_shift {c : Nat} {e : Int} (hd : 0 < p.digits) : ∃ k : Nat,
    (fitted p c e).2 = lastPlace p c e + k ∧ (k = 0 ∨ k = 1 ∧ keptDigits p c e = 10 ^ p.digits) ∧
    (fitted p c e).1 * 10 ^ k = keptDigits p c e := by
  unfold fitted
  split
  case isTrue h =>
    refine ⟨1, rfl, .inr ⟨rfl, h⟩, ?_⟩
    have hdvd : 10 ∣ keptDigits p c e := h ▸ dvd_pow_self 10 (by omega)
    rw [pow_one]
    exact Nat.div_mul_cancel hdvd
  case isFalse => exact ⟨0, by simp, .inl rfl, by simp⟩

theorem leading_fitted_le {c : Nat} {e : Int} (hd : 0 < p.digits) :
    leading (fitted p c e).1 (fitted p c e).2 ≤ lastPlace p c e + p.digits := by
  have hpow : (10 : Nat) ^ p.digits = 10 ^ (p.digits - 1) * 10 := by
    rw [← pow_succ]; congr 1; omega
  unfold fitted
  split
  case isTrue h =>
    have hdigits : digitCount (keptDigits p c e / 10) ≤ p.digits := by
      rw [digitCount_le_iff hd, h]
      exact Nat.div_lt_self (by positivity) (by decide)
    dsimp only
    unfold leading; omega
  case isFalse h =>
    have hdigits : digitCount (keptDigits p c e) ≤ p.digits := by
      rw [digitCount_le_iff hd]
      exact lt_of_le_of_ne keptDigits_le h
    dsimp only
    unfold leading; omega

theorem fit_isOk (negative : Bool) {c : Nat} {e : Int} (hd : 0 < p.digits)
    (h : lastPlace p c e + p.digits ≤ p.maxLeading) :
    ∃ d, fit p negative c e = .ok d ∧ d.isFinite := by
  rcases eq_or_ne c 0 with rfl | hc
  · exact ⟨_, rfl, rfl⟩
  · rw [fit_eq _ hc, if_neg (not_lt.2 ((leading_fitted_le hd).trans h))]
    exact ⟨_, rfl, rfl⟩

theorem pow_le_keptDigits {c : Nat} {e : Int} (hc : c ≠ 0) (hd : 0 < p.digits)
    (h : lastPlace p c e = e + digitCount c - p.digits) :
    10 ^ (p.digits - 1) ≤ keptDigits p c e := by
  have hle : e ≤ lastPlace p c e := by unfold lastPlace; omega
  set drop := (lastPlace p c e - e).toNat with hdrop
  have hmin : min drop (digitCount c + 1) = drop := by omega
  have hpow : 10 ^ (p.digits - 1) * 10 ^ drop ≤ c := by
    rw [← pow_add]
    refine le_trans (le_of_eq ?_) (pow_digitCount_le hc)
    congr 1; omega
  have hdiv : 10 ^ (p.digits - 1) ≤ c / 10 ^ drop := (Nat.le_div_iff_mul_le (by positivity)).2 hpow
  rw [keptDigits, ← hdrop, dropDigits_eq, hmin, roundDiv]
  split
  · exact hdiv
  split
  · exact hdiv.trans (Nat.le_succ _)
  · exact hdiv

theorem keptDigits_of_eq {c : Nat} {e : Int} (h : lastPlace p c e = e) : keptDigits p c e = c := by
  simp [keptDigits, h, dropDigits_eq, roundDiv, Nat.mod_one]

theorem residue_natAbs (s : Bool) (c k : Nat) (e t : Int) :
    (scaled (!s) k t e + scaled s c e e).natAbs =
      ((k : Int) * 10 ^ (t - e).toNat - c).natAbs := by
  cases s
  · have : scaled true k t e + scaled false c e e = -((k : Int) * 10 ^ (t - e).toNat - c) := by
      simp [scaled]; ring
    rw [Bool.not_false, this, Int.natAbs_neg]
  · have : scaled false k t e + scaled true c e e = (k : Int) * 10 ^ (t - e).toNat - c := by
      simp [scaled]; ring
    rw [Bool.not_true, this]

section

variable {c : Nat} {e : Int}

theorem residue_le (s : Bool) {k j : Nat} {t : Int} (ht : t = lastPlace p c e + j)
    (hk : k * 10 ^ j = keptDigits p c e) :
    (scaled (!s) k t e + scaled s c e e).natAbs ≤ 10 ^ (lastPlace p c e - e).toNat := by
  have hle : e ≤ lastPlace p c e := by unfold lastPlace; omega
  have hpow : (k : Int) * 10 ^ (t - e).toNat =
      (keptDigits p c e : Int) * 10 ^ (lastPlace p c e - e).toNat := by
    have hexp : (t - e).toNat = j + (lastPlace p c e - e).toNat := by omega
    rw [hexp, pow_add, ← mul_assoc, ← hk]; push_cast; ring
  rw [residue_natAbs, hpow]
  exact dropDigits_near ..

theorem room_of_leading_le {k j : Nat} (hc : c ≠ 0) (hd : j < p.digits)
    (hk : k * 10 ^ j = keptDigits p c e) (hlost : e < lastPlace p c e)
    (hmax : leading k (lastPlace p c e + j) ≤ p.maxLeading) :
    lastPlace p c e = p.least ∨ lastPlace p c e + p.digits - 1 ≤ p.maxLeading := by
  rcases eq_or_ne (lastPlace p c e) p.least with hl | hl
  · exact .inl hl
  right
  have hfull := pow_le_keptDigits (p := p) (e := e) hc (by omega) (by unfold lastPlace at *; omega)
  have hdigits : p.digits - 1 - j < digitCount k := by
    by_contra hlt
    have hk' : k < 10 ^ (p.digits - 1 - j) :=
      (lt_pow_digitCount k).trans_le (Nat.pow_le_pow_right (by decide) (by omega))
    have hpow : (10 : Nat) ^ (p.digits - 1) = 10 ^ (p.digits - 1 - j) * 10 ^ j := by
      rw [← pow_add]; congr 1; omega
    have := Nat.mul_lt_mul_of_pos_right hk' (show 0 < 10 ^ j by positivity)
    omega
  unfold leading at hmax
  omega

end

theorem add_neg_zero_isOk (s : Bool) (e : Int) {b : Decimal} (h : neg p (.finite s 0 e) = .ok b) :
    ∃ d, add p (.finite s 0 e) b = .ok d ∧ d.isFinite := by
  obtain ⟨x, rfl⟩ : ∃ x, b = .finite false 0 x := by
    simp only [neg, fit, if_true] at h
    exact ⟨_, (Except.ok.inj h).symm⟩
  have hmark : markOf? p (.finite s 0 e) (.finite false 0 x) = none := rfl
  simp only [add, hmark, sumAligned, fit, if_true]
  split <;> exact ⟨_, rfl, rfl⟩

theorem add_neg_isOk {a b : Decimal} (ha : a.isFinite) (hd : 2 ≤ p.digits)
    (hrange : p.least + p.digits ≤ p.maxLeading) (h : neg p a = .ok b) :
    ∃ d, add p a b = .ok d ∧ d.isFinite := by
  match a, ha with
  | .finite s c e, _ =>
  rcases eq_or_ne c 0 with rfl | hc
  · exact add_neg_zero_isOk s e h
  have hsign : (c != 0 && !s) = !s := by simp [hc]
  have hfit : fit p (!s) c e = .ok b := by rw [← hsign]; exact h
  have hrounded := fit_eq (p := p) (!s) (e := e) hc
  rw [hfit] at hrounded
  split at hrounded
  case isTrue => simp at hrounded
  case isFalse hmax =>
  obtain rfl := Except.ok.inj hrounded
  obtain ⟨j, ht, hj, hk⟩ := fitted_shift (p := p) (c := c) (e := e) (by omega)
  set k := (fitted p c e).1
  set t := (fitted p c e).2
  have hplace : e ≤ lastPlace p c e ∧ p.least ≤ lastPlace p c e := by unfold lastPlace; omega
  have hmark : markOf? p (.finite s c e) (.finite (!s) k t) = none := rfl
  simp only [add, hmark]
  split
  case isTrue hte =>
    -- Nothing was rounded away.
    have hkept := keptDigits_of_eq (p := p) (c := c) (e := e) (by omega)
    have hj0 : j = 0 := by omega
    have hkc : k = c := by rw [← hkept, ← hk, hj0]; simp
    have hte' : t = e := by omega
    have hfar : ¬ e + (digitCount c : Int) ≤ e - (p.digits + 3) := by omega
    have hsum : scaled s c e e + scaled (!s) c e e = 0 := by cases s <;> simp [scaled]
    rw [hkc, hte']
    simp only [sumAligned, if_neg hc, if_neg hfar, hsum, fit, Int.natAbs_zero, if_true]
    exact ⟨_, rfl, rfl⟩
  case isFalse hte =>
    unfold sumAligned
    by_cases hk0 : k = 0
    · rw [if_pos hk0]
      exact fit_isOk_of_sign (!s) _ hfit
    rw [if_neg hk0]
    have hkept0 : keptDigits p c e ≠ 0 := by
      rw [← hk]; exact Nat.mul_ne_zero hk0 (by positivity)
    have hdrop := drop_le_of_dropDigits_ne_zero hkept0
    have hfar : ¬ e + (digitCount c : Int) ≤ t - (p.digits + 3) := by omega
    simp only [if_neg hfar]
    have hdigits : digitCount (scaled (!s) k t e + scaled s c e e).natAbs ≤
        (lastPlace p c e - e).toNat + 1 := by
      rw [digitCount_le_iff (by omega)]
      exact (residue_le s ht hk).trans_lt (Nat.pow_lt_pow_right (by decide) (by omega))
    have hlost : e < lastPlace p c e := by
      by_contra hle
      have hle : lastPlace p c e = e := by omega
      have hcarry : c = 10 ^ p.digits := by rw [← keptDigits_of_eq hle]; omega
      have hlong : ¬ digitCount c ≤ p.digits := by
        rw [digitCount_le_iff (by omega), hcarry]; exact lt_irrefl _
      unfold lastPlace at hle; omega
    have hroom := room_of_leading_le hc (by omega) hk hlost (ht ▸ not_lt.1 hmax)
    refine fit_isOk _ (by omega) ?_
    generalize (scaled (!s) k t e + scaled s c e e).natAbs = residue at hdigits ⊢
    have hlast : lastPlace p residue e =
      max (max e p.least) (e + digitCount residue - p.digits) := rfl
    omega

end Decimal

end Invoicing
