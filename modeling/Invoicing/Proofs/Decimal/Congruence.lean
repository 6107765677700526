import Invoicing.Proofs.Decimal.Residue
import Invoicing.Proofs.Decimal.Sign
import Invoicing.Proofs.Reconciliation.Terms

/-!
# Calculations depend on values only

A number can be written with different exponents. What is calculated with it is worth the same
however it is written, even where results are rounded: zeros moved from the exponent into the
coefficient do not count (`Decimal.fit_shift`), nor does it count what a summand is that lies far
below the digits kept (`Decimal.fit_far`). So sums, differences and opposites come to the same
(`Decimal.add_congr`, `Decimal.sub_congr`, `Decimal.neg_congr`), and so do comparisons.
-/

namespace Invoicing

/-! ## Rounding to the nearest whole number -/

theorem roundDiv_mul (negative : Bool) (n d : Nat) {m : Nat} (hm : 0 < m) :
    roundDiv .halfEven negative (n * m) (d * m) = roundDiv .halfEven negative n d := by
  have hup : ∀ q r, RoundingMode.roundsUp .halfEven negative q (r * m) (d * m) =
      RoundingMode.roundsUp .halfEven negative q r d := by
    intro q r
    have hless : d * m < 2 * (r * m) ↔ d < 2 * r := by
      rw [← Nat.mul_assoc, Nat.mul_lt_mul_right hm]
    have heq : d * m = 2 * (r * m) ↔ d = 2 * r := by
      rw [← Nat.mul_assoc, Nat.mul_left_inj hm.ne']
    rw [Bool.eq_iff_iff]
    simp only [RoundingMode.roundsUp, Bool.or_eq_true, decide_eq_true_eq, Bool.and_eq_true,
      beq_iff_eq, hless, heq]
  rw [roundDiv, roundDiv, Nat.mul_mod_mul_right, Nat.mul_div_mul_right _ _ hm, hup]
  simp [hm.ne']

theorem roundDiv_between (negative : Bool) {x t : Nat} (ht : 0 < t) (h : x % t ≠ 0) :
    roundDiv .halfEven negative x (t * 2) = (x / t + 1) / 2 := by
  have hmod : x % (t * 2) = x % t + t * (x / t % 2) := Nat.mod_mul
  have hdiv : x / (t * 2) = x / t / 2 := (Nat.div_div_eq_div_mul ..).symm
  have hlt : x % t < t := Nat.mod_lt _ ht
  have hne : ¬ x % (t * 2) = 0 := by rw [hmod]; omega
  rw [roundDiv, if_neg hne, hdiv]
  rcases Nat.mod_two_eq_zero_or_one (x / t) with hodd | hodd
  · have hup : RoundingMode.roundsUp .halfEven negative (x / t / 2) (x % (t * 2)) (t * 2) =
        false := by
      simp only [RoundingMode.roundsUp, hmod, hodd, mul_zero, add_zero, Bool.or_eq_false_iff,
        decide_eq_false_iff_not, Bool.and_eq_false_iff, beq_eq_false_iff_ne]
      omega
    rw [hup]
    simp
    omega
  · have hup : RoundingMode.roundsUp .halfEven negative (x / t / 2) (x % (t * 2)) (t * 2) =
        true := by
      simp only [RoundingMode.roundsUp, hmod, hodd, mul_one, Bool.or_eq_true, decide_eq_true_eq]
      omega
    rw [hup]
    simp
    omega

/-! ## Digits -/

theorem digitCount_div_pow {x k : Nat} (h : 10 ^ k ≤ x) :
    digitCount x = digitCount (x / 10 ^ k) + k := by
  induction k generalizing x with
  | zero => simp
  | succ k ih =>
    have hpow : 10 ^ (k + 1) = 10 ^ k * 10 := pow_succ ..
    have hlow : 10 ^ k ≤ x / 10 := (Nat.le_div_iff_mul_le (by decide)).2 (hpow ▸ h)
    have hpos : 0 < 10 ^ k := by positivity
    rw [digitCount, if_neg (by omega), ih hlow, Nat.div_div_eq_div_mul, hpow, mul_comm 10]
    omega

namespace Decimal

variable {p : Precision}

/-- What the result of a calculation is worth, unless it signals. -/
def outcome (x : Except DecimalSignal Decimal) : Except DecimalSignal (ℚ ⊕ Decimal) := x.map worth

theorem worth_zero (negative : Bool) (e : Int) : worth (.finite negative 0 e) = .inl 0 := by
  cases negative <;> simp [worth, toRat]

/-! ## Fitting -/

theorem keptDigits_eq (c : Nat) (e : Int) :
    keptDigits p c e = roundDiv .halfEven false c (10 ^ (lastPlace p c e - e).toNat) :=
  dropDigits_eq_roundDiv ..

theorem fit_shift (hd : 0 < p.digits) (negative : Bool) (c : Nat) (e : Int) (k : Nat) :
    outcome (fit p negative (c * 10 ^ k) (e - k)) = outcome (fit p negative c e) := by
  rcases eq_or_ne c 0 with rfl | hc
  · rw [Nat.zero_mul]
    exact congrArg Except.ok (by rw [worth_zero, worth_zero])
  have hck : c * 10 ^ k ≠ 0 := Nat.mul_ne_zero hc (by positivity)
  have hdigits := digitCount_mul_pow hc k
  rw [fit_eq _ hc, fit_eq _ hck]
  obtain ⟨q, hq⟩ : ∃ q : Int, q = max p.least (e + digitCount c - p.digits) := ⟨_, rfl⟩
  have hlast : lastPlace p c e = max e q := by unfold lastPlace; omega
  have hlast' : lastPlace p (c * 10 ^ k) (e - k) = max (e - k) q := by
    unfold lastPlace
    rw [hdigits]
    omega
  rcases le_or_gt e q with hle | hlt
  · -- Digits are rounded away up to the same place.
    have hsame : lastPlace p (c * 10 ^ k) (e - k) = lastPlace p c e := by omega
    have hkept : keptDigits p (c * 10 ^ k) (e - k) = keptDigits p c e := by
      have hdrop : (lastPlace p c e - (e - k)).toNat = (lastPlace p c e - e).toNat + k := by omega
      rw [keptDigits_eq, keptDigits_eq, hsame, hdrop, pow_add, roundDiv_mul _ _ _ (by positivity)]
    have hfitted : fitted p (c * 10 ^ k) (e - k) = fitted p c e := by
      rw [fitted, fitted, hkept, hsame]
    rw [hfitted]
  · -- Nothing is rounded away.
    obtain ⟨j, hj⟩ : ∃ j : Nat, max (e - k) q + j = e := ⟨(e - max (e - k) q).toNat, by omega⟩
    have hfew : digitCount c + j ≤ p.digits := by omega
    have hshort : ∀ {d : Nat}, digitCount d ≤ p.digits → d ≠ 10 ^ p.digits := fun h heq =>
      lt_irrefl _ (((digitCount_le_iff hd).1 h).trans_eq heq.symm)
    have hfitted : fitted p c e = (c, e) := by
      have hplace : lastPlace p c e = e := by omega
      rw [fitted, keptDigits_of_eq hplace, if_neg (hshort (by omega)), hplace]
    have hfitted' : fitted p (c * 10 ^ k) (e - k) = (c * 10 ^ j, max (e - k) q) := by
      have hkept : keptDigits p (c * 10 ^ k) (e - k) = c * 10 ^ j := by
        have hdrop : k = j + (max (e - k) q - (e - k)).toNat := by omega
        have hpow : c * 10 ^ k = c * 10 ^ j * 10 ^ (max (e - k) q - (e - k)).toNat := by
          rw [mul_assoc, ← pow_add, ← hdrop]
        rw [keptDigits, hlast', hpow]
        exact dropDigits_mul_pow _ _ (Nat.mul_ne_zero hc (by positivity)) _
      rw [fitted, hkept, if_neg (hshort (by rw [digitCount_mul_pow hc]; exact hfew)), hlast']
    have hleading : leading (c * 10 ^ j) (max (e - k) q) = leading c e := by
      unfold leading
      rw [digitCount_mul_pow hc]
      omega
    rw [hfitted, hfitted']
    dsimp only
    rw [hleading]
    split
    · rfl
    · refine congrArg Except.ok ?_
      simp only [worth, toRat, magnitude_shift, hj]

theorem fit_cell (hd : 0 < p.digits) (negative : Bool) {x y k g : Nat} (e : Int)
    (hg : g = 5 * 10 ^ k) (hdiv : x / g = y / g) (hx : x % g ≠ 0) (hy : y % g ≠ 0)
    (hlong : p.digits + k < digitCount x) : fit p negative x e = fit p negative y e := by
  have hpos : 0 < g := by rw [hg]; positivity
  have hdigits : digitCount y = digitCount x := by
    have hpow : 10 ^ (k + 1) = g * 2 := by rw [hg, pow_succ]; ring
    have hsame : y / 10 ^ (k + 1) = x / 10 ^ (k + 1) := by
      rw [hpow, ← Nat.div_div_eq_div_mul x, ← Nat.div_div_eq_div_mul y, hdiv]
    have hlow : 10 ^ (k + 1) ≤ x := by
      by_contra hlt
      have := (digitCount_le_iff (n := x) (k := k + 1) (by omega)).2 (by omega)
      omega
    have hlow' : 10 ^ (k + 1) ≤ y := by
      have hone : 1 ≤ x / 10 ^ (k + 1) := (Nat.one_le_div_iff (by positivity)).2 hlow
      exact (Nat.one_le_div_iff (by positivity)).1 (hsame ▸ hone)
    rw [digitCount_div_pow hlow, digitCount_div_pow hlow', hsame]
  have hlast : lastPlace p y e = lastPlace p x e := by unfold lastPlace; rw [hdigits]
  have hkept : keptDigits p x e = keptDigits p y e := by
    obtain ⟨j, hj⟩ : ∃ j : Nat, (lastPlace p x e - e).toNat = k + j + 1 :=
      ⟨(lastPlace p x e - e).toNat - (k + 1), by unfold lastPlace; omega⟩
    have hpow : 10 ^ (k + j + 1) = g * 10 ^ j * 2 := by
      rw [hg, pow_succ, pow_add]
      ring
    have hmod : ∀ {z : Nat}, z % g ≠ 0 → z % (g * 10 ^ j) ≠ 0 := fun hz h0 =>
      hz (Nat.mod_eq_zero_of_dvd ((Nat.dvd_mul_right _ _).trans (Nat.dvd_of_mod_eq_zero h0)))
    have hpos' : 0 < g * 10 ^ j := Nat.mul_pos hpos (by positivity)
    rw [keptDigits_eq, keptDigits_eq, hlast, hj, hpow, roundDiv_between _ hpos' (hmod hx),
      roundDiv_between _ hpos' (hmod hy), ← Nat.div_div_eq_div_mul x, ← Nat.div_div_eq_div_mul y,
      hdiv]
  have hne : ∀ {z : Nat}, z % g ≠ 0 → z ≠ 0 := fun hz h0 => hz (by rw [h0]; simp)
  rw [fit_eq _ (hne hx), fit_eq _ (hne hy), fitted, fitted, hkept, hlast]

/-! ## Sums -/

/-- A whole number of units `10 ^ e`, fitted to a precision. -/
def fitUnits (p : Precision) (s e : Int) : Except DecimalSignal Decimal :=
  fit p (decide (s < 0)) s.natAbs e

theorem fit_units (s : Int) (zeroSign : Bool) (e : Int) :
    outcome (fit p (if s = 0 then zeroSign else decide (s < 0)) s.natAbs e) =
      outcome (fitUnits p s e) := by
  by_cases hs : s = 0
  · rw [fitUnits, hs]
    exact congrArg Except.ok ((worth_zero ..).trans (worth_zero ..).symm)
  · rw [if_neg hs, fitUnits]

theorem fitUnits_shift (hd : 0 < p.digits) (s e : Int) (k : Nat) :
    outcome (fitUnits p (s * 10 ^ k) (e - k)) = outcome (fitUnits p s e) := by
  have habs : (s * 10 ^ k).natAbs = s.natAbs * 10 ^ k := by rw [Int.natAbs_mul, Int.natAbs_pow]; rfl
  have hpos : (0 : Int) < 10 ^ k := by positivity
  have hsign : decide (s * 10 ^ k < 0) = decide (s < 0) := decide_eq_decide.2 (by
    rw [mul_neg_iff]
    exact ⟨fun h => h.elim (fun h => absurd h.2 hpos.not_gt) (·.1), fun h => .inr ⟨h, hpos⟩⟩)
  rw [fitUnits, fitUnits, habs, hsign]
  exact fit_shift hd ..

theorem scaled_zero (n : Bool) (e u : Int) : scaled n 0 e u = 0 := by simp [scaled]

theorem fitUnits_self (n : Bool) {c : Nat} {e : Int} (hc : c ≠ 0) :
    fitUnits p (scaled n c e e) e = fit p n c e := by
  have hpos : 0 < c := Nat.pos_of_ne_zero hc
  have hnonneg : ¬ (c : Int) < 0 := by omega
  cases n <;> simp [fitUnits, scaled, hpos, hnonneg]

theorem scaled_shift (n : Bool) (c : Nat) {e v u : Int} (hv : v ≤ e) (hu : u ≤ v) :
    scaled n c e u = scaled n c e v * 10 ^ (v - u).toNat := by
  have hexp : (e - u).toNat = (e - v).toNat + (v - u).toNat := by omega
  unfold scaled
  rw [hexp]
  cases n <;> simp [pow_add] <;> ring

theorem signed_sum (n₁ n₂ : Bool) {a r : Nat} (e : Int) (h : r < a) :
    decide (scaled n₁ a e e + scaled n₂ r e e < 0) = n₁ ∧
      (scaled n₁ a e e + scaled n₂ r e e).natAbs = if n₁ = n₂ then a + r else a - r := by
  cases n₁ <;> cases n₂ <;> simp [scaled] <;> omega

theorem cell_add {g b r : Nat} (hr : 0 < r) (hlt : r < g) :
    (g * b + r) / g = b ∧ (g * b + r) % g ≠ 0 := by
  rw [Nat.mul_add_div (by omega), Nat.mul_add_mod, Nat.div_eq_of_lt hlt, Nat.mod_eq_of_lt hlt]
  exact ⟨rfl, by omega⟩

theorem cell_sub {g b r : Nat} (hr : 0 < r) (hlt : r < g) (hb : 0 < b) :
    (g * b - r) / g = b - 1 ∧ (g * b - r) % g ≠ 0 := by
  obtain ⟨b, rfl⟩ : ∃ a, b = a + 1 := ⟨b - 1, by omega⟩
  have heq : g * (b + 1) - r = g * b + (g - r) := by rw [mul_add, mul_one]; omega
  rw [heq]
  exact cell_add (by omega) (by omega)

section

variable {n₁ n₂ : Bool} {c₁ c₂ : Nat} {e₁ e₂ u : Int}

/-- A summand far below the digits kept may be any other such one of its sign. -/
theorem fit_far (hd : 0 < p.digits) (n₁ n₂ : Bool) {a j r r' : Nat} (ha : a ≠ 0) (hr : 0 < r)
    (hr' : 0 < r') (hle : r ≤ 10 ^ j) (hle' : r' ≤ 10 ^ j) (e : Int) :
    fitUnits p (scaled n₁ (a * 10 ^ (p.digits + 3 + j)) e e + scaled n₂ r e e) e =
      fitUnits p (scaled n₁ (a * 10 ^ (p.digits + 3 + j)) e e + scaled n₂ r' e e) e := by
  obtain ⟨g, hg⟩ : ∃ g, g = 5 * 10 ^ j := ⟨_, rfl⟩
  obtain ⟨b, hb⟩ : ∃ b, b = a * (2 * 10 ^ (p.digits + 2)) := ⟨_, rfl⟩
  have hpos : 0 < 10 ^ j := by positivity
  have hb0 : 0 < b := by rw [hb]; exact Nat.mul_pos (Nat.pos_of_ne_zero ha) (by positivity)
  have hbase : a * 10 ^ (p.digits + 3 + j) = g * b := by rw [hg, hb]; ring
  have hlarge : 1000 * 10 ^ (p.digits + j) ≤ g * b := by
    have hpow : 10 ^ (p.digits + 3 + j) = 1000 * 10 ^ (p.digits + j) := by ring
    rw [← hbase, hpow]
    exact Nat.le_mul_of_pos_left _ (Nat.pos_of_ne_zero ha)
  have hsmall : 10 ^ j ≤ 10 ^ (p.digits + j) := Nat.pow_le_pow_right (by decide) (by omega)
  obtain ⟨hsign, habs⟩ := signed_sum n₁ n₂ (a := g * b) (r := r) e (by omega)
  obtain ⟨hsign', habs'⟩ := signed_sum n₁ n₂ (a := g * b) (r := r') e (by omega)
  have hlong : ∀ {x : Nat}, 10 ^ (p.digits + j) ≤ x → p.digits + j < digitCount x := by
    intro x hx
    by_contra hlt
    have := (digitCount_le_iff (n := x) (k := p.digits + j) (by omega)).1 (by omega)
    omega
  rw [hbase, fitUnits, fitUnits, hsign, hsign', habs, habs']
  split
  · obtain ⟨hdiv, hmod⟩ := cell_add (g := g) (b := b) (r := r) hr (by omega)
    obtain ⟨hdiv', hmod'⟩ := cell_add (g := g) (b := b) (r := r') hr' (by omega)
    exact fit_cell hd _ e hg (hdiv.trans hdiv'.symm) hmod hmod' (hlong (by omega))
  · obtain ⟨hdiv, hmod⟩ := cell_sub (g := g) (b := b) (r := r) hr (by omega) hb0
    obtain ⟨hdiv', hmod'⟩ := cell_sub (g := g) (b := b) (r := r') hr' (by omega) hb0
    exact fit_cell hd _ e hg (hdiv.trans hdiv'.symm) hmod hmod' (hlong (by omega))

theorem fitUnits_scaled (hd : 0 < p.digits) (n : Bool) (c : Nat) {e v : Int} (hv : v ≤ e)
    (hu : u ≤ v) :
    outcome (fitUnits p (scaled n c e v) v) = outcome (fitUnits p (scaled n c e u) u) := by
  have hexp : v - (v - u).toNat = u := by omega
  rw [scaled_shift n c hv hu, ← fitUnits_shift hd (scaled n c e v) v (v - u).toNat, hexp]

theorem sumAligned_units (hd : 0 < p.digits) (he : e₂ ≤ e₁) (hu : u ≤ e₂) :
    outcome (sumAligned p n₁ c₁ e₁ n₂ c₂ e₂) =
      outcome (fitUnits p (scaled n₁ c₁ e₁ u + scaled n₂ c₂ e₂ u) u) := by
  -- All summands are taken over the lower exponent, and from there over the unit.
  have hexp : e₂ - (e₂ - u).toNat = u := by omega
  have hlower : outcome (fitUnits p (scaled n₁ c₁ e₁ u + scaled n₂ c₂ e₂ u) u) =
      outcome (fitUnits p (scaled n₁ c₁ e₁ e₂ + scaled n₂ c₂ e₂ e₂) e₂) := by
    rw [scaled_shift n₁ c₁ he hu, scaled_shift n₂ c₂ le_rfl hu, ← add_mul,
      ← fitUnits_shift hd _ e₂ (e₂ - u).toNat, hexp]
  rw [hlower]
  unfold sumAligned
  by_cases hc₁ : c₁ = 0
  · rw [if_pos hc₁, hc₁, scaled_zero, zero_add]
    by_cases hc₂ : c₂ = 0
    · rw [hc₂, scaled_zero]
      exact congrArg Except.ok ((worth_zero ..).trans (worth_zero ..).symm)
    · rw [if_neg hc₂, fitUnits_self n₂ hc₂]
  rw [if_neg hc₁]
  dsimp only
  split
  case isFalse hfar => exact fit_units ..
  case isTrue hfar =>
  obtain ⟨j, hj⟩ : ∃ j : Nat, e₁ - (p.digits + 3) - j = e₂ :=
    ⟨(e₁ - (p.digits + 3) - e₂).toNat, by omega⟩
  have hfirst : scaled n₁ c₁ e₁ (e₁ - (p.digits + 3)) * 10 ^ j = scaled n₁ c₁ e₁ e₂ := by
    rw [scaled_shift n₁ c₁ (v := e₁ - (p.digits + 3)) (by omega) (u := e₂) (by omega)]
    congr 2
    omega
  have hsecond : scaled n₂ (min c₂ 1) (e₁ - (p.digits + 3)) (e₁ - (p.digits + 3)) * 10 ^ j =
      scaled n₂ (min c₂ 1 * 10 ^ j) e₂ e₂ := by
    cases n₂ <;> simp [scaled]
  rw [fit_units, ← fitUnits_shift hd _ _ j, hj, add_mul, hfirst, hsecond]
  by_cases hc₂ : c₂ = 0
  · rw [hc₂, show min 0 1 = 0 from rfl, Nat.zero_mul]
  · have hone : min c₂ 1 = 1 := by omega
    have hpow : scaled n₁ c₁ e₁ e₂ = scaled n₁ (c₁ * 10 ^ (p.digits + 3 + j)) e₂ e₂ := by
      have hdiff : (e₁ - e₂).toNat = p.digits + 3 + j := by omega
      simp [scaled, hdiff]
    have hlow : c₂ < 10 ^ j := by
      have := digitCount_pos c₂
      exact (digitCount_le_iff (by omega)).1 (by omega)
    rw [hone, one_mul, hpow, fit_far hd n₁ n₂ hc₁ (by positivity) (Nat.pos_of_ne_zero hc₂) le_rfl
      hlow.le]

end

/-! ## Numbers of one worth -/

section

variable {a a' b b' : Decimal}

theorem worth_cases (h : a.worth = b.worth) :
    (a.isFinite ∧ b.isFinite ∧ a.toRat = b.toRat) ∨ a.isFinite = false ∧ a = b := by
  match a, b, h with
  | .finite .., .finite .., h => exact .inl ⟨rfl, rfl, Sum.inl.inj h⟩
  | .infinite _, .infinite _, h => exact .inr ⟨rfl, Sum.inr.inj h⟩
  | .nan .., .nan .., h => exact .inr ⟨rfl, Sum.inr.inj h⟩

theorem exists_finite (h : a.isFinite) : ∃ n c e, a = .finite n c e := by
  match a, h with
  | .finite n c e, _ => exact ⟨n, c, e, rfl⟩

theorem scaled_congr {n n' : Bool} {c c' : Nat} {e e' u : Int} (he : u ≤ e) (he' : u ≤ e')
    (h : toRat (.finite n c e) = toRat (.finite n' c' e')) : scaled n c e u = scaled n' c' e' u := by
  rw [← scaled_mul_pow n c he, ← scaled_mul_pow n' c' he'] at h
  exact_mod_cast mul_right_cancel₀ (by positivity : (10 : ℚ) ^ u ≠ 0) h

theorem add_units (hd : 0 < p.digits) {n₁ n₂ : Bool} {c₁ c₂ : Nat} {e₁ e₂ u : Int} (h₁ : u ≤ e₁)
    (h₂ : u ≤ e₂) : outcome (add p (.finite n₁ c₁ e₁) (.finite n₂ c₂ e₂)) =
      outcome (fitUnits p (scaled n₁ c₁ e₁ u + scaled n₂ c₂ e₂ u) u) := by
  have hmark : markOf? p (.finite n₁ c₁ e₁) (.finite n₂ c₂ e₂) = none := rfl
  simp only [add, hmark]
  split
  case isTrue he => exact sumAligned_units hd he h₂
  case isFalse he =>
    rw [add_comm]
    exact sumAligned_units hd (by omega) h₁

theorem add_of_not_isFinite (ha : a.isFinite) (ha' : a'.isFinite) (hb : b.isFinite = false) :
    add p a b = add p a' b ∧ add p b a = add p b a' := by
  obtain ⟨n, c, e, rfl⟩ := exists_finite ha
  obtain ⟨n', c', e', rfl⟩ := exists_finite ha'
  match b, hb with
  | .infinite _, _ => exact ⟨rfl, rfl⟩
  | .nan true .., _ => exact ⟨rfl, rfl⟩
  | .nan false .., _ => exact ⟨rfl, rfl⟩

theorem isFinite_of_add {d : Decimal} (h : add p a b = .ok d)
    (hd : d.isFinite) : a.isFinite := by
  match a with
  | .finite .. => rfl
  | .infinite n =>
    cases b with
    | finite => cases h; cases hd
    | infinite m =>
      change (if n = m then _ else _) = _ at h
      split at h <;> cases h
      cases hd
    | nan signaling =>
      cases signaling <;> cases h
      cases hd
  | .nan true .. => cases h
  | .nan false .. =>
    cases b with
    | finite => cases h; cases hd
    | infinite => cases h; cases hd
    | nan signaling =>
      cases signaling <;> cases h
      cases hd

/-- Sums of numbers worth the same are worth the same. -/
theorem add_congr (hd : 0 < p.digits) (ha : a.worth = a'.worth) (hb : b.worth = b'.worth) :
    outcome (add p a b) = outcome (add p a' b') := by
  rcases worth_cases ha with ⟨hfa, hfa', hva⟩ | ⟨hfa, rfl⟩ <;>
    rcases worth_cases hb with ⟨hfb, hfb', hvb⟩ | ⟨hfb, rfl⟩
  · obtain ⟨n₁, c₁, e₁, rfl⟩ := exists_finite hfa
    obtain ⟨n₁', c₁', e₁', rfl⟩ := exists_finite hfa'
    obtain ⟨n₂, c₂, e₂, rfl⟩ := exists_finite hfb
    obtain ⟨n₂', c₂', e₂', rfl⟩ := exists_finite hfb'
    -- The exact sums are compared over the lowest of all exponents.
    obtain ⟨u, hu⟩ : ∃ u, u = min (min e₁ e₁') (min e₂ e₂') := ⟨_, rfl⟩
    rw [add_units hd (u := u) (by omega) (by omega), add_units hd (u := u) (by omega) (by omega),
      scaled_congr (by omega) (by omega) hva, scaled_congr (by omega) (by omega) hvb]
  · rw [(add_of_not_isFinite hfa hfa' hfb).1]
  · rw [(add_of_not_isFinite hfb hfb' hfa).2]
  · rfl

theorem worth_opposite (h : a.worth = b.worth) : a.opposite.worth = b.opposite.worth := by
  rcases worth_cases h with ⟨ha, hb, hv⟩ | ⟨-, rfl⟩
  · obtain ⟨ha', hva⟩ := toRat_opposite ha
    obtain ⟨hb', hvb⟩ := toRat_opposite hb
    rw [worth_eq_inl ha', worth_eq_inl hb', hva, hvb, hv]
  · rfl

theorem sub_congr (hd : 0 < p.digits) (ha : a.worth = a'.worth) (hb : b.worth = b'.worth) :
    outcome (sub p a b) = outcome (sub p a' b') := add_congr hd ha (worth_opposite hb)

theorem neg_units (hd : 0 < p.digits) {n : Bool} {c : Nat} {e u : Int} (h : u ≤ e) :
    outcome (neg p (.finite n c e)) = outcome (fitUnits p (scaled (!n) c e u) u) := by
  rw [← fitUnits_scaled hd (!n) c le_rfl h, neg]
  by_cases hc : c = 0
  · rw [hc, scaled_zero]
    exact congrArg Except.ok ((worth_zero ..).trans (worth_zero ..).symm)
  · rw [fitUnits_self (!n) hc, show (c != 0 && !n) = !n by simp [hc]]

theorem neg_congr (hd : 0 < p.digits) (h : a.worth = b.worth) :
    outcome (neg p a) = outcome (neg p b) := by
  rcases worth_cases h with ⟨ha, hb, hv⟩ | ⟨-, rfl⟩
  · obtain ⟨n, c, e, rfl⟩ := exists_finite ha
    obtain ⟨n', c', e', rfl⟩ := exists_finite hb
    have hopposite : toRat (.finite (!n) c e) = toRat (.finite (!n') c' e') := by
      have hneg : ∀ n c e, toRat (.finite (!n) c e) = -toRat (.finite n c e) :=
        fun n c e => (toRat_opposite (b := .finite n c e) rfl).2
      rw [hneg, hneg, hv]
    obtain ⟨u, hu⟩ : ∃ u, u = min e e' := ⟨_, rfl⟩
    rw [neg_units hd (u := u) (by omega), neg_units hd (u := u) (by omega),
      scaled_congr (by omega) (by omega) hopposite]
  · rfl

/-! ## Comparison -/

theorem order?_of_not_isFinite (ha : a.isFinite) (ha' : a'.isFinite) (hb : b.isFinite = false) :
    order? a b = order? a' b ∧ order? b a = order? b a' := by
  obtain ⟨n, c, e, rfl⟩ := exists_finite ha
  obtain ⟨n', c', e', rfl⟩ := exists_finite ha'
  match b, hb with
  | .infinite _, _ => exact ⟨rfl, rfl⟩
  | .nan .., _ => exact ⟨rfl, rfl⟩

theorem order?_congr (ha : a.worth = a'.worth) (hb : b.worth = b'.worth) :
    order? a b = order? a' b' := by
  rcases worth_cases ha with ⟨hfa, hfa', hva⟩ | ⟨hfa, rfl⟩ <;>
    rcases worth_cases hb with ⟨hfb, hfb', hvb⟩ | ⟨hfb, rfl⟩
  · rw [order?_eq hfa hfb, order?_eq hfa' hfb', hva, hvb]
  · exact (order?_of_not_isFinite hfa hfa' hfb).1
  · exact (order?_of_not_isFinite hfb hfb' hfa).2
  · rfl

theorem isSignaling_congr (h : a.worth = b.worth) : a.isSignaling = b.isSignaling := by
  rcases worth_cases h with ⟨ha, hb, -⟩ | ⟨-, rfl⟩
  · rw [isSignaling_of_isFinite ha, isSignaling_of_isFinite hb]
  · rfl

theorem lt?_congr (ha : a.worth = a'.worth) (hb : b.worth = b'.worth) : a.lt? b = a'.lt? b' := by
  rw [lt?, lt?, order?_congr ha hb]

theorem le?_congr (ha : a.worth = a'.worth) (hb : b.worth = b'.worth) : a.le? b = a'.le? b' := by
  rw [le?, le?, order?_congr ha hb]

theorem equal?_congr (ha : a.worth = a'.worth) (hb : b.worth = b'.worth) :
    a.equal? b = a'.equal? b' := by
  rw [equal?, equal?, order?_congr ha hb, isSignaling_congr ha, isSignaling_congr hb]

theorem equal?_comm (a b : Decimal) : a.equal? b = b.equal? a := by
  have hswap : ∀ o : Ordering, (o.swap == .eq) = (o == .eq) := by decide
  match a, b with
  | .finite .., .finite .. => rw [equal?_eq rfl rfl, equal?_eq rfl rfl]; simp only [eq_comm]
  | .infinite n, .infinite m => cases n <;> cases m <;> rfl
  | .infinite n, .finite .. | .finite .., .infinite n => cases n <;> rfl
  | .nan .., .finite .. | .finite .., .nan .. | .nan .., .infinite _ | .infinite _, .nan .. =>
    simp [equal?, order?, isSignaling]
  | .nan .., .nan .. => simp only [equal?, order?, Bool.or_comm]

theorem isSignaling_of_equal? (h : a.equal? b = .ok true) : b.isSignaling = false := by
  match a, b, order?_of_equal? h with
  | _, .finite .., _ => rfl
  | _, .infinite _, _ => rfl
  | .finite .., .nan .., h | .infinite _, .nan .., h | .nan .., .nan .., h => cases h

end

end Decimal

/-! ## Prices -/

section

variable {x y z : Option Decimal}

theorem equalPrices?_comm (x y : Option Decimal) : equalPrices? x y = equalPrices? y x := by
  match x, y with
  | none, none | none, some _ | some _, none => rfl
  | some a, some b => exact Decimal.equal?_comm a b

theorem equalPrices?_trans (h : equalPrices? x z = .ok true) (h' : equalPrices? y z = .ok true) :
    equalPrices? x y = .ok true := by
  match x, y, z, h, h' with
  | none, none, none, _, _ => rfl
  | some a, some b, some c, h, h' =>
    exact (Decimal.equal?_congr rfl (Decimal.worth_of_equal? h')).trans h

theorem isSignaling_of_equalPrices? (h : equalPrices? x y = .ok true) :
    ∀ r ∈ y, r.isSignaling = false := by
  match x, y, h with
  | none, none, _ => exact nofun
  | some a, some b, h =>
    rintro r ⟨⟩
    exact Decimal.isSignaling_of_equal? h

end

end Invoicing
