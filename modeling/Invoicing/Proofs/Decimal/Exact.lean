import Invoicing.Proofs.Decimal.Value

/-!
# Exact calculations with decimals

A result is rounded only if it needs more digits than the precision has. `Decimal.fit_exact` says so
for the last step that all operations share; `Decimal.add_counts`, `Decimal.sub_counts` and
`Decimal.neg_counts` follow for decimals that are a number of some common unit `10 ^ u`, as long as
the number of units stays within the digits. `Decimal.quantize_counts` is where such decimals come
from.
-/

namespace Invoicing

theorem dropDigits_eq (mode : RoundingMode) (negative : Bool) (c drop : Nat) :
    dropDigits mode negative c drop =
      roundDiv mode negative c (10 ^ min drop (digitCount c + 1)) := rfl

theorem roundDiv_of_lt_half (mode : RoundingMode) (negative : Bool) {n d d' : Nat} (h : 2 * n < d)
    (h' : 2 * n < d') : roundDiv mode negative n d = roundDiv mode negative n d' := by
  have hup : mode.roundsUp negative 0 n d = mode.roundsUp negative 0 n d' := by
    cases mode <;> simp [RoundingMode.roundsUp] <;> omega
  rw [roundDiv, roundDiv, Nat.div_eq_of_lt (by omega : n < d), Nat.mod_eq_of_lt (by omega : n < d),
    Nat.div_eq_of_lt (by omega : n < d'), Nat.mod_eq_of_lt (by omega : n < d'), hup]

theorem dropDigits_eq_roundDiv (mode : RoundingMode) (negative : Bool) (c drop : Nat) :
    dropDigits mode negative c drop = roundDiv mode negative c (10 ^ drop) := by
  rw [dropDigits_eq]
  rcases le_total drop (digitCount c + 1) with h | h
  · rw [min_eq_left h]
  · have hlow : 2 * c < 10 ^ (digitCount c + 1) := by
      have := lt_pow_digitCount c
      rw [pow_succ]
      omega
    rw [min_eq_right h]
    exact roundDiv_of_lt_half mode negative hlow
      (hlow.trans_le (Nat.pow_le_pow_right (by decide) h))

theorem dropDigits_mul_pow (mode : RoundingMode) (negative : Bool) {k : Nat} (hk : k ≠ 0)
    (d : Nat) : dropDigits mode negative (k * 10 ^ d) d = k := by
  have hd : d < digitCount (k * 10 ^ d) := by
    have h : 10 ^ d ≤ k * 10 ^ d := Nat.le_mul_of_pos_left _ (Nat.pos_of_ne_zero hk)
    exact (Nat.pow_lt_pow_iff_right (by decide)).1 (h.trans_lt (lt_pow_digitCount _))
  have hmin : min d (digitCount (k * 10 ^ d) + 1) = d := by omega
  rw [dropDigits_eq, hmin, roundDiv, if_pos (Nat.mul_mod_left _ _),
    Nat.mul_div_cancel _ (Nat.pow_pos (by decide))]

/-- A unit within the bounds of a precision: neither the unit nor as many units as the digits allow
are out of range. -/
structure Precision.Admits (p : Precision) (unit : Int) : Prop where
  digits_pos : 0 < p.digits
  least_le : p.least ≤ unit
  le_max : unit + p.digits - 1 ≤ p.maxLeading

namespace Decimal

variable {p : Precision}

theorem leading_lt_of_magnitude_lt {c : Nat} (hc : c ≠ 0) {e k : Int}
    (h : magnitude c e < 10 ^ k) : leading c e < k :=
  (zpow_lt_zpow_iff_right₀ (by norm_num : (1 : ℚ) < 10)).1 ((pow_le_magnitude hc e).trans_lt h)

theorem coefficient_of_magnitude_eq {c n : Nat} {e q : Int} (h : magnitude c e = magnitude n q) :
    (e ≤ q → c = n * 10 ^ (q - e).toNat) ∧ (q ≤ e → c * 10 ^ (e - q).toNat = n) := by
  have hinj : ∀ {a b : Nat} {k : Int}, magnitude a k = magnitude b k → a = b := by
    intro a b k hab
    have hpos : (10 : ℚ) ^ k ≠ 0 := by positivity
    exact_mod_cast mul_right_cancel₀ hpos hab
  constructor
  · intro hq
    apply hinj (k := e)
    rw [h, magnitude_shift]; congr 1; omega
  · intro hq
    apply hinj (k := q)
    rw [← h, magnitude_shift]; congr 1; omega

/-- A magnitude that is a number of units within the digits, and not too large, is kept. -/
theorem fit_exact (negative : Bool) {c n : Nat} {e q : Int} (hp : 0 < p.digits)
    (hmag : magnitude c e = magnitude n q) (hn : n < 10 ^ p.digits) (hq : p.least ≤ q)
    (hl : leading c e ≤ p.maxLeading) :
    ∃ d, fit p negative c e = .ok d ∧ d.isFinite ∧ d.toRat = toRat (.finite negative c e) := by
  rcases eq_or_ne c 0 with rfl | hc
  · exact ⟨_, rfl, rfl, by simp [toRat]⟩
  obtain ⟨hle, hge⟩ := coefficient_of_magnitude_eq hmag
  set target := max (max e p.least) (e + digitCount c - p.digits) with htarget
  -- The digits to drop are zeros: the last place kept is not above that of the units.
  have hdigits : e < q → digitCount c ≤ p.digits + (q - e).toNat := by
    intro h
    rw [digitCount_le_iff (by omega), hle h.le, pow_add]
    exact Nat.mul_lt_mul_of_pos_right hn (Nat.pow_pos (by decide))
  have hdigits' : q ≤ e → digitCount c ≤ p.digits := by
    intro h
    rw [digitCount_le_iff hp]
    exact (Nat.le_mul_of_pos_right c (Nat.pow_pos (by decide))).trans_lt (hge h ▸ hn)
  obtain ⟨k, hk⟩ : ∃ k, c = k * 10 ^ (target - e).toNat := by
    rcases lt_or_ge e q with h | h
    · have hdrop : (target - e).toNat ≤ (q - e).toNat := by have := hdigits h; omega
      refine ⟨n * 10 ^ ((q - e).toNat - (target - e).toNat), ?_⟩
      rw [mul_assoc, ← pow_add, Nat.sub_add_cancel hdrop]
      exact hle h.le
    · have hdrop : (target - e).toNat = 0 := by have := hdigits' h; omega
      exact ⟨c, by rw [hdrop]; simp⟩
  have hk0 : k ≠ 0 := by rintro rfl; simp at hk; exact hc hk
  have hkept : dropDigits .halfEven negative c (target - e).toNat = k := by
    rw [hk]; exact dropDigits_mul_pow _ _ hk0 _
  have hsame : magnitude k target = magnitude c e := by
    have hexp : e + ((target - e).toNat : Int) = target := by omega
    rw [hk, magnitude_shift, hexp]
  have hcarry : k ≠ 10 ^ p.digits := by
    intro h
    have hpow : 10 ^ (p.digits + (target - e).toNat) = c := by rw [pow_add, ← h, ← hk]
    have := (Nat.pow_lt_pow_iff_right (by decide)).1 (hpow.trans_lt (lt_pow_digitCount c))
    omega
  have hleading : leading k target ≤ p.maxLeading := by
    have := leading_lt_of_magnitude_lt hk0 (hsame ▸ magnitude_lt_pow c e)
    omega
  refine ⟨.finite negative k target, ?_, rfl, ?_⟩
  · unfold fit
    rw [if_neg hc]
    simp only [Nat.pow_eq, ← htarget, hkept, hcarry, if_false, not_lt.2 hleading]
  · simp only [toRat, hsame]

/-! ## Numbers of units -/

/-- Whether a decimal is `n` units `10 ^ unit`. -/
def Counts (d : Decimal) (unit n : Int) : Prop := d.isFinite ∧ d.toRat = n * (10 : ℚ) ^ unit

theorem abs_toRat (n : Bool) (c : Nat) (e : Int) : |toRat (.finite n c e)| = magnitude c e := by
  cases n <;> simp [toRat, abs_of_nonneg (magnitude_nonneg c e)]

theorem sign_of_nonneg {s : Bool} {c : Nat} {e : Int} (hc : c ≠ 0)
    (h : 0 ≤ toRat (.finite s c e)) : s = false := by
  have := magnitude_pos hc e
  cases s
  · rfl
  · simp only [toRat, if_true] at h
    linarith

theorem Counts.magnitude_eq {n : Bool} {c : Nat} {e u k : Int} (h : Counts (.finite n c e) u k) :
    magnitude c e = magnitude k.natAbs u := by
  have habs : |((k : Int) : ℚ)| = (k.natAbs : ℚ) := by rw [Nat.cast_natAbs]; push_cast; rfl
  rw [← abs_toRat, h.2, abs_mul, habs, abs_of_pos (by positivity : (0 : ℚ) < 10 ^ u)]
  rfl

theorem fit_counts {negative : Bool} {c : Nat} {e u k : Int} (hu : Precision.Admits p u)
    (h : Counts (.finite negative c e) u k) (hk : k.natAbs < 10 ^ p.digits) :
    ∃ d, fit p negative c e = .ok d ∧ Counts d u k := by
  rcases eq_or_ne c 0 with rfl | hc
  · have hzero : (k : ℚ) * 10 ^ u = 0 := by rw [← h.2]; simp [toRat]
    exact ⟨_, rfl, rfl, by rw [hzero]; simp [toRat]⟩
  have hlt : magnitude c e < 10 ^ (u + p.digits) := by
    rw [h.magnitude_eq]
    unfold magnitude
    rw [add_comm, zpow_add₀ (by norm_num), zpow_natCast]
    exact mul_lt_mul_of_pos_right (by exact_mod_cast hk) (by positivity)
  have hl : leading c e ≤ p.maxLeading := by
    have := leading_lt_of_magnitude_lt hc hlt
    have := hu.le_max
    omega
  obtain ⟨d, hd, hfin, hval⟩ :=
    fit_exact negative hu.digits_pos h.magnitude_eq hk hu.least_le hl
  exact ⟨d, hd, hfin, hval.trans h.2⟩

/-! ## Sums -/

theorem scaled_mul_pow (n : Bool) (c : Nat) {e unit : Int} (h : unit ≤ e) :
    (scaled n c e unit : ℚ) * 10 ^ unit = toRat (.finite n c e) := by
  have hmag : (c * 10 ^ (e - unit).toNat : ℚ) * 10 ^ unit = magnitude c e := by
    have hexp : unit + ((e - unit).toNat : Int) = e := by omega
    rw [← hexp, ← magnitude_shift, magnitude]
    push_cast [hexp]; rfl
  cases n <;> simp [scaled, toRat, ← hmag]

theorem toRat_signed (s : Int) (zeroSign : Bool) (e : Int) :
    toRat (.finite (if s = 0 then zeroSign else decide (s < 0)) s.natAbs e) = s * (10 : ℚ) ^ e := by
  have habs : (s.natAbs : ℚ) = |(s : ℚ)| := by rw [Nat.cast_natAbs]; push_cast; rfl
  rcases lt_trichotomy s 0 with h | rfl | h
  · have hs : (s : ℚ) < 0 := by exact_mod_cast h
    simp [h.ne, h, toRat, magnitude, habs, abs_of_neg hs]
  · cases zeroSign <;> simp [toRat]
  · have hs : (0 : ℚ) < s := by exact_mod_cast h
    simp [h.ne', not_lt.2 h.le, toRat, magnitude, habs, abs_of_pos hs]

theorem sumAligned_counts {n₁ n₂ : Bool} {c₁ c₂ : Nat} {e₁ e₂ u k₁ k₂ : Int}
    (hu : Precision.Admits p u) (he : e₂ ≤ e₁)
    (h₁ : Counts (.finite n₁ c₁ e₁) u k₁) (hk₁ : k₁.natAbs < 10 ^ p.digits)
    (h₂ : Counts (.finite n₂ c₂ e₂) u k₂) (hk : (k₁ + k₂).natAbs < 10 ^ p.digits) :
    ∃ d, sumAligned p n₁ c₁ e₁ n₂ c₂ e₂ = .ok d ∧ Counts d u (k₁ + k₂) := by
  have hsum : toRat (.finite n₁ c₁ e₁) + toRat (.finite n₂ c₂ e₂) = (k₁ + k₂ : Int) * 10 ^ u := by
    rw [h₁.2, h₂.2]; push_cast; ring
  unfold sumAligned
  by_cases hc₁ : c₁ = 0
  · rw [if_pos hc₁]
    refine fit_counts hu ⟨rfl, ?_⟩ hk
    rw [← hsum, hc₁]
    rcases eq_or_ne c₂ 0 with rfl | hc₂
    · simp [toRat]
    · simp [toRat, hc₂]
  rw [if_neg hc₁]
  -- A second summand far below the digits kept would have to be less than a unit.
  have hnear : e₂ + digitCount c₂ ≤ e₁ - (p.digits + 3) → c₂ = 0 := by
    intro hfar
    by_contra hc₂
    have hk₂ : k₂.natAbs ≠ 0 := by
      intro h
      have := h₂.magnitude_eq
      rw [h, magnitude_zero] at this
      exact hc₂ (magnitude_eq_zero_iff.1 this)
    have hlow : (10 : ℚ) ^ u < 10 ^ (e₁ - (p.digits + 3)) := by
      calc (10 : ℚ) ^ u ≤ magnitude k₂.natAbs u := by
            unfold magnitude
            exact le_mul_of_one_le_left (by positivity) (by exact_mod_cast Nat.pos_of_ne_zero hk₂)
        _ = magnitude c₂ e₂ := h₂.magnitude_eq.symm
        _ < 10 ^ (leading c₂ e₂ + 1) := magnitude_lt_pow c₂ e₂
        _ ≤ 10 ^ (e₁ - (p.digits + 3)) :=
          zpow_le_zpow_right₀ (by norm_num) (by unfold leading; omega)
    have hhigh : (10 : ℚ) ^ e₁ < 10 ^ (u + p.digits) := by
      calc (10 : ℚ) ^ e₁ ≤ magnitude c₁ e₁ := by
            unfold magnitude
            exact le_mul_of_one_le_left (by positivity) (by exact_mod_cast Nat.pos_of_ne_zero hc₁)
        _ = magnitude k₁.natAbs u := h₁.magnitude_eq
        _ < 10 ^ (u + p.digits) := by
          unfold magnitude
          rw [add_comm, zpow_add₀ (by norm_num), zpow_natCast]
          exact mul_lt_mul_of_pos_right (by exact_mod_cast hk₁) (by positivity)
    have := (zpow_lt_zpow_iff_right₀ (by norm_num : (1 : ℚ) < 10)).1 hlow
    have := (zpow_lt_zpow_iff_right₀ (by norm_num : (1 : ℚ) < 10)).1 hhigh
    omega
  dsimp only
  split
  case isTrue hfar =>
    obtain rfl := hnear hfar
    have hunit : e₁ - (p.digits + 3) ≤ e₁ := by omega
    refine fit_counts hu ⟨rfl, ?_⟩ hk
    rw [toRat_signed]
    push_cast
    rw [add_mul, scaled_mul_pow _ _ hunit, scaled_mul_pow _ _ le_rfl]
    have hmin : min 0 1 = 0 := rfl
    rw [hmin, ← Int.cast_add, ← hsum]
    simp [toRat]
  case isFalse hfar =>
    refine fit_counts hu ⟨rfl, ?_⟩ hk
    rw [toRat_signed]
    push_cast
    rw [add_mul, scaled_mul_pow _ _ he, scaled_mul_pow _ _ le_rfl, ← Int.cast_add, ← hsum]

variable {a b : Decimal} {u m n : Int}

theorem add_counts (hu : Precision.Admits p u) (ha : a.Counts u m) (hb : b.Counts u n)
    (hm : m.natAbs < 10 ^ p.digits) (hn : n.natAbs < 10 ^ p.digits)
    (hmn : (m + n).natAbs < 10 ^ p.digits) :
    ∃ d, add p a b = .ok d ∧ d.Counts u (m + n) := by
  match a, b, ha, hb with
  | .finite n₁ c₁ e₁, .finite n₂ c₂ e₂, ha, hb =>
    have hmark : markOf? p (.finite n₁ c₁ e₁) (.finite n₂ c₂ e₂) = none := rfl
    simp only [add, hmark]
    split
    case isTrue he => exact sumAligned_counts hu he ha hm hb hmn
    case isFalse he =>
      rw [add_comm m n] at hmn ⊢
      exact sumAligned_counts hu (by omega) hb hn ha hmn
  | .finite .., .infinite _, _, hb | .finite .., .nan .., _, hb => simp [Counts, isFinite] at hb
  | .infinite _, _, ha, _ | .nan .., _, ha, _ => simp [Counts, isFinite] at ha

theorem Counts.opposite (h : b.Counts u n) : b.opposite.Counts u (-n) := by
  match b, h with
  | .finite s c e, h =>
    refine ⟨rfl, ?_⟩
    have hval : toRat (.finite (!s) c e) = -toRat (.finite s c e) := by cases s <;> simp [toRat]
    rw [Decimal.opposite, hval, h.2]
    push_cast; ring

theorem sub_counts (hu : Precision.Admits p u) (ha : a.Counts u m) (hb : b.Counts u n)
    (hm : m.natAbs < 10 ^ p.digits) (hn : n.natAbs < 10 ^ p.digits)
    (hmn : (m - n).natAbs < 10 ^ p.digits) :
    ∃ d, sub p a b = .ok d ∧ d.Counts u (m - n) :=
  add_counts hu ha hb.opposite hm (by omega) (by simpa [sub_eq_add_neg] using hmn)

theorem neg_counts (hu : Precision.Admits p u) (ha : a.Counts u m)
    (hm : m.natAbs < 10 ^ p.digits) : ∃ d, neg p a = .ok d ∧ d.Counts u (-m) := by
  match a, ha with
  | .finite s c e, ha =>
    refine fit_counts hu ⟨rfl, ?_⟩ (by omega)
    have hval : toRat (.finite (c != 0 && !s) c e) = -toRat (.finite s c e) := by
      rcases eq_or_ne c 0 with rfl | hc
      · simp [toRat]
      · cases s <;> simp [toRat, hc]
    rw [hval, ha.2]
    push_cast; ring

/-! ## Products -/

theorem fit_sign {negative : Bool} {c : Nat} {e : Int} {d : Decimal}
    (h : fit p negative c e = .ok d) : ∃ k f, d = .finite negative k f ∧ (c = 0 → k = 0) := by
  unfold fit at h
  split at h
  case isTrue => exact ⟨0, _, (Except.ok.inj h).symm, fun _ => rfl⟩
  case isFalse hc =>
    dsimp only at h
    -- The first split is on a digit carried, the second on an overflow.
    split at h <;> split at h
    · simp at h
    · exact ⟨_, _, (Except.ok.inj h).symm, fun h => absurd h hc⟩
    · simp at h
    · exact ⟨_, _, (Except.ok.inj h).symm, fun h => absurd h hc⟩

theorem mul_nonneg {c : Nat} {e : Int} {d : Decimal} (hf : a.isFinite)
    (h : mul p (.finite false c e) a = .ok d) : d.isFinite ∧ (0 ≤ a.toRat → 0 ≤ d.toRat) := by
  match a, hf with
  | .finite s k f, _ =>
  obtain ⟨n, x, rfl, hzero⟩ := fit_sign (show fit p (false != s) (c * k) (e + f) = .ok d from h)
  refine ⟨rfl, fun hle => ?_⟩
  rcases eq_or_ne k 0 with rfl | hk
  · simp [toRat, hzero (Nat.mul_zero c)]
  · obtain rfl := sign_of_nonneg hk hle
    simpa [toRat] using magnitude_nonneg n x

/-! ## Rounding to a unit -/

theorem quantize_cases {mode : RoundingMode} {s : Bool} {c : Nat} {e : Int} {d : Decimal}
    (hp : 0 < p.digits) (h : quantize p mode u (.finite s c e) = .ok d) :
    ∃ k, d = .finite s k u ∧ k < 10 ^ p.digits ∧ (c = 0 ∧ k = 0 ∨
      c ≠ 0 ∧ (u ≤ e ∧ k = c * 10 ^ (e - u).toNat ∨
        e < u ∧ k = dropDigits mode s c (u - e).toNat)) := by
  simp only [quantize] at h
  split at h
  case isTrue hc => exact ⟨0, (Except.ok.inj h).symm, by positivity, .inl ⟨hc, rfl⟩⟩
  case isFalse hc =>
  split at h <;> split at h
  · cases h
  case isTrue.isFalse hexp hdigits =>
    refine ⟨_, (Except.ok.inj h).symm, ?_, .inr ⟨hc, .inl ⟨hexp, rfl⟩⟩⟩
    calc c * 10 ^ (e - u).toNat < 10 ^ digitCount c * 10 ^ (e - u).toNat :=
          Nat.mul_lt_mul_of_pos_right (lt_pow_digitCount c) (by positivity)
      _ = 10 ^ (digitCount c + (e - u).toNat) := by rw [pow_add]
      _ ≤ 10 ^ p.digits := Nat.pow_le_pow_right (by decide) (by omega)
  · cases h
  case isFalse.isFalse hexp hdigits =>
    exact ⟨_, (Except.ok.inj h).symm, (digitCount_le_iff hp).1 (by omega),
      .inr ⟨hc, .inr ⟨by omega, rfl⟩⟩⟩

theorem quantize_counts {mode : RoundingMode} {d : Decimal} (hf : a.isFinite) (hp : 0 < p.digits)
    (h : quantize p mode u a = .ok d) :
    ∃ n, d.Counts u n ∧ n.natAbs < 10 ^ p.digits ∧ (0 ≤ a.toRat → 0 ≤ n) := by
  match a, hf with
  | .finite s c e, _ =>
  obtain ⟨k, rfl, hk, hcases⟩ := quantize_cases hp h
  refine ⟨if s then -(k : Int) else k, ⟨rfl, ?_⟩, ?_, fun hle => ?_⟩
  · cases s <;> simp [toRat, magnitude]
  · cases s <;> simpa using hk
  · rcases hcases with ⟨-, rfl⟩ | ⟨hc, -⟩
    · simp
    · simp [sign_of_nonneg hc hle]

end Decimal

end Invoicing
