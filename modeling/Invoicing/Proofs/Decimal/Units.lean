import Invoicing.Proofs.Decimal.Exact
import Mathlib.Algebra.Order.Floor.Ring
import Mathlib.Algebra.Order.Floor.Semifield
import Mathlib.Data.Rat.Floor

/-!
# Rounding to whole numbers

`RoundingMode.units` is the whole number that a mode rounds a number to: the one above it or the one
below it. In every mode it is less than one away (`RoundingMode.abs_units_sub_lt_one`), in the modes
that go to the nearest a half at most, and a larger number is not rounded to less
(`RoundingMode.units_mono`). Rounding a decimal to an exponent comes to these numbers of units
(`Decimal.quantize_units`).
-/

namespace Invoicing

namespace RoundingMode

/-- Whether a number between two whole numbers goes to the one above it. -/
def GoesUp : RoundingMode → ℚ → Prop
  | .ceiling, _ => True
  | .floor, _ => False
  | .down, x => x < 0
  | .up, x => 0 < x
  | .halfUp, x => if 0 < x then 1 / 2 ≤ Int.fract x else 1 / 2 < Int.fract x
  | .halfDown, x => if 0 < x then 1 / 2 < Int.fract x else 1 / 2 ≤ Int.fract x
  | .halfEven, x => 1 / 2 < Int.fract x ∨ Int.fract x = 1 / 2 ∧ ¬ 2 ∣ ⌊x⌋
  | .zeroFiveUp, x => if 0 < x then 5 ∣ ⌊x⌋ else ¬ 5 ∣ ⌈x⌉

instance : (mode : RoundingMode) → (x : ℚ) → Decidable (mode.GoesUp x)
  | .ceiling, _ => inferInstanceAs (Decidable True)
  | .floor, _ => inferInstanceAs (Decidable False)
  | .down, x => inferInstanceAs (Decidable (x < 0))
  | .up, x => inferInstanceAs (Decidable (0 < x))
  | .halfUp, x =>
    inferInstanceAs (Decidable (if 0 < x then 1 / 2 ≤ Int.fract x else 1 / 2 < Int.fract x))
  | .halfDown, x =>
    inferInstanceAs (Decidable (if 0 < x then 1 / 2 < Int.fract x else 1 / 2 ≤ Int.fract x))
  | .halfEven, x =>
    inferInstanceAs (Decidable (1 / 2 < Int.fract x ∨ Int.fract x = 1 / 2 ∧ ¬ 2 ∣ ⌊x⌋))
  | .zeroFiveUp, x => inferInstanceAs (Decidable (if 0 < x then 5 ∣ ⌊x⌋ else ¬ 5 ∣ ⌈x⌉))

/-- The whole number that a number is rounded to. -/
def units (mode : RoundingMode) (x : ℚ) : ℤ := if mode.GoesUp x then ⌈x⌉ else ⌊x⌋

/-- Whether a mode goes to the nearest whole number. -/
def IsNearest (mode : RoundingMode) : Prop := mode = halfUp ∨ mode = halfDown ∨ mode = halfEven

variable (mode : RoundingMode) {x y : ℚ}

@[simp] theorem units_intCast (n : ℤ) : mode.units n = n := by
  simp [units]

theorem floor_le_units (x : ℚ) : ⌊x⌋ ≤ mode.units x := by
  unfold units
  split
  · exact Int.floor_le_ceil x
  · exact le_rfl

theorem units_le_ceil (x : ℚ) : mode.units x ≤ ⌈x⌉ := by
  unfold units
  split
  · exact le_rfl
  · exact Int.floor_le_ceil x

theorem abs_units_sub_lt_one (x : ℚ) : |(mode.units x : ℚ) - x| < 1 := by
  have hlow : (⌊x⌋ : ℚ) ≤ mode.units x := by exact_mod_cast mode.floor_le_units x
  have hhigh : (mode.units x : ℚ) ≤ ⌈x⌉ := by exact_mod_cast mode.units_le_ceil x
  have hfloor := Int.lt_floor_add_one x
  have hceil := Int.ceil_lt_add_one x
  rw [abs_lt]
  constructor <;> linarith

variable {mode}

theorem IsNearest.fract (hmode : mode.IsNearest) (x : ℚ) :
    (mode.GoesUp x → 1 / 2 ≤ Int.fract x) ∧ (¬ mode.GoesUp x → Int.fract x ≤ 1 / 2) := by
  rcases hmode with rfl | rfl | rfl
  · simp only [GoesUp]
    split
    · exact ⟨id, fun h => (not_le.1 h).le⟩
    · exact ⟨le_of_lt, not_lt.1⟩
  · simp only [GoesUp]
    split
    · exact ⟨le_of_lt, not_lt.1⟩
    · exact ⟨id, fun h => (not_le.1 h).le⟩
  · simp only [GoesUp]
    constructor
    · rintro (h | ⟨h, -⟩)
      · exact h.le
      · exact h.ge
    · intro h
      exact not_lt.1 fun hlt => h (.inl hlt)

theorem IsNearest.abs_units_sub_le (hmode : mode.IsNearest) (x : ℚ) :
    |(mode.units x : ℚ) - x| ≤ 1 / 2 := by
  obtain ⟨hup, hdown⟩ := hmode.fract x
  have hfract := Int.floor_add_fract x
  have hpos := Int.fract_nonneg x
  have hceil : (⌈x⌉ : ℚ) ≤ ⌊x⌋ + 1 := by exact_mod_cast Int.ceil_le_floor_add_one x
  have hle := Int.le_ceil x
  unfold units
  split
  case isTrue h =>
    have := hup h
    rw [abs_le]
    constructor <;> linarith
  case isFalse h =>
    have := hdown h
    rw [abs_le]
    constructor <;> linarith

theorem same_cell (h : ⌊x⌋ = ⌊y⌋) (hx : (⌊x⌋ : ℚ) < x) (hy : (⌊y⌋ : ℚ) < y) :
    (0 < x ↔ 0 < y) ∧ (x < 0 ↔ y < 0) ∧ ⌈x⌉ = ⌈y⌉ := by
  have hceil : ∀ z : ℚ, (⌊z⌋ : ℚ) < z → ⌈z⌉ = ⌊z⌋ + 1 := by
    intro z hz
    refine le_antisymm (Int.ceil_le_floor_add_one z) ?_
    exact Int.add_one_le_iff.2 (Int.lt_ceil.2 hz)
  have hneg : ∀ z : ℚ, (⌊z⌋ : ℚ) < z → (z < 0 ↔ ⌊z⌋ < 0) := fun z _ => Int.floor_lt_zero.symm
  have hpos : ∀ z : ℚ, (⌊z⌋ : ℚ) < z → (0 < z ↔ 0 ≤ ⌊z⌋) := by
    intro z hz
    rw [Int.floor_nonneg]
    refine ⟨le_of_lt, fun hle => lt_of_le_of_ne hle ?_⟩
    rintro rfl
    simp at hz
  rw [hpos x hx, hpos y hy, hneg x hx, hneg y hy, hceil x hx, hceil y hy, h]
  exact ⟨Iff.rfl, Iff.rfl, rfl⟩

theorem GoesUp.mono (hup : mode.GoesUp x) (hle : x ≤ y) (h : ⌊x⌋ = ⌊y⌋) (hx : (⌊x⌋ : ℚ) < x)
    (hy : (⌊y⌋ : ℚ) < y) : mode.GoesUp y := by
  obtain ⟨hpos, hneg, hceil⟩ := same_cell h hx hy
  have hfract : Int.fract x ≤ Int.fract y := by
    rw [Int.fract, Int.fract, h]
    linarith
  cases mode with
  | ceiling => trivial
  | floor => exact hup
  | down => exact hneg.1 hup
  | up => exact hpos.1 hup
  | halfUp =>
    simp only [GoesUp, hpos] at hup ⊢
    by_cases hsign : 0 < y
    · rw [if_pos hsign] at hup ⊢
      exact hup.trans hfract
    · rw [if_neg hsign] at hup ⊢
      exact hup.trans_le hfract
  | halfDown =>
    simp only [GoesUp, hpos] at hup ⊢
    by_cases hsign : 0 < y
    · rw [if_pos hsign] at hup ⊢
      exact hup.trans_le hfract
    · rw [if_neg hsign] at hup ⊢
      exact hup.trans hfract
  | halfEven =>
    rcases hup with hup | ⟨hhalf, hodd⟩
    · exact .inl (hup.trans_le hfract)
    · rw [hhalf] at hfract
      rw [h] at hodd
      rcases lt_or_eq_of_le hfract with hlt | heq
      · exact .inl hlt
      · exact .inr ⟨heq.symm, hodd⟩
  | zeroFiveUp =>
    simp only [GoesUp, hpos, h, hceil] at hup ⊢
    exact hup

variable (mode)

theorem units_mono (hle : x ≤ y) : mode.units x ≤ mode.units y := by
  rcases lt_or_eq_of_le (Int.floor_le_floor hle) with hlt | h
  · calc mode.units x ≤ ⌈x⌉ := mode.units_le_ceil x
      _ ≤ ⌊x⌋ + 1 := Int.ceil_le_floor_add_one x
      _ ≤ ⌊y⌋ := hlt
      _ ≤ mode.units y := mode.floor_le_units y
  rcases lt_or_eq_of_le (Int.floor_le x) with hx | hx
  · have hy : (⌊y⌋ : ℚ) < y := by
      rw [← h]
      exact hx.trans_le hle
    by_cases hup : mode.GoesUp x
    · rw [units, units, if_pos hup, if_pos (hup.mono hle h hx hy), (same_cell h hx hy).2.2]
    · rw [units, if_neg hup, h]
      exact mode.floor_le_units y
  · -- a whole number is rounded to itself, which is below the other number
    rw [← hx, units_intCast, h]
    exact mode.floor_le_units y

/-! ## Quotients -/

section

variable {q r d : Nat} (hr : 0 < r) (hd : r < d)
include hr hd

theorem fraction_mem : 0 < (r : ℚ) / d ∧ (r : ℚ) / d < 1 := by
  have hr' : (0 : ℚ) < r := by exact_mod_cast hr
  have hd' : (r : ℚ) < d := by exact_mod_cast hd
  exact ⟨div_pos hr' (hr'.trans hd'), (div_lt_one (hr'.trans hd')).2 hd'⟩

theorem half_iff : (1 / 2 < (r : ℚ) / d ↔ d < 2 * r) ∧ (1 / 2 ≤ (r : ℚ) / d ↔ d ≤ 2 * r) ∧
    ((r : ℚ) / d = 1 / 2 ↔ d = 2 * r) := by
  have hd' : (0 : ℚ) < d := by exact_mod_cast hr.trans hd
  have hlt : 1 / 2 < (r : ℚ) / d ↔ d < 2 * r := by
    rw [div_lt_div_iff₀ (by norm_num) hd', one_mul, mul_comm (r : ℚ)]
    exact_mod_cast Iff.rfl
  have hle : 1 / 2 ≤ (r : ℚ) / d ↔ d ≤ 2 * r := by
    rw [div_le_div_iff₀ (by norm_num) hd', one_mul, mul_comm (r : ℚ)]
    exact_mod_cast Iff.rfl
  refine ⟨hlt, hle, ?_⟩
  rw [le_antisymm_iff, ← not_lt, hlt, hle]
  omega

theorem cell_pos : ⌊(q : ℚ) + r / d⌋ = q ∧ ⌈(q : ℚ) + r / d⌉ = q + 1 ∧
    Int.fract ((q : ℚ) + r / d) = r / d := by
  obtain ⟨hpos, hlt⟩ := fraction_mem hr hd
  have hfloor : ⌊(q : ℚ) + r / d⌋ = q := by
    rw [Int.floor_eq_iff]
    push_cast
    constructor <;> linarith
  refine ⟨hfloor, ?_, ?_⟩
  · rw [Int.ceil_eq_iff]
    push_cast
    constructor <;> linarith
  · rw [Int.fract, hfloor]
    push_cast
    ring

theorem cell_neg : ⌊-((q : ℚ) + r / d)⌋ = -(q + 1) ∧ ⌈-((q : ℚ) + r / d)⌉ = -q ∧
    Int.fract (-((q : ℚ) + r / d)) = 1 - r / d := by
  obtain ⟨hfloor, hceil, -⟩ := cell_pos (q := q) hr hd
  rw [Int.fract, Int.floor_neg, Int.ceil_neg, hfloor, hceil]
  refine ⟨rfl, rfl, ?_⟩
  push_cast
  ring

theorem roundsUp_false (mode : RoundingMode) : mode.roundsUp false q r d = true ↔ mode.GoesUp (q + r / d) := by
  obtain ⟨hmore, hleast, hhalf⟩ := half_iff hr hd
  obtain ⟨hfloor, -, hfract⟩ := cell_pos (q := q) hr hd
  have hsign : 0 < (q : ℚ) + r / d := by
    have := (fraction_mem hr hd).1
    positivity
  cases mode with
  | ceiling => exact iff_of_true rfl trivial
  | floor => exact iff_of_false Bool.false_ne_true id
  | down => exact iff_of_false Bool.false_ne_true hsign.not_gt
  | up => exact iff_of_true rfl hsign
  | halfUp => simp only [roundsUp, GoesUp, if_pos hsign, hfract, hleast, decide_eq_true_eq]
  | halfDown => simp only [roundsUp, GoesUp, if_pos hsign, hfract, hmore, decide_eq_true_eq]
  | halfEven =>
    simp only [roundsUp, GoesUp, hfract, hfloor, hmore, hhalf, Bool.or_eq_true, Bool.and_eq_true,
      decide_eq_true_eq, beq_iff_eq]
    omega
  | zeroFiveUp =>
    simp only [roundsUp, GoesUp, if_pos hsign, hfloor, beq_iff_eq]
    omega

theorem roundsUp_true (mode : RoundingMode) : mode.roundsUp true q r d = true ↔ ¬ mode.GoesUp (-(q + r / d)) := by
  obtain ⟨hmore, hleast, hhalf⟩ := half_iff hr hd
  obtain ⟨hfloor, hceil, hfract⟩ := cell_neg (q := q) hr hd
  have hsign : -((q : ℚ) + r / d) < 0 := by
    have := (fraction_mem hr hd).1
    have hpos : 0 < (q : ℚ) + r / d := by positivity
    linarith
  -- what is left above the number is what is left below its magnitude
  have hmore' : 1 / 2 < 1 - (r : ℚ) / d ↔ ¬ d ≤ 2 * r := by
    rw [← hleast, not_le]
    constructor <;> intro <;> linarith
  have hleast' : 1 / 2 ≤ 1 - (r : ℚ) / d ↔ ¬ d < 2 * r := by
    rw [← hmore, not_lt]
    constructor <;> intro <;> linarith
  have hhalf' : 1 - (r : ℚ) / d = 1 / 2 ↔ d = 2 * r := by
    rw [← hhalf]
    constructor <;> intro <;> linarith
  cases mode with
  | ceiling => exact iff_of_false Bool.false_ne_true (not_not_intro trivial)
  | floor => exact iff_of_true rfl id
  | down => exact iff_of_false Bool.false_ne_true (not_not_intro hsign)
  | up => exact iff_of_true rfl hsign.not_gt
  | halfUp =>
    simp only [roundsUp, GoesUp, if_neg hsign.not_gt, hfract, hmore', decide_eq_true_eq, not_not]
  | halfDown =>
    simp only [roundsUp, GoesUp, if_neg hsign.not_gt, hfract, hleast', decide_eq_true_eq, not_not]
  | halfEven =>
    simp only [roundsUp, GoesUp, hfract, hfloor, hmore', hhalf', Bool.or_eq_true, Bool.and_eq_true,
      decide_eq_true_eq, beq_iff_eq]
    omega
  | zeroFiveUp =>
    simp only [roundsUp, GoesUp, if_neg hsign.not_gt, hceil, beq_iff_eq]
    omega

end

theorem units_roundDiv (mode : RoundingMode) (negative : Bool) (n : Nat) {d : Nat} (hd : 0 < d) :
    mode.units (if negative then -((n : ℚ) / d) else n / d) =
      if negative then -(roundDiv mode negative n d : ℤ) else roundDiv mode negative n d := by
  have hd' : (d : ℚ) ≠ 0 := by exact_mod_cast hd.ne'
  have hsplit : (n : ℚ) / d = (n / d : ℕ) + (n % d : ℕ) / d := by
    have hdiv : (n : ℚ) = d * (n / d : ℕ) + (n % d : ℕ) := by
      exact_mod_cast (Nat.div_add_mod n d).symm
    rw [hdiv, add_div, mul_div_cancel_left₀ _ hd']
  rw [hsplit, roundDiv]
  generalize n / d = q
  rcases Nat.eq_zero_or_pos (n % d) with hzero | hpos
  · rw [if_pos hzero, hzero, Nat.cast_zero, zero_div, add_zero]
    cases negative
    · exact mode.units_intCast q
    · have hneg := mode.units_intCast (-q)
      rw [Int.cast_neg, Int.cast_natCast] at hneg
      exact hneg
  have hlt := Nat.mod_lt n hd
  rw [if_neg hpos.ne']
  generalize n % d = r at hpos hlt
  cases negative
  · obtain ⟨hfloor, hceil, -⟩ := cell_pos (q := q) hpos hlt
    have hup := roundsUp_false (q := q) hpos hlt mode
    simp only [units, ← hup, hfloor, hceil, Bool.false_eq_true, if_false]
    split <;> push_cast <;> rfl
  · obtain ⟨hfloor, hceil, -⟩ := cell_neg (q := q) hpos hlt
    have hup := roundsUp_true (q := q) hpos hlt mode
    by_cases h : mode.roundsUp true q r d = true
    · rw [if_pos rfl, if_pos rfl, units, if_neg (hup.1 h), if_pos h, hfloor]
      push_cast
      rfl
    · rw [if_pos rfl, if_pos rfl, units, if_pos (not_not.1 (mt hup.2 h)), if_neg h, hceil]

end RoundingMode

namespace Decimal

variable {p : Precision} {a d : Decimal} {u : Int}

/-! ## Rounding to an exponent -/

theorem units_of_le {u e : Int} (c : Nat) (h : u ≤ e) :
    magnitude c e / 10 ^ u = (c * 10 ^ (e - u).toNat : Nat) := by
  have hsum : u + ((e - u).toNat : Int) = e := by omega
  have hvalue : magnitude c e = magnitude (c * 10 ^ (e - u).toNat) u := by
    rw [magnitude_shift, hsum]
  rw [hvalue, magnitude, mul_div_cancel_right₀ _ (by positivity)]

theorem units_of_ge {u e : Int} (c : Nat) (h : e ≤ u) :
    magnitude c e / 10 ^ u = c / (10 ^ (u - e).toNat : Nat) := by
  have hsum : e + ((u - e).toNat : Int) = u := by omega
  have hpow : (10 : ℚ) ^ u = 10 ^ e * 10 ^ (u - e).toNat := by
    rw [← zpow_natCast, ← zpow_add₀ (by norm_num), hsum]
  rw [magnitude, hpow, mul_comm (c : ℚ), mul_div_mul_left _ _ (by positivity)]
  push_cast
  rfl

/-- The coefficient of a number that is rounded to an exponent. -/
def quantizedDigits (mode : RoundingMode) (negative : Bool) (c : Nat) (e u : Int) : Nat :=
  if u ≤ e then c * 10 ^ (e - u).toNat else dropDigits mode negative c (u - e).toNat

theorem quantize_eq (hp : 0 < p.digits) (mode : RoundingMode) (s : Bool) (c : Nat) (e : Int) :
    quantize p mode u (.finite s c e) =
      if 10 ^ p.digits ≤ quantizedDigits mode s c e u then .error .invalidOperation
      else .ok (.finite s (quantizedDigits mode s c e u) u) := by
  have htoo : ∀ k, p.digits < digitCount k ↔ 10 ^ p.digits ≤ k := by
    intro k
    rw [← not_le, digitCount_le_iff hp, not_lt]
  unfold quantize quantizedDigits
  dsimp only
  rcases eq_or_ne c 0 with rfl | hc
  · have hpow : ¬ 10 ^ p.digits ≤ 0 := by
      have : 0 < 10 ^ p.digits := by positivity
      omega
    have hzero : dropDigits mode s 0 (u - e).toNat = 0 := by simp [dropDigits_eq, roundDiv]
    rw [if_pos rfl, zero_mul, hzero, ite_self, if_neg hpow]
  rw [if_neg hc]
  by_cases h : u ≤ e
  · have hroom : (p.digits : Int) < digitCount c + (e - u) ↔
        10 ^ p.digits ≤ c * 10 ^ (e - u).toNat := by
      rw [← htoo, digitCount_mul_pow hc]
      omega
    simp only [if_pos h, hroom, Nat.pow_eq]
  · simp only [if_neg h, htoo]

theorem units_toRat (mode : RoundingMode) (s : Bool) (c : Nat) (e : Int) :
    mode.units (toRat (.finite s c e) / 10 ^ u) =
      if s then -(quantizedDigits mode s c e u : ℤ) else quantizedDigits mode s c e u := by
  have hvalue : toRat (.finite s c e) / 10 ^ u =
      if s then -(magnitude c e / 10 ^ u) else magnitude c e / 10 ^ u := by
    cases s
    · rfl
    · exact neg_div _ _
  rw [hvalue, quantizedDigits]
  by_cases h : u ≤ e
  · have hwhole := mode.units_roundDiv s (c * 10 ^ (e - u).toNat) Nat.one_pos
    rw [Nat.cast_one, div_one] at hwhole
    rw [units_of_le c h, hwhole, if_pos h]
    simp [roundDiv, Nat.mod_one]
  · rw [units_of_ge c (by omega), if_neg h, dropDigits_eq_roundDiv]
    exact mode.units_roundDiv s c (by positivity)

/-- A finite decimal is rounded to the number of units that the mode says, unless these need more
digits than the precision has. -/
theorem quantize_units (hp : 0 < p.digits) (mode : RoundingMode) (ha : a.isFinite) :
    (p.digits < digitCount (mode.units (a.toRat / 10 ^ u)).natAbs ∧
      quantize p mode u a = .error .invalidOperation) ∨
    (digitCount (mode.units (a.toRat / 10 ^ u)).natAbs ≤ p.digits ∧
      ∃ s k, quantize p mode u a = .ok (.finite s k u) ∧ digitCount k ≤ p.digits ∧
        Counts (.finite s k u) u (mode.units (a.toRat / 10 ^ u))) := by
  match a, ha with
  | .finite s c e, _ =>
  rw [units_toRat, quantize_eq hp]
  generalize quantizedDigits mode s c e u = k
  have habs : (if s then -(k : ℤ) else k).natAbs = k := by cases s <;> simp
  have hvalue : toRat (.finite s k u) = (if s then -(k : ℤ) else k : ℤ) * (10 : ℚ) ^ u := by
    cases s <;> simp [toRat, magnitude]
  rw [habs]
  rcases lt_or_ge p.digits (digitCount k) with h | h
  · left
    have hpow : 10 ^ p.digits ≤ k := by
      rw [← not_lt, ← digitCount_le_iff hp, not_le]
      exact h
    exact ⟨h, if_pos hpow⟩
  · right
    have hpow : ¬ 10 ^ p.digits ≤ k := by
      rw [not_le, ← digitCount_le_iff hp]
      exact h
    exact ⟨h, s, k, if_neg hpow, h, rfl, hvalue⟩

theorem quantize_self (hp : 0 < p.digits) (mode : RoundingMode) {s : Bool} {k : Nat}
    (hk : digitCount k ≤ p.digits) : quantize p mode u (.finite s k u) = .ok (.finite s k u) := by
  have hdigits : quantizedDigits mode s k u u = k := by simp [quantizedDigits]
  rw [quantize_eq hp, hdigits, if_neg (not_le.2 ((digitCount_le_iff hp).1 hk))]

theorem quantize_mono (hp : 0 < p.digits) {mode : RoundingMode} {b d' : Decimal} (ha : a.isFinite)
    (hb : b.isFinite) (hle : a.toRat ≤ b.toRat) (h : quantize p mode u a = .ok d)
    (h' : quantize p mode u b = .ok d') : d.toRat ≤ d'.toRat := by
  have hvalue : ∀ {x y : Decimal}, x.isFinite → quantize p mode u x = .ok y →
      y.toRat = mode.units (x.toRat / 10 ^ u) * 10 ^ u := by
    intro x y hx hy
    rcases quantize_units (u := u) hp mode hx with ⟨-, herror⟩ | ⟨-, s, k, hok, -, hcounts⟩
    · rw [herror] at hy
      cases hy
    · rw [hok] at hy
      obtain rfl := Except.ok.inj hy
      exact hcounts.2
  rw [hvalue ha h, hvalue hb h']
  have hpos : (0 : ℚ) < 10 ^ u := by positivity
  have hunits := mode.units_mono ((div_le_div_iff_of_pos_right hpos).2 hle)
  exact mul_le_mul_of_nonneg_right (by exact_mod_cast hunits) hpos.le

end Decimal

end Invoicing
