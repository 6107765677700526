import Invoicing.Decimal.Rounding

/-!
# Decimal arithmetic

Sums and products are computed exactly and then fitted to a `Precision`: so many digits, a half going
to the even neighbour, and exponents within bounds. `Decimal.quantize` rounds to a given exponent
instead, and `Decimal.ratio` is the quotient of two whole numbers.
-/

namespace Invoicing

/-- Digits of a result, and the places that its first digit may have. -/
structure Precision where
  digits : Nat
  maxLeading : Int
  minLeading : Int

/-- 28 digits, the first of them between places -999999 and 999999. -/
def Precision.working : Precision := ⟨28, 999999, -999999⟩

def Precision.least (p : Precision) : Int := p.minLeading - (p.digits - 1)

namespace Decimal

/-- Rounds to the digits of `p`, and to its least exponent. -/
def fit (p : Precision) (negative : Bool) (coefficient : Nat) (exponent : Int) :
    Except DecimalSignal Decimal :=
  if coefficient = 0 then .ok (.finite negative 0 (max p.least (min exponent p.maxLeading)))
  else
    let target := max (max exponent p.least) (exponent + digitCount coefficient - p.digits)
    let kept := dropDigits .halfEven negative coefficient (target - exponent).toNat
    let carried := kept = Nat.pow 10 p.digits
    let kept := if carried then kept / 10 else kept
    let target := if carried then target + 1 else target
    if p.maxLeading < leading kept target then .error .overflow
    else .ok (.finite negative kept target)

/-- A payload keeps its last digits. -/
def quiet (p : Precision) (negative : Bool) (payload : Nat) : Decimal :=
  .nan false negative (payload % Nat.pow 10 p.digits)

/-- The result of an operation on a mark and something else, if one operand is a mark: the first of
them, unless one is signaling. -/
def markOf? (p : Precision) (a b : Decimal) : Option (Except DecimalSignal Decimal) :=
  if a.isSignaling || b.isSignaling then some (.error .invalidOperation)
  else
    match a, b with
    | .nan _ n k, _ => some (.ok (quiet p n k))
    | _, .nan _ n k => some (.ok (quiet p n k))
    | _, _ => none

/-! ## Sums -/

/-- A value as a signed whole number of units `10 ^ unit`, for a unit not above its exponent. -/
def scaled (negative : Bool) (coefficient : Nat) (exponent unit : Int) : Int :=
  let n : Int := coefficient * Nat.pow 10 (exponent - unit).toNat
  if negative then -n else n

/-- The sum of two values, the exponent of the second not above that of the first. -/
def sumAligned (p : Precision) (n₁ : Bool) (c₁ : Nat) (e₁ : Int) (n₂ : Bool) (c₂ : Nat) (e₂ : Int) :
    Except DecimalSignal Decimal :=
  if c₁ = 0 then fit p (if c₂ = 0 then n₁ && n₂ else n₂) c₂ e₂
  else
    -- A value far below the digits kept only counts as being there.
    let edge := e₁ - (p.digits + 3)
    let far := e₂ + digitCount c₂ ≤ edge
    let c₂ := if far then min c₂ 1 else c₂
    let e₂ := if far then edge else e₂
    let sum := scaled n₁ c₁ e₁ e₂ + scaled n₂ c₂ e₂ e₂
    fit p (if sum = 0 then n₁ && n₂ else sum < 0) sum.natAbs e₂

/-- The sum, rounded to the digits of `p`. -/
def add (p : Precision) (a b : Decimal) : Except DecimalSignal Decimal :=
  match markOf? p a b with
  | some r => r
  | none =>
    match a, b with
    | .infinite n₁, .infinite n₂ => if n₁ = n₂ then .ok a else .error .invalidOperation
    | .infinite _, _ => .ok a
    | _, .infinite _ => .ok b
    | .finite n₁ c₁ e₁, .finite n₂ c₂ e₂ =>
      if e₂ ≤ e₁ then sumAligned p n₁ c₁ e₁ n₂ c₂ e₂ else sumAligned p n₂ c₂ e₂ n₁ c₁ e₁
    | _, _ => .error .invalidOperation

/-- The same number with the other sign, as it stands. -/
def opposite : Decimal → Decimal
  | .finite n c e => .finite (!n) c e
  | .infinite n => .infinite (!n)
  | .nan s n k => .nan s n k

/-- The difference, rounded to the digits of `p`. -/
def sub (p : Precision) (a b : Decimal) : Except DecimalSignal Decimal := add p a b.opposite

/-- The number with the other sign, rounded to the digits of `p`; zero is positive. -/
def neg (p : Precision) : Decimal → Except DecimalSignal Decimal
  | .finite n c e => fit p (c != 0 && !n) c e
  | .infinite n => .ok (.infinite (!n))
  | .nan s n k => if s then .error .invalidOperation else .ok (quiet p n k)

/-! ## Products and quotients -/

/-- The product, rounded to the digits of `p`. -/
def mul (p : Precision) (a b : Decimal) : Except DecimalSignal Decimal :=
  match markOf? p a b with
  | some r => r
  | none =>
    match a, b with
    | .finite n₁ c₁ e₁, .finite n₂ c₂ e₂ => fit p (n₁ != n₂) (c₁ * c₂) (e₁ + e₂)
    | .infinite n₁, .infinite n₂ => .ok (.infinite (n₁ != n₂))
    | .infinite n₁, .finite n₂ c₂ _ =>
      if c₂ = 0 then .error .invalidOperation else .ok (.infinite (n₁ != n₂))
    | .finite n₁ c₁ _, .infinite n₂ =>
      if c₁ = 0 then .error .invalidOperation else .ok (.infinite (n₁ != n₂))
    | _, _ => .error .invalidOperation

/-- Takes zeros off the end of a fraction of `places` digits. -/
def trimZeros (coefficient : Nat) : Nat → Nat × Nat
  | 0 => (coefficient, 0)
  | places + 1 =>
    if coefficient % 10 = 0 then trimZeros (coefficient / 10) places else (coefficient, places + 1)

/-- Number of places behind the point at which the quotient `n / d` has `digits` digits. -/
def quotientPlaces (digits n d : Nat) : Nat :=
  let places := digits + digitCount d - digitCount n
  if Nat.pow 10 digits ≤ n * Nat.pow 10 places / d then places - 1 else places

/-- The quotient of two whole numbers with the digits of `p`, a half going to the even neighbour; an
exact quotient is written without zeros at its end. -/
def ratio (p : Precision) (n d : Nat) : Decimal :=
  if n % d = 0 then .finite false (n / d) 0
  else
    let places := quotientPlaces p.digits n d
    let coefficient := roundDiv .halfEven false (n * Nat.pow 10 places) d
    if n * Nat.pow 10 places % d = 0 then
      let (c, k) := trimZeros coefficient places
      .finite false c (-k)
    else .finite false coefficient (-places)

/-! ## Rounding to an exponent -/

/-- The number with exponent `exponent`, rounded in a mode. A result must fit the digits of `p`. -/
def quantize (p : Precision) (mode : RoundingMode) (exponent : Int) :
    Decimal → Except DecimalSignal Decimal
  | .nan s n k => if s then .error .invalidOperation else .ok (quiet p n k)
  | .infinite _ => .error .invalidOperation
  | .finite n c e =>
    if c = 0 then .ok (.finite n 0 exponent)
    else if exponent ≤ e then
      if p.digits < digitCount c + (e - exponent) then .error .invalidOperation
      else .ok (.finite n (c * Nat.pow 10 (e - exponent).toNat) exponent)
    else
      let kept := dropDigits mode n c (exponent - e).toNat
      if p.digits < digitCount kept then .error .invalidOperation else .ok (.finite n kept exponent)

end Decimal

end Invoicing
