/-!
# Decimal numbers

A `Decimal` is a coefficient times a power of ten, with its sign; the exponent is part of the number,
so 1.50 and 1.5 are two decimals of one value. There are also infinities and marks for what is not a
number, quiet or signaling, which may carry a payload.
-/

namespace Invoicing

/-- A decimal number. -/
inductive Decimal where
  | finite (negative : Bool) (coefficient : Nat) (exponent : Int)
  | infinite (negative : Bool)
  | nan (signaling negative : Bool) (payload : Nat)
  deriving DecidableEq

/-- Why a calculation with decimals has no result. -/
inductive DecimalSignal where
  | invalidOperation
  | overflow
  deriving DecidableEq

/-- Number of decimal digits; zero has one. -/
def digitCount (n : Nat) : Nat :=
  if n < 10 then 1 else digitCount (n / 10) + 1

namespace Decimal

def ofInt (n : Int) : Decimal := .finite (n < 0) n.natAbs 0

def zero : Decimal := ofInt 0

/-- The value zero, of either sign and any exponent. -/
def isZero : Decimal → Bool
  | .finite _ 0 _ => true
  | _ => false

/-- The place of the first digit of a coefficient. -/
def leading (coefficient : Nat) (exponent : Int) : Int := exponent + digitCount coefficient - 1

/-! ## Comparison -/

/-- Compares two values `c * 10 ^ e`, first by the places of their first digits. -/
def compareMagnitude (c₁ : Nat) (e₁ : Int) (c₂ : Nat) (e₂ : Int) : Ordering :=
  if c₁ = 0 ∨ c₂ = 0 then compare c₁ c₂
  else
    match compare (leading c₁ e₁) (leading c₂ e₂) with
    | .eq => compare (c₁ * Nat.pow 10 (e₁ - e₂).toNat) (c₂ * Nat.pow 10 (e₂ - e₁).toNat)
    | o => o

/-- Compares two values with their signs. Zero has no sign here. -/
def compareFinite (n₁ : Bool) (c₁ : Nat) (e₁ : Int) (n₂ : Bool) (c₂ : Nat) (e₂ : Int) : Ordering :=
  match n₁ && c₁ != 0, n₂ && c₂ != 0 with
  | false, false => compareMagnitude c₁ e₁ c₂ e₂
  | true, true => compareMagnitude c₂ e₂ c₁ e₁
  | true, false => .lt
  | false, true => .gt

/-- Compares two numbers; `none` if one of them is not a number. -/
def order? : Decimal → Decimal → Option Ordering
  | .finite n₁ c₁ e₁, .finite n₂ c₂ e₂ => some (compareFinite n₁ c₁ e₁ n₂ c₂ e₂)
  | .infinite n₁, .infinite n₂ => some (compare n₂ n₁)
  | .infinite n₁, .finite .. => some (if n₁ then .lt else .gt)
  | .finite .., .infinite n₂ => some (if n₂ then .gt else .lt)
  | .nan .., _ => none
  | _, .nan .. => none

/-- Whether a number is less than another, which must both be numbers. -/
def lt? (a b : Decimal) : Except DecimalSignal Bool :=
  match order? a b with
  | some o => .ok (o == .lt)
  | none => .error .invalidOperation

/-- Whether a number is at most another, which must both be numbers. -/
def le? (a b : Decimal) : Except DecimalSignal Bool :=
  match order? a b with
  | some o => .ok (o != .gt)
  | none => .error .invalidOperation

def isSignaling : Decimal → Bool
  | .nan s .. => s
  | _ => false

/-- Whether two decimals have the same value. A quiet mark equals nothing, a signaling one may not be
asked. -/
def equal? (a b : Decimal) : Except DecimalSignal Bool :=
  match order? a b with
  | some o => .ok (o == .eq)
  | none => if a.isSignaling || b.isSignaling then .error .invalidOperation else .ok false

end Decimal

end Invoicing
