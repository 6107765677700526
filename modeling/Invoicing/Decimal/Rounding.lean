import Invoicing.Decimal.Basic

/-!
# Rounding

`roundDiv` rounds a quotient of natural numbers to a whole number, in one of eight modes. All rounding
of decimals goes through it.
-/

namespace Invoicing

/-- Where a number goes that lies between two others of the wanted form. -/
inductive RoundingMode where
  | ceiling
  | down
  | floor
  | halfDown
  | halfEven
  | halfUp
  | up
  /-- Towards zero, unless the last digit would be 0 or 5. -/
  | zeroFiveUp
  deriving DecidableEq

namespace RoundingMode

def named : List (String × RoundingMode) :=
  [("ROUND_05UP", .zeroFiveUp), ("ROUND_CEILING", .ceiling), ("ROUND_DOWN", .down),
   ("ROUND_FLOOR", .floor), ("ROUND_HALF_DOWN", .halfDown), ("ROUND_HALF_EVEN", .halfEven),
   ("ROUND_HALF_UP", .halfUp), ("ROUND_UP", .up)]

def ofName? (s : String) : Option RoundingMode := named.lookup s

/-- Whether a magnitude between `q` and `q + 1` goes up to `q + 1`, given what is left of a division
by `d`. -/
def roundsUp (mode : RoundingMode) (negative : Bool) (q r d : Nat) : Bool :=
  match mode with
  | .ceiling => !negative
  | .down => false
  | .floor => negative
  | .halfDown => d < 2 * r
  | .halfEven => d < 2 * r || (d == 2 * r && q % 2 == 1)
  | .halfUp => d ≤ 2 * r
  | .up => true
  | .zeroFiveUp => q % 5 == 0

end RoundingMode

/-- The magnitude `n / d` rounded to a whole number. -/
def roundDiv (mode : RoundingMode) (negative : Bool) (n d : Nat) : Nat :=
  if n % d = 0 then n / d
  else if mode.roundsUp negative (n / d) (n % d) d then n / d + 1
  else n / d

/-- A coefficient with its last `drop` digits rounded away. A coefficient that has fewer digits than
that is less than half of what is left, so one digit more than it has are enough to drop. -/
def dropDigits (mode : RoundingMode) (negative : Bool) (coefficient drop : Nat) : Nat :=
  roundDiv mode negative coefficient (Nat.pow 10 (min drop (digitCount coefficient + 1)))

end Invoicing
