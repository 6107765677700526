/-!
# Shortest decimal digits of a binary fraction

A finite floating-point number is a fraction `m * 2 ^ q` that stands for all reals that round to it.
`shortest` finds the fewest decimal digits of a real among them, the nearest one if several have so
few digits. All arithmetic is exact, on natural numbers.
-/

namespace Invoicing.Binary64

/-- A positive number `mantissa * 2 ^ exponent`. -/
structure Dyadic where
  mantissa : Nat
  exponent : Int
  deriving DecidableEq

/-- What the 64 bits of a floating-point number say. -/
inductive Parts where
  | zero (negative : Bool)
  | finite (negative : Bool) (magnitude : Dyadic)
  | infinite (negative : Bool)
  | nan
  deriving DecidableEq

/-- Reads sign, exponent field and fraction field. -/
def Parts.ofBits (bits : UInt64) : Parts :=
  let n := bits.toNat
  let negative := Nat.pow 2 63 ≤ n
  let field : Nat := n / Nat.pow 2 52 % Nat.pow 2 11
  let fraction : Nat := n % Nat.pow 2 52
  if field = 2047 then (if fraction = 0 then .infinite negative else .nan)
  else if field = 0 then
    if fraction = 0 then .zero negative else .finite negative ⟨fraction, -1074⟩
  else .finite negative ⟨Nat.pow 2 52 + fraction, (field : Int) - 1075⟩

def parts (x : Float) : Parts := Parts.ofBits x.toBits

/-- A positive fraction. -/
structure Fraction where
  num : Nat
  den : Nat

def Fraction.dyadic (n : Nat) (e : Int) : Fraction := ⟨n * Nat.pow 2 e.toNat, Nat.pow 2 (-e).toNat⟩

/-- The reals that round to a number: the ends belong to them if the mantissa is even. Below a power
of two the numbers lie twice as close. -/
def lowEnd (d : Dyadic) : Fraction :=
  if d.mantissa = Nat.pow 2 52 then .dyadic (4 * d.mantissa - 1) (d.exponent - 2)
  else .dyadic (2 * d.mantissa - 1) (d.exponent - 1)

def highEnd (d : Dyadic) : Fraction := .dyadic (2 * d.mantissa + 1) (d.exponent - 1)

/-- Whether `n * 10 ^ e` rounds to a number. -/
def roundsTo (d : Dyadic) (n : Nat) (e : Int) : Bool :=
  let x : Fraction := ⟨n * Nat.pow 10 e.toNat, Nat.pow 10 (-e).toNat⟩
  let low := lowEnd d
  let high := highEnd d
  if d.mantissa % 2 = 0 then
    low.num * x.den ≤ x.num * low.den && x.num * high.den ≤ high.num * x.den
  else low.num * x.den < x.num * low.den && x.num * high.den < high.num * x.den

/-- The place of the first decimal digit: the largest `e` with `10 ^ e` at most the number. -/
def firstPlace (d : Dyadic) : Int :=
  let x := Fraction.dyadic d.mantissa d.exponent
  let guess : Int := (Nat.log2 d.mantissa + d.exponent) * 30103 / 100000
  -- The estimate is off by at most one.
  let atMost (e : Int) : Bool := Nat.pow 10 e.toNat * x.den ≤ x.num * Nat.pow 10 (-e).toNat
  if atMost (guess + 1) then guess + 1 else if atMost guess then guess else guess - 1

/-- The decimals with last digit at `10 ^ e` that round to the number and lie next to it, the nearer
one first; of two equally near the even one. -/
def neighbour? (d : Dyadic) (e : Int) : Option Nat :=
  let x := Fraction.dyadic d.mantissa d.exponent
  let num := x.num * Nat.pow 10 (-e).toNat
  let den := x.den * Nat.pow 10 e.toNat
  let below := num / den
  let rest := num % den
  let order :=
    if 2 * rest < den || (2 * rest = den && below % 2 = 0) then [below, below + 1]
    else [below + 1, below]
  order.find? fun n => roundsTo d n e

/-- The fewest digits that round to the number, and the power of ten they are multiplied with. -/
def shortest (d : Dyadic) : Nat × Int :=
  let top := firstPlace d
  let found := (List.range 17).findSome? fun k =>
    let e := top - (k : Nat)
    (neighbour? d e).map fun n => (n, e)
  found.getD (d.mantissa, 0)

end Invoicing.Binary64
