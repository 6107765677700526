import Invoicing.Decimal.Arithmetic
import Invoicing.Text.Blank
import Invoicing.Text.Digit

/-!
# Decimals as text

`Decimal.text` writes the digits of the coefficient with a point where the exponent puts it, and with
a power of ten where that would need zeros. `Decimal.ofText?` reads it, and more generously: blanks
around, underscores between, the digits of any script.
-/

namespace Invoicing.Decimal

/-! ## Writing -/

/-- Digits of a coefficient with a point behind the first `point` of them, zeros filling up on the
left. -/
def pointed (digits : List Char) (point : Int) : List Char :=
  if point ≤ 0 then '0' :: '.' :: (List.replicate (-point).toNat '0' ++ digits)
  else if digits.length ≤ point then digits
  else digits.take point.toNat ++ '.' :: digits.drop point.toNat

def powerText (n : Int) : String := "E" ++ (if n < 0 then "-" else "+") ++ toString n.natAbs

/-- Plain up to six places left of the first digit of a fraction, otherwise as one digit, a point and
a power of ten. -/
def finiteText (coefficient : Nat) (exponent : Int) : String :=
  let digits := (toString coefficient).toList
  let point := exponent + digits.length
  if exponent ≤ 0 ∧ -6 < point then String.ofList (pointed digits point)
  else String.ofList (pointed digits 1) ++ (if point = 1 then "" else powerText (point - 1))

def text : Decimal → String
  | .finite n c e => (if n then "-" else "") ++ finiteText c e
  | .infinite n => (if n then "-" else "") ++ "Infinity"
  | .nan s n k =>
    (if n then "-" else "") ++ (if s then "sNaN" else "NaN") ++ (if k = 0 then "" else toString k)

/-! ## Reading -/

/-- The first digit of a readable number may have at most this place. -/
def maxReadableLeading : Int := 999999999999999999

def minReadableExponent : Int := -1999999999999999997

/-- The number, if its exponent is within the readable bounds. -/
def readable? (negative : Bool) (coefficient : Nat) (exponent : Int) : Option Decimal :=
  if leading coefficient exponent ≤ maxReadableLeading ∧ minReadableExponent ≤ exponent then
    some (.finite negative coefficient exponent)
  else none

/-- The digit of any script as an ASCII digit, ASCII as it is. -/
def asciiDigit? (c : Char) : Option Char :=
  if c.toNat = 0 then none
  else if c.toNat < 128 then some c
  else (Text.digit? c).map fun d => Nat.digitChar d

/-- Value of a run of digits, zero for none. -/
def value (digits : List Char) : Nat :=
  digits.foldl (fun n c => 10 * n + (c.toNat - '0'.toNat)) 0

/-- Reads the digits behind the letter E, with their sign. -/
def readPower? : List Char → Option Int
  | '+' :: cs => if !cs.isEmpty && cs.all Char.isDigit then some (value cs) else none
  | '-' :: cs => if !cs.isEmpty && cs.all Char.isDigit then some (-(value cs : Int)) else none
  | cs => if !cs.isEmpty && cs.all Char.isDigit then some (value cs) else none

/-- Reads digits with a point and a power of ten, each of the two perhaps missing. -/
def readFinite? (negative : Bool) (cs : List Char) : Option Decimal :=
  let whole := cs.takeWhile Char.isDigit
  let rest := cs.dropWhile Char.isDigit
  let (fraction, rest) := match rest with
    | '.' :: tail => (tail.takeWhile Char.isDigit, tail.dropWhile Char.isDigit)
    | _ => ([], rest)
  let digits := whole ++ fraction
  if digits.isEmpty then none
  else
    let power := match rest with
      | [] => some 0
      | 'e' :: tail => readPower? tail
      | 'E' :: tail => readPower? tail
      | _ => none
    power.bind fun n => readable? negative (value digits) (n - fraction.length)

/-- Reads a number behind its sign; the letters of words may be small or capital. -/
def readUnsigned? (negative : Bool) (cs : List Char) : Option Decimal :=
  let small := cs.map Char.toLower
  if small = "inf".toList ∨ small = "infinity".toList then some (.infinite negative)
  else if small.take 3 = "nan".toList ∧ (small.drop 3).all Char.isDigit then
    some (.nan false negative (value (small.drop 3)))
  else if small.take 4 = "snan".toList ∧ (small.drop 4).all Char.isDigit then
    some (.nan true negative (value (small.drop 4)))
  else readFinite? negative cs

/-- Reads a number, exactly. -/
def ofText? (s : String) : Option Decimal := do
  let cs ← ((Text.trimChars s.toList).filter (· ≠ '_')).mapM asciiDigit?
  match cs with
  | '+' :: rest => readUnsigned? false rest
  | '-' :: rest => readUnsigned? true rest
  | _ => readUnsigned? false cs

end Invoicing.Decimal
