import Invoicing.Binary64.Shortest
import Invoicing.Text.Blank
import Invoicing.Text.Digit

/-!
# Floating-point numbers as text

`text` writes the shortest digits that read back, plainly for numbers from 0.0001 up to 10^16 and with
a power of ten otherwise. `ofText?` reads decimal notation, `nan` and `inf`.
-/

namespace Invoicing.Binary64

def trimDigits (cs : List Char) : List Char := (cs.reverse.dropWhile (· = '0')).reverse

/-- The digits with a point behind the first `point` of them, and a digit on either side of it. -/
def plain (digits : List Char) (point : Int) : String :=
  if point ≤ 0 then "0." ++ String.ofList (List.replicate (-point).toNat '0' ++ digits)
  else if digits.length ≤ point then
    String.ofList (digits ++ List.replicate (point.toNat - digits.length) '0') ++ ".0"
  else String.ofList (digits.take point.toNat) ++ "." ++ String.ofList (digits.drop point.toNat)

/-- One digit, a point and the others, and a power of ten of at least two digits. -/
def scientific (digits : List Char) (power : Int) : String :=
  let tail := digits.drop 1
  let shown := toString power.natAbs
  String.ofList (digits.take 1) ++ (if tail.isEmpty then "" else "." ++ String.ofList tail) ++
    (if power < 0 then "e-" else "e+") ++ (if shown.length < 2 then "0" ++ shown else shown)

def magnitudeText (d : Dyadic) : String :=
  let (n, e) := shortest d
  let all := (toString n).toList
  let point := e + all.length
  let digits := trimDigits all
  if -4 < point ∧ point ≤ 16 then plain digits point else scientific digits (point - 1)

/-- The shortest text that reads back as the number. -/
def text (x : Float) : String :=
  match parts x with
  | .zero n => if n then "-0.0" else "0.0"
  | .finite n d => (if n then "-" else "") ++ magnitudeText d
  | .infinite n => if n then "-inf" else "inf"
  | .nan => "nan"

/-! ## Reading -/

/-- The number `coefficient * 10 ^ power`, correctly rounded. -/
def ofDecimal (negative : Bool) (coefficient : Nat) (power : Int) : Float :=
  let size : Int := (toString coefficient).length + power
  let x :=
    if coefficient = 0 ∨ size < -400 then 0.0
    else if 400 < size then 1.0 / 0.0
    else Float.ofScientific coefficient (power < 0) power.natAbs
  if negative then -x else x

/-- Value of a run of digits, zero for none. -/
def digitsValue (cs : List Char) : Nat :=
  cs.foldl (fun n c => 10 * n + (c.toNat - '0'.toNat)) 0

/-- Takes underscores out, each of which must stand between two digits. -/
def joinDigits? : List Char → Option (List Char)
  | [] => some []
  | '_' :: _ => none
  | c :: '_' :: d :: rest =>
    if c.isDigit && d.isDigit then (joinDigits? (d :: rest)).map (c :: ·) else none
  | c :: rest => (joinDigits? rest).map (c :: ·)

def readPower? : List Char → Option Int
  | '-' :: cs => if !cs.isEmpty && cs.all Char.isDigit then some (-(digitsValue cs : Int)) else none
  | '+' :: cs => if !cs.isEmpty && cs.all Char.isDigit then some (digitsValue cs) else none
  | cs => if !cs.isEmpty && cs.all Char.isDigit then some (digitsValue cs) else none

def readUnsigned? (negative : Bool) (cs : List Char) : Option Float :=
  let small := cs.map Char.toLower
  if small = "inf".toList ∨ small = "infinity".toList then
    some (if negative then -(1.0 / 0.0) else 1.0 / 0.0)
  else if small = "nan".toList then some (0.0 / 0.0)
  else
    let whole := small.takeWhile Char.isDigit
    let rest := small.dropWhile Char.isDigit
    let (fraction, rest) := match rest with
      | '.' :: tail => (tail.takeWhile Char.isDigit, tail.dropWhile Char.isDigit)
      | _ => ([], rest)
    if (whole ++ fraction).isEmpty then none
    else
      let power := match rest with
        | [] => some 0
        | 'e' :: tail => readPower? tail
        | _ => none
      power.map fun n => ofDecimal negative (digitsValue (whole ++ fraction)) (n - fraction.length)

/-- Reads a number; blanks may stand around it. -/
def ofText? (s : String) : Option Float := do
  let ascii := (Text.trimChars s.toList).map fun c =>
    if c.toNat < 128 then c else ((Text.digit? c).map Nat.digitChar).getD c
  let cs ← joinDigits? ascii
  match cs with
  | '+' :: rest => readUnsigned? false rest
  | '-' :: rest => readUnsigned? true rest
  | _ => readUnsigned? false cs

/-! ## Comparison with whole numbers -/

/-- The whole number a magnitude rounds down to, and whether it is that number. -/
def floorMagnitude (d : Dyadic) : Nat × Bool :=
  let x := Fraction.dyadic d.mantissa d.exponent
  (x.num / x.den, x.num % x.den == 0)

/-- Compares a number with a whole number; `none` for NaN. -/
def compareInt? (x : Float) (n : Int) : Option Ordering :=
  match parts x with
  | .zero _ => some (compare 0 n)
  | .infinite negative => some (if negative then .lt else .gt)
  | .nan => none
  | .finite negative d =>
    let (whole, exact) := floorMagnitude d
    if negative then
      some (if exact then compare (-(whole : Int)) n else if -(whole : Int) ≤ n then .lt else .gt)
    else some (if exact then compare (whole : Int) n else if n ≤ whole then .gt else .lt)

end Invoicing.Binary64
