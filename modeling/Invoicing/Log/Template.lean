import Invoicing.Fault

/-!
# Message templates

A template is a text with places marked by `%` that values are filled into, in order or by name:
`%s` a value's text, `%r` its written form, `%d`, `%x`, `%o` whole numbers, `%e`, `%f`, `%g` numbers
with a fraction, `%c` a character, each with flags, a least width and a precision. `Template.fill`
fills all places; values and places must match in number.
-/

namespace Invoicing.Log.Template

/-- What stands between `%` and the letter of a place. -/
structure Layout where
  left : Bool
  plus : Bool
  blank : Bool
  alternate : Bool
  zeros : Bool
  width : Nat
  precision : Option Nat

def pad (l : Layout) (s : String) : String :=
  let fill := String.ofList (List.replicate (l.width - s.length) ' ')
  if l.left then s ++ fill else fill ++ s

/-- The sign that goes before a number. -/
def signText (l : Layout) (negative : Bool) : String :=
  if negative then "-" else if l.plus then "+" else if l.blank then " " else ""

/-- Sign, mark of the base and digits, filled up to the width, with zeros behind the sign if so
asked. -/
def padNumber (l : Layout) (negative : Bool) (base digits : String) : String :=
  let head := signText l negative ++ base
  if l.zeros && !l.left then
    head ++ String.ofList (List.replicate (l.width - head.length - digits.length) '0') ++ digits
  else pad l (head ++ digits)

/-! ## Numbers with a fraction -/

/-- A magnitude rounded to `places` places behind the point, as a whole number of the last place. -/
def fixedDigits (x : Binary64.Fraction) (places : Int) : Nat :=
  roundDiv .halfEven false (x.num * Nat.pow 10 places.toNat)
    (x.den * Nat.pow 10 (-places).toNat)

/-- The digits of a number with a point before the last `places` of them. -/
def withPoint (l : Layout) (n places : Nat) : String :=
  let digits := zeroPadded (places + 1) n
  let whole := digits.toList.take (digits.length - places)
  let fraction := digits.toList.drop (digits.length - places)
  String.ofList whole ++
    (if places = 0 then (if l.alternate then "." else "") else "." ++ String.ofList fraction)

/-- A magnitude as `digits` significant digits and the place of the first. -/
def significant (d : Binary64.Dyadic) (digits : Nat) : Nat × Int :=
  let x := Binary64.Fraction.dyadic d.mantissa d.exponent
  let top := Binary64.firstPlace d
  let n := fixedDigits x (digits - 1 - top)
  if n = Nat.pow 10 digits then (n / 10, top + 1) else (n, top)

def power (letter : String) (n : Int) : String :=
  letter ++ (if n < 0 then "-" else "+") ++ zeroPadded 2 n.natAbs

/-- Takes zeros off the end of a fraction, and the point if nothing is left behind it. -/
def trimFraction (s : String) : String :=
  if s.toList.contains '.' then
    let cs := s.toList.reverse.dropWhile (· = '0')
    String.ofList (match cs with
      | '.' :: rest => rest.reverse
      | _ => cs.reverse)
  else s

/-- Digits of a magnitude in the form that `letter` asks for: `f` fixed, `e` with a power of ten, `g`
whichever is shorter. Without a magnitude the number is zero. -/
def magnitude (l : Layout) (letter : Char) (d : Option Binary64.Dyadic) : String :=
  let precision := l.precision.getD 6
  match letter with
  | 'f' =>
    let n := match d with
      | some d => fixedDigits (.dyadic d.mantissa d.exponent) precision
      | none => 0
    withPoint l n precision
  | 'e' =>
    let (n, top) := match d with
      | some d => significant d (precision + 1)
      | none => (0, 0)
    withPoint l n precision ++ power "e" top
  | _ =>
    let digits := max precision 1
    let (n, top) := match d with
      | some d => significant d digits
      | none => (0, 0)
    let tidy (s : String) : String := if l.alternate then s else trimFraction s
    if -4 ≤ top ∧ top < digits then
      let places := ((digits : Int) - 1 - top).toNat
      tidy (withPoint l n places)
    else tidy (withPoint l n (digits - 1)) ++ power "e" top

/-- A floating-point number in the form that `letter` asks for. -/
def realText (l : Layout) (letter : Char) (x : Float) : String :=
  let small := letter.toLower
  let capital (s : String) : String := if letter.isUpper then s.map Char.toUpper else s
  match Binary64.parts x with
  | .nan => padNumber l false "" (capital "nan")
  | .infinite n => padNumber l n "" (capital "inf")
  | .zero n => padNumber l n "" (capital (magnitude l small none))
  | .finite n d => padNumber l n "" (capital (magnitude l small (some d)))

/-! ## Whole numbers -/

def wholeOf : Value → Except Fault Int
  | .int n => .ok n
  | .flag b => .ok (if b then 1 else 0)
  | .real x =>
    match Binary64.parts x with
    | .zero _ => .ok 0
    | .finite n d => .ok (if n then -(Binary64.floorMagnitude d).1 else (Binary64.floorMagnitude d).1)
    | .infinite _ => .error .numberTooLarge
    | .nan => .error .notANumber
  | .decimal (.finite n c e) =>
    let whole : Int := (c * Nat.pow 10 e.toNat / Nat.pow 10 (-e).toNat : Nat)
    .ok (if n then -whole else whole)
  | .decimal (.infinite _) => .error .numberTooLarge
  | .decimal (.nan ..) => .error .notANumber
  | _ => .error .wrongKind

/-- A value as a floating-point number. A whole number must not lie beyond the largest of these. -/
def realOf : Value → Except Fault Float
  | .real x => .ok x
  | .int n =>
    let x := Binary64.ofDecimal (n < 0) n.natAbs 0
    match Binary64.parts x with
    | .infinite _ => .error .numberTooLarge
    | _ => .ok x
  | .flag b => .ok (if b then 1.0 else 0.0)
  | .decimal (.finite n c e) => .ok (Binary64.ofDecimal n c e)
  | .decimal (.infinite n) => .ok (if n then -(1.0 / 0.0) else 1.0 / 0.0)
  | .decimal (.nan signaling _ _) => if signaling then .error .notANumber else .ok (0.0 / 0.0)
  | _ => .error .wrongKind

/-- Whether a number fits a signed word of some bits. -/
def fitsBits (bits : Nat) (n : Int) : Bool :=
  let bound : Int := Nat.pow 2 (bits - 1)
  n < bound ∧ -bound ≤ n

/-- A whole number in a base, with at least as many digits as the precision says. -/
def intText (l : Layout) (n : Int) (base : Nat) (mark : String) (capital : Bool) : String :=
  let digits := String.ofList (Nat.toDigits base n.natAbs)
  let digits := if capital then digits.map Char.toUpper else digits
  let digits := String.ofList (List.replicate (l.precision.getD 0 - digits.length) '0') ++ digits
  padNumber l (n < 0) (if l.alternate then mark else "") digits

/-! ## Places -/

/-- A text in ASCII: other characters as numbers. -/
def asciiOnly (s : String) : String :=
  String.join (s.toList.map fun c =>
    if c.toNat < 128 then String.singleton c
    else if c.toNat ≤ 0xff then "\\x" ++ Text.hexPadded 2 c.toNat
    else if c.toNat ≤ 0xffff then "\\u" ++ Text.hexPadded 4 c.toNat
    else "\\U" ++ Text.hexPadded 8 c.toNat)

/-- One value in the form that a letter asks for. -/
def place (l : Layout) (letter : Char) (v : Value) : Except Fault String :=
  let cut (s : String) : String :=
    match l.precision with
    | some n => String.ofList (s.toList.take n)
    | none => s
  match letter with
  | 's' => .ok (pad l (cut v.shown))
  | 'r' => .ok (pad l (cut v.written))
  | 'a' => .ok (pad l (cut (asciiOnly v.written)))
  | 'c' =>
    match v with
    | .text s => if s.length = 1 then .ok (pad l s) else .error .wrongKind
    | _ =>
      match v.asInt? with
      | some n =>
        if 0 ≤ n ∧ n < 0x110000 then .ok (pad l (String.singleton (Char.ofNat n.toNat)))
        else .error .numberTooLarge
      | none => .error .wrongKind
  | 'd' | 'i' | 'u' => (wholeOf v).map fun n => intText l n 10 "" false
  | 'o' | 'x' | 'X' =>
    match v.asInt? with
    | some n =>
      .ok (if letter = 'o' then intText l n 8 "0o" false
        else intText l n 16 (if letter = 'X' then "0X" else "0x") (letter = 'X'))
    | none => .error .wrongKind
  | 'e' | 'E' | 'f' | 'F' | 'g' | 'G' => (realOf v).map (realText l letter)
  | _ => .error .badTemplate

/-- The values to fill in: in order, or one mapping for all. -/
structure Supply where
  rest : List Value
  mapping : Option (List (Value × Value))

def Supply.next (s : Supply) : Except Fault (Value × Supply) :=
  match s.rest with
  | v :: rest => .ok (v, { s with rest := rest })
  | [] => .error .wrongKind

/-- Reads a name up to the parenthesis that closes it. -/
def readName : Nat → List Char → Option (List Char × List Char)
  | _, [] => none
  | depth, c :: cs =>
    if c = ')' then
      if depth = 0 then some ([], cs) else (readName (depth - 1) cs).map fun (n, r) => (c :: n, r)
    else (readName (if c = '(' then depth + 1 else depth) cs).map fun (n, r) => (c :: n, r)

/-- Reads a number that fits a word of some bits, or takes it from the values where a star stands for
it. -/
def readNumber (bits : Nat) (s : Supply) (cs : List Char) :
    Except Fault (Option Int × Supply × List Char) :=
  match cs with
  | '*' :: rest => do
    let (v, s) ← s.next
    match v.asInt? with
    | some n => if fitsBits bits n then return (some n, s, rest) else throw .numberTooLarge
    | none => throw .wrongKind
  | _ =>
    let n := digitsValue? (cs.takeWhile Char.isDigit)
    if n.all fun n => fitsBits bits n then
      .ok (n.map Int.ofNat, s, cs.dropWhile Char.isDigit)
    else .error .badTemplate

def isFlag (c : Char) : Bool := c == '-' || c == '+' || c == ' ' || c == '#' || c == '0'

def fillPlace (s : Supply) (cs : List Char) : Except Fault (String × Supply × List Char) := do
  let (s, cs) ← match cs with
    | '(' :: rest =>
      match s.mapping, readName 0 rest with
      | none, _ => throw .wrongKind
      | some _, none => throw .badTemplate
      | some entries, some (name, rest) =>
        match Value.find? entries (.text (String.ofList name)) with
        | some v => pure ({ s with rest := [v] }, rest)
        | none => throw (.missingField (String.ofList name))
    | _ => pure (s, cs)
  let flags := cs.takeWhile isFlag
  let (width, s, cs) ← readNumber 64 s (cs.dropWhile isFlag)
  let (precision, s, cs) ← match cs with
    | '.' :: rest => do
      let (n, s, cs) ← readNumber 32 s rest
      pure (some (n.getD 0).toNat, s, cs)
    | _ => pure (none, s, cs)
  let cs := match cs with
    | c :: rest => if c = 'h' || c = 'l' || c = 'L' then rest else cs
    | [] => cs
  let n := width.getD 0
  let layout : Layout :=
    ⟨flags.contains '-' || n < 0, flags.contains '+', flags.contains ' ', flags.contains '#',
      flags.contains '0', n.natAbs, precision⟩
  match cs with
  | [] => throw .badTemplate
  | letter :: rest =>
    let (v, s) ← s.next
    let text ← place layout letter v
    return (text, s, rest)

/-- Fills all places of a text of at most `fuel` characters. -/
def fillAll : Nat → Supply → List Char → Except Fault String
  | 0, _, _ => .ok ""
  | fuel + 1, s, cs =>
    let plain := String.ofList (cs.takeWhile (· ≠ '%'))
    match cs.dropWhile (· ≠ '%') with
    | [] =>
      if s.rest.isEmpty || s.mapping.isSome then .ok plain else .error .wrongKind
    | _ :: '%' :: rest => (fillAll fuel s rest).map fun tail => plain ++ "%" ++ tail
    | _ :: rest => do
      let (text, s, rest) ← fillPlace s rest
      let tail ← fillAll fuel s rest
      return plain ++ text ++ tail

/-- Fills values into a template; without values the template is the text. -/
def fill (template : String) (values : List Value) : Except Fault String :=
  match values with
  | [] => .ok template
  | [.mapping (e :: es)] =>
    fillAll (template.length + 1) ⟨values, some (e :: es)⟩ template.toList
  | _ => fillAll (template.length + 1) ⟨values, none⟩ template.toList

end Invoicing.Log.Template
