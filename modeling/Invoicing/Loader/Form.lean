import Invoicing.Text.Blank
import Invoicing.Loader.Cursor

/-!
# Forms of plain scalars

A plain scalar without a tag takes the tag whose form its text has: a truth value, a number, nothing, a
point in time, or the marks for merging and for a default value. All other scalars are texts.
`plainTag` finds the tag.
-/

namespace Invoicing.Yaml

/-- What the names of the common tags begin with. -/
def commonStart : String := "tag:yaml.org,2002:"

namespace Tag

def null : String := commonStart ++ "null"
def bool : String := commonStart ++ "bool"
def int : String := commonStart ++ "int"
def float : String := commonStart ++ "float"
def timestamp : String := commonStart ++ "timestamp"
def merge : String := commonStart ++ "merge"
def value : String := commonStart ++ "value"
def str : String := commonStart ++ "str"
def seq : String := commonStart ++ "seq"
def map : String := commonStart ++ "map"
def set : String := commonStart ++ "set"
def omap : String := commonStart ++ "omap"
def pairs : String := commonStart ++ "pairs"
def binary : String := commonStart ++ "binary"

end Tag

/-! ## Truth values -/

def truthWords : List (String × Bool) :=
  [("yes", true), ("no", false), ("true", true), ("false", false), ("on", true), ("off", false)]

/-- Small letters, a capital first letter, or capitals throughout. -/
def inAnyCase (word : String) : List String := [word, word.capitalize, word.map Char.toUpper]

def isTruthWord (s : String) : Bool := truthWords.any fun w => (inAnyCase w.1).contains s

/-! ## Numbers -/

/-- The text behind a sign, if there is one. -/
def unsigned : List Char → List Char
  | '+' :: cs => cs
  | '-' :: cs => cs
  | cs => cs

def isDigitOrBar (c : Char) : Bool := c.isDigit || c = '_'

/-- A digit, then digits and bars. -/
def isBarred : List Char → Bool
  | [] => false
  | c :: rest => c.isDigit && rest.all isDigitOrBar

/-- A part of a number in sixties: one digit, or two of which the first is at most 5. -/
def isSixtieth : List Char → Bool
  | [a] => a.isDigit
  | [a, b] => '0' ≤ a && a ≤ '5' && b.isDigit
  | _ => false

/-- Splits at every occurrence of a character. -/
def splitAtChar (sep : Char) : List Char → List (List Char)
  | [] => [[]]
  | c :: rest =>
    match splitAtChar sep rest with
    | [] => [[c]]
    | part :: parts => if c = sep then [] :: part :: parts else (c :: part) :: parts

/-- A whole number: in base two, eight, ten, sixteen or sixty, bars between digits. -/
def isIntForm (s : List Char) : Bool :=
  match unsigned s with
  | ['0'] => true
  | '0' :: 'b' :: rest => !rest.isEmpty && rest.all fun c => c = '0' || c = '1' || c = '_'
  | '0' :: 'x' :: rest => !rest.isEmpty && rest.all fun c => (hexValue? c).isSome || c = '_'
  | '0' :: rest => rest.all fun c => '0' ≤ c && c ≤ '7' || c = '_'
  | digits =>
    match splitAtChar ':' digits with
    | whole :: sixtieths => isBarred whole && sixtieths.all isSixtieth
    | [] => false

/-- A power of ten, with its sign; it may be missing. -/
def isPowerForm : List Char → Bool
  | [] => true
  | e :: sign :: digits =>
    (e = 'e' || e = 'E') && (sign = '+' || sign = '-') && !digits.isEmpty && digits.all Char.isDigit
  | _ => false

/-- A fraction behind a point, perhaps with a power of ten. -/
def isFractionForm (cs : List Char) : Bool := isPowerForm (cs.dropWhile isDigitOrBar)

/-- Digits with a point in them, before which at least one must stand. -/
def isPointedForm (cs : List Char) : Bool :=
  cs.head?.any Char.isDigit &&
    match cs.dropWhile isDigitOrBar with
    | '.' :: rest => isFractionForm rest
    | _ => false

def isPointFirstForm : List Char → Bool
  | '.' :: d :: rest => d.isDigit && isFractionForm rest
  | _ => false

/-- A number in sixties with a point behind the last part. -/
def isSexagesimalForm (cs : List Char) : Bool :=
  match splitAtChar '.' cs with
  | [digits, fraction] =>
    fraction.all isDigitOrBar &&
      match splitAtChar ':' digits with
      | whole :: sixtieths => isBarred whole && !sixtieths.isEmpty && sixtieths.all isSixtieth
      | [] => false
  | _ => false

/-- A floating-point number, infinity, or what is not a number. -/
def isFloatForm (s : List Char) : Bool :=
  isPointedForm (unsigned s) || isPointFirstForm s || isSexagesimalForm (unsigned s) ||
    [".inf", ".Inf", ".INF"].any (·.toList = unsigned s) ||
    [".nan", ".NaN", ".NAN"].any (·.toList = s)

/-! ## Points in time -/

/-- The parts of a point in time as they are written. -/
structure TimeParts where
  year : Nat
  month : Nat
  day : Nat
  /-- Hour, minute, second and the digits of a fraction. -/
  time : Option (Nat × Nat × Nat × List Char)
  /-- Whether it is before UTC, and the hours and minutes of the offset. -/
  offset : Option (Bool × Nat × Nat)

def numberOf (digits : List Char) : Nat :=
  digits.foldl (fun n d => 10 * n + (d.toNat - '0'.toNat)) 0

/-- Reads between `least` and `most` digits, as many as there are. -/
def readDigits? (least most : Nat) (cs : List Char) : Option (Nat × List Char) :=
  let digits := (cs.takeWhile Char.isDigit).take most
  if digits.length < least then none else some (numberOf digits, cs.drop digits.length)

def readChar? (c : Char) : List Char → Option (List Char)
  | [] => none
  | d :: rest => if c = d then some rest else none

/-- Reads an offset from UTC, which may be missing, up to the end. -/
def readOffset? (cs : List Char) : Option (Option (Bool × Nat × Nat)) :=
  match cs.dropWhile fun c => c = ' ' || c = '\t' with
  | [] => if cs.isEmpty then some none else none
  | ['Z'] => some (some (false, 0, 0))
  | sign :: rest => do
    if sign ≠ '+' ∧ sign ≠ '-' then none
    let (hours, rest) ← readDigits? 1 2 rest
    let minutes ← match rest with
      | [] => some 0
      | ':' :: rest => do
        let (minutes, rest) ← readDigits? 2 2 rest
        if rest.isEmpty then some minutes else none
      | _ => none
    return some (sign = '-', hours, minutes)

/-- Reads a time of day, and the offset behind it. -/
def readClock? (cs : List Char) :
    Option ((Nat × Nat × Nat × List Char) × Option (Bool × Nat × Nat)) := do
  let (hour, rest) ← readDigits? 1 2 cs
  let (minute, rest) ← readDigits? 2 2 (← readChar? ':' rest)
  let (second, rest) ← readDigits? 2 2 (← readChar? ':' rest)
  let (fraction, rest) := match rest with
    | '.' :: rest => (rest.takeWhile Char.isDigit, rest.dropWhile Char.isDigit)
    | _ => ([], rest)
  return ((hour, minute, second, fraction), ← readOffset? rest)

/-- Reads a date, and a time behind it if there is one. -/
def readTimeParts? (cs : List Char) : Option TimeParts := do
  let (year, rest) ← readDigits? 4 4 cs
  let (month, rest) ← readDigits? 1 2 (← readChar? '-' rest)
  let (day, rest) ← readDigits? 1 2 (← readChar? '-' rest)
  match rest with
  | [] => return ⟨year, month, day, none, none⟩
  | c :: more =>
    let clock := if c = 'T' || c = 't' then more else rest.dropWhile fun c => c = ' ' || c = '\t'
    if clock.length = rest.length then none
    let (time, offset) ← readClock? clock
    return ⟨year, month, day, some time, offset⟩

/-- A date with all its digits, or a date with a time. -/
def isTimestampForm (s : List Char) : Bool :=
  match readTimeParts? s with
  | some p => p.time.isSome || s.length = 10
  | none => false

/-! ## Tags -/

/-- The tag of a plain scalar. A line feed at its end does not count. -/
def plainTag (s : String) : String :=
  let cs := s.toList
  let cs := if cs.getLast? = some '\n' then cs.dropLast else cs
  let text := String.ofList cs
  if isTruthWord text then Tag.bool
  else if isFloatForm cs then Tag.float
  else if isIntForm cs then Tag.int
  else if text = "<<" then Tag.merge
  else if text = "~" || text = "" || (inAnyCase "null").contains text then Tag.null
  else if isTimestampForm cs then Tag.timestamp
  else if text = "=" then Tag.value
  else Tag.str

example : plainTag "0o17" = Tag.str ∧ plainTag "1:30" = Tag.int ∧ plainTag "1e3" = Tag.str ∧
    plainTag "12." = Tag.float ∧ plainTag "2013-08-07" = Tag.timestamp := by decide +kernel

end Invoicing.Yaml
