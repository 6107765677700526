import Invoicing.Value

/-!
# Values as text

`Value.shown` is the text of a value as it appears within a sentence, `Value.written` the form that
also shows its kind: texts in quotes, domain values with their names. Inside lists and mappings
values are always written. `Value.isWritable` says which values have a text at all.
-/

namespace Invoicing

/-- A length of time in whole days and seconds, the seconds not negative. -/
def spanText (seconds : Int) : String :=
  let days := seconds / 86400
  let rest := seconds % 86400
  let parts :=
    (if days = 0 then [] else ["days=" ++ toString days]) ++
      (if rest = 0 then [] else ["seconds=" ++ toString rest])
  "datetime.timedelta(" ++ (if parts.isEmpty then "0" else String.intercalate ", " parts) ++ ")"

def Place.written : Place → String
  | .offset s => if s = 0 then "datetime.timezone.utc" else "datetime.timezone(" ++ spanText s ++ ")"
  | .zone z => "zoneinfo.ZoneInfo(key=" ++ Text.quoted z.name ++ ")"

def Date.written (d : Date) : String :=
  "datetime.date(" ++ toString d.year ++ ", " ++ toString d.month ++ ", " ++ toString d.day ++ ")"

/-- Date and time down to the last part that is not zero, minutes always, then the place. -/
def Timestamp.written (t : Timestamp) : String :=
  let seconds := t.wall.micros / 1000000
  let micros := t.wall.micros % 1000000
  let finer :=
    if micros ≠ 0 then [seconds % 60, micros] else if seconds % 60 ≠ 0 then [seconds % 60] else []
  let numbers := [t.date.year, t.date.month, t.date.day, seconds / 3600, seconds / 60 % 60] ++ finer
  "datetime.datetime(" ++ String.intercalate ", " (numbers.map toString) ++
    (if t.later then ", fold=1" else "") ++
    ((t.place.map fun p => ", tzinfo=" ++ p.written).getD "") ++ ")"

def Decimal.written (d : Decimal) : String := "Decimal('" ++ d.text ++ "')"

def Currency.written (c : Currency) : String := "Currency(" ++ Text.quoted c.code ++ ")"

def Money.text (m : Money) : String := m.amount.text ++ " " ++ m.currency.code

def Money.written (m : Money) : String :=
  "Money(" ++ m.amount.written ++ ", " ++ m.currency.written ++ ")"

def byteText (b : UInt8) : String :=
  let c := Char.ofNat b.toNat
  if c = '\\' then "\\\\"
  else if c = '\'' then "\\'"
  else if c = '\t' then "\\t"
  else if c = '\n' then "\\n"
  else if c = '\r' then "\\r"
  else if 32 ≤ b ∧ b < 127 then String.singleton c
  else "\\x" ++ Text.hexPadded 2 b.toNat

namespace Value

def flagText (b : Bool) : String := if b then "True" else "False"

mutual

def written : Value → String
  | .null => "None"
  | .flag b => flagText b
  | .int n => toString n
  | .real x => Binary64.text x
  | .text s => Text.quoted s
  | .decimal d => d.written
  | .id i => "UUID('" ++ i.text ++ "')"
  | .date d => d.written
  | .timestamp t => t.written
  | .currency c => c.written
  | .money m => m.written
  | .member family name => "<" ++ family ++ "." ++ name ++ ": '" ++ name ++ "'>"
  | .bytes bs => "b'" ++ String.join (bs.map byteText) ++ "'"
  | .list xs => "[" ++ String.intercalate ", " (writtenList xs) ++ "]"
  | .tuple [x] => "(" ++ written x ++ ",)"
  | .tuple xs => "(" ++ String.intercalate ", " (writtenList xs) ++ ")"
  | .set [] => "set()"
  | .set xs => "\x7b" ++ String.intercalate ", " (writtenList xs) ++ "\x7d"
  | .mapping entries => "\x7b" ++ String.intercalate ", " (writtenEntries entries) ++ "\x7d"

def writtenList : List Value → List String
  | [] => []
  | x :: xs => written x :: writtenList xs

def writtenEntries : List (Value × Value) → List String
  | [] => []
  | (k, v) :: rest => (written k ++ ": " ++ written v) :: writtenEntries rest

end

mutual

/-- Whether a value can be written: whole numbers with too many digits cannot. -/
def isWritable : Value → Bool
  | .int n => n.natAbs < Nat.pow 10 Text.maxDigits
  | .list xs | .tuple xs | .set xs => allWritable xs
  | .mapping entries => entriesWritable entries
  | _ => true

def allWritable : List Value → Bool
  | [] => true
  | x :: xs => isWritable x && allWritable xs

def entriesWritable : List (Value × Value) → Bool
  | [] => true
  | (k, v) :: rest => isWritable k && isWritable v && entriesWritable rest

end

def shown : Value → String
  | .text s => s
  | .decimal d => d.text
  | .id i => i.text
  | .date d => d.iso
  | .timestamp t => t.text " "
  | .currency c => c.code
  | .money m => m.text
  | .member family name => family ++ "." ++ name
  | v => v.written

end Value

end Invoicing
