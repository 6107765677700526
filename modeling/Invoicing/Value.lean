import Invoicing.Calendar.Timestamp
import Invoicing.Currency
import Invoicing.Decimal.Text
import Invoicing.Identifier
import Invoicing.Binary64.Text

/-!
# Values

`Value` is what settings, log fields and error attributes hold: plain data of any shape with the
domain's own values at its leaves. `Value.isTrue` says which values count as given, `Value.sameAs`
and `Value.before?` compare keys of mappings.
-/

namespace Invoicing

/-- An amount of money. -/
structure Money where
  amount : Decimal
  currency : Currency
  deriving DecidableEq

/-- A value of any shape. -/
inductive Value where
  | null
  | flag (b : Bool)
  | int (n : Int)
  | real (x : Float)
  | text (s : String)
  | decimal (d : Decimal)
  | id (i : Id)
  | date (d : Date)
  | timestamp (t : Timestamp)
  | currency (c : Currency)
  | money (m : Money)
  /-- A member of an enumeration, which is also the text of its name. -/
  | member (family name : String)
  | bytes (bs : List UInt8)
  | list (xs : List Value)
  | tuple (xs : List Value)
  | set (xs : List Value)
  | mapping (entries : List (Value × Value))

namespace Value

instance : Inhabited Value := ⟨.null⟩

/-- Whether a value counts as given: not nothing, not zero, not empty. -/
def isTrue : Value → Bool
  | .null => false
  | .flag b => b
  | .int n => n != 0
  | .real x => x != 0.0
  | .text s => s != ""
  | .decimal d => !d.isZero
  | .member _ name => name != ""
  | .bytes bs => !bs.isEmpty
  | .list xs | .tuple xs | .set xs => !xs.isEmpty
  | .mapping entries => !entries.isEmpty
  | .id _ | .date _ | .timestamp _ | .currency _ | .money _ => true

def asText? : Value → Option String
  | .text s => some s
  | .member _ name => some name
  | _ => none

/-- The whole number of a value that is one; the truth values count as 0 and 1. -/
def asInt? : Value → Option Int
  | .int n => some n
  | .flag b => some (if b then 1 else 0)
  | _ => none

def kindName : Value → String
  | .null => "NoneType"
  | .flag _ => "bool"
  | .int _ => "int"
  | .real _ => "float"
  | .text _ => "str"
  | .decimal _ => "Decimal"
  | .id _ => "UUID"
  | .date _ => "date"
  | .timestamp _ => "datetime"
  | .currency _ => "Currency"
  | .money _ => "Money"
  | .member family _ => family
  | .bytes _ => "bytes"
  | .list _ => "list"
  | .tuple _ => "tuple"
  | .set _ => "set"
  | .mapping _ => "dict"

/-! ## Keys -/

/-- Compares two numbers of any kind; `none` if one of them is no number, or not a number. -/
def compareNumbers? (a b : Value) : Option Ordering :=
  match a, b with
  | .real x, .real y =>
    if x < y then some .lt else if y < x then some .gt else if x == y then some .eq else none
  | .real x, _ => b.asInt?.bind fun n => Binary64.compareInt? x n
  | _, .real y => a.asInt?.bind fun n => (Binary64.compareInt? y n).map Ordering.swap
  | _, _ => a.asInt?.bind fun m => b.asInt?.map fun n => compare m n

mutual

/-- Whether two values are the same key. Numbers are compared as numbers, whatever their kind. -/
def sameAs : Value → Value → Bool
  | .null, .null => true
  | .id i, .id j => i = j
  | .date d, .date e => d = e
  | .timestamp t, .timestamp u => t.same u
  | .decimal d, .decimal e => d.order? e == some .eq
  | .currency c, .currency d => c = d
  | .money m, .money n => m.currency = n.currency && m.amount.order? n.amount == some .eq
  | .bytes bs, .bytes cs => bs = cs
  | .tuple xs, .tuple ys => sameList xs ys
  | a, b =>
    match a.asText?, b.asText? with
    | some s, some t => s = t
    | _, _ => compareNumbers? a b == some .eq

def sameList : List Value → List Value → Bool
  | [], [] => true
  | x :: xs, y :: ys => sameAs x y && sameList xs ys
  | _, _ => false

end

def isNumber : Value → Bool
  | .flag _ | .int _ | .real _ => true
  | _ => false

/-- Whether a key comes before another; `none` if keys of these kinds have no order. A floating-point
number that is not a number comes neither before another number nor after it. -/
def before? (a b : Value) : Option Bool :=
  match a, b with
  | .date d, .date e => some (d < e)
  | .timestamp t, .timestamp u => t.before? u
  | .bytes bs, .bytes cs => some (bs < cs)
  | _, _ =>
    match a.asText?, b.asText? with
    | some s, some t => some (s < t)
    | _, _ =>
      if a.isNumber && b.isNumber then some (compareNumbers? a b == some .lt) else none

mutual

/-- Whether a value can be a key, or an element of a set. -/
def isKey : Value → Bool
  | .list _ | .set _ | .mapping _ => false
  | .decimal d => !d.isSignaling
  | .money m => !m.amount.isSignaling
  | .tuple xs => allKeys xs
  | _ => true

def allKeys : List Value → Bool
  | [] => true
  | x :: xs => isKey x && allKeys xs

end

def find? (entries : List (Value × Value)) (key : Value) : Option Value :=
  (entries.find? fun e => e.1.sameAs key).map (·.2)

/-- Puts an entry into a mapping: a key that is there keeps its place and takes the new value. -/
def insert (entries : List (Value × Value)) (key value : Value) : List (Value × Value) :=
  match entries with
  | [] => [(key, value)]
  | (k, v) :: rest => if k.sameAs key then (k, value) :: rest else (k, v) :: insert rest key value

def fields (entries : List (String × Value)) : Value :=
  .mapping (entries.map fun e => (.text e.1, e.2))

/-- A text, or nothing. -/
def ofText? (s : Option String) : Value := (s.map .text).getD .null

end Value

end Invoicing
