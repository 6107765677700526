import Invoicing.Value.Text

/-!
# Values as JSON

`Value.json?` writes a value as JSON text in ASCII, with a blank after every comma and colon. What a
leaf without a form of its own in JSON stands for is the choice of a `Leaf`: `Leaf.domain` knows ids,
dates, timestamps and decimals, `Leaf.shown` takes the text of every value. `Value.plain` is what a
reader of the text gets back.
-/

namespace Invoicing

namespace Json

def unitEscape (n : Nat) : String := "\\u" ++ Text.hexPadded 4 n

/-- A character inside a string; above 16 bits it takes two units. -/
def escapeChar (c : Char) : String :=
  if c = '"' then "\\\""
  else if c = '\\' then "\\\\"
  else if c = '\n' then "\\n"
  else if c = '\r' then "\\r"
  else if c = '\t' then "\\t"
  else if c.toNat = 8 then "\\b"
  else if c.toNat = 12 then "\\f"
  else if 32 ≤ c.toNat ∧ c.toNat < 127 then String.singleton c
  else if c.toNat < 0x10000 then unitEscape c.toNat
  else
    let n := c.toNat - 0x10000
    unitEscape (0xd800 + n / 0x400) ++ unitEscape (0xdc00 + n % 0x400)

def quoted (s : String) : String := "\"" ++ String.join (s.toList.map escapeChar) ++ "\""

/-- A floating-point number; the values that are none have names. -/
def realText (x : Float) : String :=
  match Binary64.parts x with
  | .nan => "NaN"
  | .infinite n => if n then "-Infinity" else "Infinity"
  | _ => Binary64.text x

end Json

/-- The text that a leaf is written as; `none` if it cannot be written. -/
abbrev Leaf := Value → Option String

/-- Ids, decimals, and dates and timestamps in ISO form. -/
def Leaf.domain : Leaf
  | .id i => some i.text
  | .decimal d => some d.text
  | .date d => some d.iso
  | .timestamp t => some t.iso
  | _ => none

/-- Everything as it appears within a sentence. -/
def Leaf.shown : Leaf := fun v => some v.shown

namespace Value

/-- The text a key is written as; only texts, numbers, truth values and nothing can be keys. -/
def keyText? : Value → Option String
  | .text s => some s
  | .member _ name => some name
  | .int n => some (toString n)
  | .flag b => some (if b then "true" else "false")
  | .real x => some (Json.realText x)
  | .null => some "null"
  | _ => none

/-- Puts an entry in its place among sorted ones; `none` if the keys have no order. -/
def insertSorted? (x : Value × Value) : List (Value × Value) → Option (List (Value × Value))
  | [] => some [x]
  | y :: rest =>
    (before? x.1 y.1).bind fun isBefore =>
      if isBefore then some (x :: y :: rest) else (insertSorted? x rest).map (y :: ·)

/-- Entries sorted by their keys; `none` if the keys have no order. -/
def sortEntries? (entries : List (Value × Value)) : Option (List (Value × Value)) :=
  entries.foldlM (fun sorted x => insertSorted? x sorted) []

/-- The texts of all entries, joined by commas between brackets. -/
def bracketed (opening closing : String) (parts : List String) : String :=
  opening ++ String.intercalate ", " parts ++ closing

mutual

/-- JSON text of a value, its mappings in their own order. -/
def json? (leaf : Leaf) : Value → Option String
  | .null => some "null"
  | .flag b => some (if b then "true" else "false")
  | .int n => some (toString n)
  | .real x => some (Json.realText x)
  | .text s => some (Json.quoted s)
  | .member _ name => some (Json.quoted name)
  | .list xs => (jsonList? leaf xs).map (bracketed "[" "]")
  | .tuple xs => (jsonList? leaf xs).map (bracketed "[" "]")
  | .mapping entries => (jsonEntries? leaf entries).map (bracketed "\x7b" "\x7d")
  | .decimal d => (leaf (.decimal d)).map Json.quoted
  | .id i => (leaf (.id i)).map Json.quoted
  | .date d => (leaf (.date d)).map Json.quoted
  | .timestamp t => (leaf (.timestamp t)).map Json.quoted
  | .currency c => (leaf (.currency c)).map Json.quoted
  | .money m => (leaf (.money m)).map Json.quoted
  | .bytes bs => (leaf (.bytes bs)).map Json.quoted
  | .set xs => (leaf (.set xs)).map Json.quoted

def jsonList? (leaf : Leaf) : List Value → Option (List String)
  | [] => some []
  | x :: xs => (json? leaf x).bind fun s => (jsonList? leaf xs).map (s :: ·)

def jsonEntries? (leaf : Leaf) : List (Value × Value) → Option (List String)
  | [] => some []
  | (k, v) :: rest =>
    (keyText? k).bind fun key =>
      (json? leaf v).bind fun s =>
        (jsonEntries? leaf rest).map ((Json.quoted key ++ ": " ++ s) :: ·)

end

mutual

/-- The value with all its mappings sorted by their keys; `none` if keys have no order. -/
def sorted? : Value → Option Value
  | .list xs => (sortedList? xs).map .list
  | .tuple xs => (sortedList? xs).map .tuple
  | .mapping entries => (sortedEntries? entries).bind fun es => (sortEntries? es).map .mapping
  | v => some v

def sortedList? : List Value → Option (List Value)
  | [] => some []
  | x :: xs => (sorted? x).bind fun y => (sortedList? xs).map (y :: ·)

def sortedEntries? : List (Value × Value) → Option (List (Value × Value))
  | [] => some []
  | (k, v) :: rest => (sorted? v).bind fun w => (sortedEntries? rest).map ((k, w) :: ·)

end

mutual

/-- What is read back from the JSON text of a value. -/
def plain (leaf : Leaf) : Value → Value
  | .null => .null
  | .flag b => .flag b
  | .int n => .int n
  | .real x => .real x
  | .text s => .text s
  | .member _ name => .text name
  | .list xs => .list (plainList leaf xs)
  | .tuple xs => .list (plainList leaf xs)
  | .mapping entries => .mapping (plainEntries leaf entries)
  | .decimal d => ofText? (leaf (.decimal d))
  | .id i => ofText? (leaf (.id i))
  | .date d => ofText? (leaf (.date d))
  | .timestamp t => ofText? (leaf (.timestamp t))
  | .currency c => ofText? (leaf (.currency c))
  | .money m => ofText? (leaf (.money m))
  | .bytes bs => ofText? (leaf (.bytes bs))
  | .set xs => ofText? (leaf (.set xs))

def plainList (leaf : Leaf) : List Value → List Value
  | [] => []
  | x :: xs => plain leaf x :: plainList leaf xs

def plainEntries (leaf : Leaf) : List (Value × Value) → List (Value × Value)
  | [] => []
  | (k, v) :: rest => (ofText? (keyText? k), plain leaf v) :: plainEntries leaf rest

end

end Value

end Invoicing
