import Invoicing.Value
import Invoicing.Loader.Node

/-!
# Values of nodes

The value that a node stands for follows from its tag. Collections are filled level by level, so that of
several faults in a document the one nearest to the root is found, and on one level the first. A `Built`
value carries the first fault of every level.
-/

namespace Invoicing.Yaml

namespace Node

mutual

/-- The text of a scalar. A mapping stands for the scalar that its default value is. -/
def scalarText : Node → Except Fault String
  | .scalar _ s => .ok s
  | .sequence _ _ => .error .construction
  | .mapping _ entries => defaultText entries

/-- The text of the default value among some entries. -/
def defaultText : List (Node × Node) → Except Fault String
  | [] => .error .construction
  | (k, v) :: rest => if k.tag = Tag.value then scalarText v else defaultText rest

end

end Node

/-! ## Numbers -/

/-- Digits of any script as ASCII digits. -/
def asciiDigits (cs : List Char) : List Char :=
  cs.map fun c => if c.toNat < 128 then c else ((Text.digit? c).map Nat.digitChar).getD c

/-- Whether a mark for a base, `0` and a letter, stands at the beginning. -/
def baseMark? (base : Nat) (cs : List Char) : Bool :=
  match cs with
  | '0' :: c :: _ =>
    base = 2 && c.toLower = 'b' || base = 8 && c.toLower = 'o' || base = 16 && c.toLower = 'x'
  | _ => false

/-- Reads a whole number in a base; blanks may stand around it, a sign and a mark for the base before
it. -/
def readInt? (base : Nat) (cs : List Char) : Option Int :=
  let cs := asciiDigits (Text.trimChars cs)
  let negative := cs.head? = some '-'
  let digits := unsigned cs
  let digits := if baseMark? base digits then digits.drop 2 else digits
  if digits.isEmpty || base = 10 && Text.maxDigits < digits.length then none
  else
    match digits.mapM hexValue? with
    | none => none
    | some ds =>
      if ds.all (· < base) then
        let n : Int := (ds.foldl (fun n d => base * n + d) 0 : Nat)
        some (if negative then -n else n)
      else none

/-- Puts parts in base sixty together, the last one first. -/
def sixties (parts : List Int) : Int :=
  (parts.reverse.foldl (fun (sum, weight) d => (sum + d * weight, weight * 60)) (0, (1 : Int))).1

/-- The characters of a number without bars, and whether it is negative. -/
def signedDigits (s : String) : Except Fault (Bool × List Char) :=
  match s.toList.filter (· ≠ '_') with
  | [] => .error .noDigits
  | c :: rest => .ok (c = '-', if c = '-' || c = '+' then rest else c :: rest)

def intValue (s : String) : Except Fault Value := do
  let (negative, digits) ← signedDigits s
  let number (n : Option Int) : Except Fault Value :=
    match n with
    | some n => .ok (.int (if negative then -n else n))
    | none => .error .scalar
  match digits with
  | [] => throw .noDigits
  | ['0'] => return .int 0
  | '0' :: 'b' :: rest => number (readInt? 2 rest)
  | '0' :: 'x' :: rest => number (readInt? 16 rest)
  | '0' :: _ => number (readInt? 8 digits)
  | _ =>
    if digits.contains ':' then number ((((splitAtChar ':' digits).mapM (readInt? 10))).map sixties)
    else number (readInt? 10 digits)

/-- Puts floating-point parts in base sixty together, the last one first. -/
def realSixties (parts : List Float) : Float :=
  (parts.reverse.foldl
    (fun (sum, weight) d => (sum + d * Binary64.ofDecimal false weight 0, weight * 60))
    (0.0, (1 : Nat))).1

def realValue (s : String) : Except Fault Value := do
  let (negative, digits) ← signedDigits (s.map Char.toLower)
  let number (x : Option Float) : Except Fault Value :=
    match x with
    | some x => .ok (.real (if negative then -x else x))
    | none => .error .scalar
  let text := String.ofList digits
  if text = ".inf" then number (some (1.0 / 0.0))
  else if text = ".nan" then return .real (0.0 / 0.0)
  else if digits.contains ':' then
    number (((splitAtChar ':' digits).mapM fun part => Binary64.ofText? (String.ofList part)).map
      realSixties)
  else number (Binary64.ofText? text)

/-! ## Other scalars -/

def truthValue (s : String) : Except Fault Value :=
  match truthWords.lookup (s.map Char.toLower) with
  | some b => .ok (.flag b)
  | none => .error .noTruthWord

/-- Microseconds of the first six digits of a fraction. -/
def microsOf (fraction : List Char) : Nat :=
  let digits := fraction.take 6
  numberOf (digits ++ List.replicate (6 - digits.length) '0')

/-- The place of an offset, which must be less than a day. -/
def placeOf : Option (Bool × Nat × Nat) → Except Fault (Option Place)
  | none => .ok none
  | some (negative, hours, minutes) =>
    let seconds : Int := hours * 3600 + minutes * 60
    if seconds < 86400 then .ok (some (.offset (if negative then -seconds else seconds)))
    else .error .scalar

def timeValue (s : String) : Except Fault Value :=
  let cs := s.toList
  match readTimeParts? (if cs.getLast? = some '\n' then cs.dropLast else cs) with
  | none => .error .noTimestamp
  | some p =>
    match p.time with
    | none =>
      match Date.of? p.year p.month p.day with
      | some d => .ok (.date d)
      | none => .error .scalar
    | some (hour, minute, second, fraction) => do
      let place ← placeOf p.offset
      let micros : Int := ((hour * 60 + minute) * 60 + second) * 1000000 + microsOf fraction
      match Date.of? p.year p.month p.day with
      | none => throw .scalar
      | some d =>
        if h : (0 ≤ micros ∧ micros < 86400000000) ∧ minute < 60 ∧ second < 60 then
          return .timestamp ⟨⟨d, micros, h.1⟩, place, false⟩
        else throw .scalar

def sixBits? (c : Char) : Option Nat :=
  if 'A' ≤ c ∧ c ≤ 'Z' then some (c.toNat - 'A'.toNat)
  else if 'a' ≤ c ∧ c ≤ 'z' then some (c.toNat - 'a'.toNat + 26)
  else if c.isDigit then some (c.toNat - '0'.toNat + 52)
  else if c = '+' then some 62
  else if c = '/' then some 63
  else none

/-- Reads characters in base 64 in groups of four, `place` of which have been read, with `bits` left from
the last. Two signs of equality, or one in the last place, end the text; other characters do not
count. -/
def readBytes (place bits signs : Nat) : List Char → Option (List UInt8)
  | [] => if place = 0 then some [] else none
  | c :: rest =>
    if c = '=' then
      if 2 ≤ place ∧ 4 ≤ place + signs + 1 then some []
      else readBytes place bits (if 2 ≤ place then signs + 1 else signs) rest
    else
      match sixBits? c with
      | none => readBytes place bits signs rest
      | some n =>
        match place with
        | 0 => readBytes 1 n 0 rest
        | 1 => (readBytes 2 (n % 16) 0 rest).map (UInt8.ofNat (bits * 4 + n / 16) :: ·)
        | 2 => (readBytes 3 (n % 4) 0 rest).map (UInt8.ofNat (bits * 16 + n / 4) :: ·)
        | _ => (readBytes 0 0 0 rest).map (UInt8.ofNat (bits * 64 + n) :: ·)

def bytesValue (s : String) : Except Fault Value :=
  if s.toList.any fun c => 128 ≤ c.toNat then .error .construction
  else
    match readBytes 0 0 0 s.toList with
    | some bytes => .ok (.bytes bytes)
    | none => .error .construction

/-- How the text of a scalar with a tag is read, if the tag is one for scalars. -/
def scalarReader? (tag : String) : Option (String → Except Fault Value) :=
  if tag = Tag.str then some fun s => .ok (.text s)
  else if tag = Tag.null then some fun _ => .ok .null
  else if tag = Tag.int then some intValue
  else if tag = Tag.bool then some truthValue
  else if tag = Tag.float then some realValue
  else if tag = Tag.timestamp then some timeValue
  else if tag = Tag.binary then some bytesValue
  else none

/-! ## Merging -/

mutual

/-- The entries of a mapping with those merged into it before its own. -/
def flatten (entries : List (Node × Node)) : Except Fault (List (Node × Node)) := do
  let (merged, own) ← separate entries
  return merged ++ own

/-- Merged entries, and all others. -/
def separate : List (Node × Node) → Except Fault (List (Node × Node) × List (Node × Node))
  | [] => .ok ([], [])
  | (k, v) :: rest => do
    if k.tag = Tag.merge then
      let more ← mergedEntries v
      let (merged, own) ← separate rest
      return (more ++ merged, own)
    else
      let k := match k with
        | .scalar t s => if t = Tag.value then .scalar Tag.str s else .scalar t s
        | k => k
      let (merged, own) ← separate rest
      return (merged, (k, v) :: own)

/-- The entries of a mapping, or of several mappings, the last one first. -/
def mergedEntries : Node → Except Fault (List (Node × Node))
  | .mapping _ entries => do
    let (merged, own) ← separate entries
    return merged ++ own
  | .sequence _ items => do
    let all ← mergedItems items
    return all.reverse.flatten
  | .scalar _ _ => .error .construction

def mergedItems : List Node → Except Fault (List (List (Node × Node)))
  | [] => .ok []
  | .mapping _ entries :: rest => do
    let (merged, own) ← separate entries
    return (merged ++ own) :: (← mergedItems rest)
  | _ :: _ => .error .construction

end

/-! ## Collections -/

/-- A value, and the first fault of every level on the way to it. -/
structure Built where
  value : Value
  faults : List (Option Fault)

namespace Built

/-- Level by level the first fault of two lists. -/
def merge : List (Option Fault) → List (Option Fault) → List (Option Fault)
  | [], bs => bs
  | as, [] => as
  | a :: as, b :: bs => (if a.isSome then a else b) :: merge as bs

def ofScalar : Except Fault Value → Built
  | .ok v => ⟨v, []⟩
  | .error f => ⟨.null, [some f]⟩

/-- A collection, whose content has some faults. -/
def collection (v : Value) (faults : List (Option Fault)) : Built := ⟨v, none :: faults⟩

/-- A collection that cannot be filled. -/
def unfilled : Built := collection .null [some .construction]

/-- The faults of all parts of a collection, in order. -/
def faultsOf (parts : List Built) : List (Option Fault) :=
  parts.foldl (fun faults p => merge faults p.faults) []

/-- The faults of keys and values; a key must be fit to be one. -/
def entryFaults (entries : List (Built × Built)) : List (Option Fault) :=
  entries.foldl
    (fun faults (k, v) =>
      merge (merge (merge faults k.faults) (if k.value.isKey then [] else [some .construction]))
        v.faults) []

/-- The mapping of some entries; of one key the last value counts. -/
def mappingOf (entries : List (Built × Built)) : List (Value × Value) :=
  entries.foldl (fun es (k, v) => Value.insert es k.value v.value) []

end Built

/-- The pair that a node of an ordered mapping is. -/
def pairOf? : Node → Option (Node × Node)
  | .mapping _ [e] => some e
  | _ => none

/-- The value of a node of at most some depth. -/
def build : Nat → Node → Built
  | 0, _ => .unfilled
  | fuel + 1, n =>
    match scalarReader? n.tag with
    | some read => .ofScalar (n.scalarText.bind read)
    | none =>
      let entriesOf (entries : List (Node × Node)) : Except Fault (List (Built × Built)) :=
        (flatten entries).map fun es => es.map fun (k, v) => (build fuel k, build fuel v)
      if n.tag = Tag.seq then
        match n with
        | .sequence _ items =>
          let parts := items.map (build fuel)
          .collection (.list (parts.map (·.value))) (Built.faultsOf parts)
        | _ => .unfilled
      else if n.tag = Tag.map || n.tag = Tag.set then
        match n with
        | .mapping _ entries =>
          match entriesOf entries with
          | .error f => .collection (.mapping []) [some f]
          | .ok es =>
            let m := Built.mappingOf es
            .collection (if n.tag = Tag.set then .set (m.map (·.1)) else .mapping m)
              (Built.entryFaults es)
        | _ => .collection (.mapping []) [some .construction]
      else if n.tag = Tag.omap || n.tag = Tag.pairs then
        match n with
        | .sequence _ items =>
          let parts := items.map fun i =>
            (pairOf? i).map fun (k, v) => (build fuel k, build fuel v)
          let valueOf (p : Option (Built × Built)) : Value :=
            match p with
            | some (k, v) => .tuple [k.value, v.value]
            | none => .null
          let faults := parts.map fun p =>
            match p with
            | some (k, v) => Built.merge k.faults v.faults
            | none => [some .construction]
          .collection (.list (parts.map valueOf)) (faults.foldl Built.merge [])
        | _ => .collection (.list []) [some .construction]
      else .ofScalar (.error .construction)

end Invoicing.Yaml
