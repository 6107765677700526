import Invoicing.Loader.Token

/-!
# Scalars

How the text of a scalar is read in its five forms: plain, between single or double quotes, and as a
block that keeps its line breaks or folds them. A line break within the other forms is folded as well:
one break counts as a space, each further one as a line feed.
-/

namespace Invoicing.Yaml

/-- What the breaks between two lines amount to: one line feed alone becomes a space. -/
def folded (first : List Char) (further : List Char) : List Char :=
  if first ≠ ['\n'] then first ++ further else if further.isEmpty then [' '] else further

/-! ## Plain scalars -/

/-- Characters that end a plain scalar between brackets. -/
def isFlowIndicator (c : Char) : Bool := ",[]\x7b\x7d".toList.contains c

/-- The part of a plain scalar up to a blank, or to what ends it. -/
def plainRun (inFlow : Bool) : List Char → List Char
  | [] => []
  | c :: rest =>
    if atBlank (some c) then []
    else if c = ':' && (atBlank rest.head? || inFlow && rest.head?.any isFlowIndicator) then []
    else if inFlow && (c = '?' || isFlowIndicator c) then []
    else c :: plainRun inFlow rest

/-- Reads the breaks and spaces at the beginnings of lines; `none` if a separator of documents stands at
the beginning of one. -/
def plainBreaks : Nat → Scan (Option (List Char))
  | 0 => return some []
  | fuel + 1 => do
    if (← get).atSeparator then return none
    Scan.spaces
    let (lineBreak, c) := (← get).readBreak
    if lineBreak.isEmpty then return some []
    set c
    return (← plainBreaks fuel).map (lineBreak ++ ·)

/-- Reads what stands between two parts of a plain scalar, and says whether a line ended there; without
anything to put between them the scalar is over. -/
def plainGap : Scan (List Char × Bool) := do
  let blanks ← Scan.span (· = ' ')
  let (lineBreak, c) := (← get).readBreak
  if lineBreak.isEmpty then return (blanks, false)
  set c
  match ← plainBreaks (c.rest.length + 1) with
  | none => return ([], true)
  | some further => return (folded lineBreak further, true)

/-- Reads a plain scalar part by part; `gap` stands before the next part. Also says whether the scalar
was followed by a line break. -/
def plainFrom (inFlow : Bool) (indent : Int) : Nat → List Char → Bool → Scan (List Char × Bool)
  | 0, _, broke => return ([], broke)
  | fuel + 1, gap, broke => do
    let c ← get
    let run := plainRun inFlow c.rest
    if c.peek = some '#' || run.isEmpty then return ([], broke)
    Scan.skip run.length
    let (next, broke) ← plainGap
    let c ← get
    if next.isEmpty || c.peek = some '#' || (!inFlow && c.column < indent) then
      return (gap ++ run, broke)
    let (rest, broke) ← plainFrom inFlow indent fuel next broke
    return (gap ++ run ++ rest, broke)

/-- Reads a plain scalar within a block of some indent, or between brackets. The answer also says whether
a line ended behind it. -/
def scanPlain (inFlow : Bool) (indent : Int) : Scan (Token × Bool) := do
  let (text, broke) ← plainFrom inFlow indent ((← get).rest.length + 1) [] false
  return (.scalar (String.ofList text) true, broke)

/-! ## Quoted scalars -/

/-- What letters behind a backslash stand for. -/
def escapes : List (Char × Nat) :=
  [('0', 0), ('a', 7), ('b', 8), ('t', 9), ('\t', 9), ('n', 10), ('v', 11), ('f', 12), ('r', 13),
   ('e', 27), (' ', 32), ('"', 34), ('\\', 92), ('/', 47), ('N', 0x85), ('_', 0xa0), ('L', 0x2028),
   ('P', 0x2029)]

/-- Number of hexadecimal digits behind a letter. -/
def escapeDigits : List (Char × Nat) := [('x', 2), ('u', 4), ('U', 8)]

/-- The character with a number. A number that only stands for half a character has none of its own. -/
def charOfNumber (n : Nat) : Except Fault Char :=
  if 0x7fffffff < n then .error .escapeTooLarge
  else if 0x10ffff < n then .error .scalar
  else if 0xd800 ≤ n ∧ n < 0xe000 then .ok (Char.ofNat 0xfffd)
  else .ok (Char.ofNat n)

/-- Reads the breaks and blanks at the beginnings of lines between quotes, where no separator of documents
may stand. -/
def quotedBreaks : Nat → Scan (List Char)
  | 0 => return []
  | fuel + 1 => do
    if (← get).atSeparator then throw .token
    let _ ← Scan.span fun c => c = ' ' || c = '\t'
    let (lineBreak, c) := (← get).readBreak
    if lineBreak.isEmpty then return []
    set c
    return lineBreak ++ (← quotedBreaks fuel)

def scanEscape : Scan (List Char) := do
  let c ← get
  match c.peek with
  | none => throw .token
  | some letter =>
    match escapes.lookup letter, escapeDigits.lookup letter with
    | some n, _ =>
      Scan.skip 1
      return [Char.ofNat n]
    | none, some count =>
      let digits := c.next.rest.take count
      match hexNumber? digits with
      | some n =>
        if digits.length < count then throw .token
        let ch ← charOfNumber n
        Scan.skip (count + 1)
        return [ch]
      | none => throw .token
    | none, none =>
      if isBreak letter then
        set c.readBreak.2
        quotedBreaks (c.rest.length + 1)
      else throw .token

/-- Reads characters between quotes up to a blank, a break or the closing quote. -/
def quotedRun (double : Bool) : Nat → Scan (List Char)
  | 0 => return []
  | fuel + 1 => do
    let run ← Scan.span fun c => !(c = '\'' || c = '"' || c = '\\' || atBlank (some c))
    let c ← get
    match double, c.rest with
    | false, '\'' :: '\'' :: _ =>
      Scan.skip 2
      return run ++ '\'' :: (← quotedRun double fuel)
    | true, '\'' :: _ =>
      Scan.skip 1
      return run ++ '\'' :: (← quotedRun double fuel)
    | false, ch :: _ =>
      if ch = '"' || ch = '\\' then
        Scan.skip 1
        return run ++ ch :: (← quotedRun double fuel)
      else return run
    | true, '\\' :: _ =>
      Scan.skip 1
      let escaped ← scanEscape
      return run ++ escaped ++ (← quotedRun double fuel)
    | _, _ => return run

/-- Reads blanks between quotes, or the breaks between two lines. The text may not end here. -/
def quotedGap : Scan (List Char) := do
  let blanks ← Scan.span fun c => c = ' ' || c = '\t'
  let c ← get
  if c.rest.isEmpty then throw .token
  let (lineBreak, c) := c.readBreak
  if lineBreak.isEmpty then return blanks
  set c
  return folded lineBreak (← quotedBreaks (c.rest.length + 1))

/-- Reads the inside of a quoted scalar, up to the closing quote. -/
def quotedFrom (double : Bool) (quote : Char) : Nat → Scan (List Char)
  | 0 => throw .token
  | fuel + 1 => do
    let run ← quotedRun double ((← get).rest.length + 1)
    if (← Scan.peek) = some quote then return run
    let gap ← quotedGap
    return run ++ gap ++ (← quotedFrom double quote fuel)

def scanQuoted (quote : Char) : Scan Token := do
  Scan.skip 1
  let text ← quotedFrom (quote = '"') quote ((← get).rest.length + 1)
  Scan.skip 1
  return .scalar (String.ofList text) false

/-! ## Block scalars -/

/-- What happens to the breaks at the end of a block: one is kept, all, or none. -/
inductive Chomping where
  | clip | keep | strip
  deriving DecidableEq

/-- Reads the sign that says what happens to the breaks at the end. -/
def scanChomping : Scan Chomping := do
  match ← Scan.peek with
  | some '+' => Scan.skip 1; return .keep
  | some '-' => Scan.skip 1; return .strip
  | _ => return .clip

/-- Reads the digit that says how far a block is indented; it may not be zero. -/
def scanIndentDigit : Scan (Option Nat) := do
  match ← Scan.peek with
  | some d =>
    if d = '0' then throw .token
    else if d.isDigit then
      Scan.skip 1
      return some (d.toNat - '0'.toNat)
    else return none
  | none => return none

/-- Reads both indicators of a block, in any order. -/
def scanBlockHeader : Scan (Chomping × Option Nat) := do
  let chomping ← scanChomping
  let digit ← scanIndentDigit
  let chomping ← if chomping = .clip && digit.isSome then scanChomping else pure chomping
  Scan.expect atSpace
  scanLineEnd
  return (chomping, digit)

/-- Reads empty lines at the beginning of a block, and finds the widest column of its spaces. -/
def blockStart : Nat → Nat → Scan (List Char × Nat)
  | 0, widest => return ([], widest)
  | fuel + 1, widest => do
    Scan.spaces
    let c ← get
    let widest := max widest c.column
    let (lineBreak, d) := c.readBreak
    if lineBreak.isEmpty then return ([], widest)
    set d
    let (rest, widest) ← blockStart fuel widest
    return (lineBreak ++ rest, widest)

def skipIndent (c : Cursor) (indent : Nat) : Cursor :=
  c.skip (min (c.rest.takeWhile (· = ' ')).length (indent - c.column))

/-- Reads empty lines within a block, and the indent of the line behind them. -/
def blockBreaks (indent : Nat) : Nat → Scan (List Char)
  | 0 => return []
  | fuel + 1 => do
    modify (skipIndent · indent)
    let (lineBreak, c) := (← get).readBreak
    if lineBreak.isEmpty then return []
    set c
    return lineBreak ++ (← blockBreaks indent fuel)

/-- Whether the lines of a block go on here. -/
def inBlock (c : Cursor) (indent : Nat) : Bool := c.column = indent && !c.rest.isEmpty

/-- A blank or a tab. -/
def atIndentedText (c : Option Char) : Bool := c = some ' ' || c = some '\t'

/-- Reads the lines of a block. The answer is its text, the break behind its last line, and the breaks of
the empty lines that follow. -/
def blockLines (fold : Bool) (indent : Nat) : Nat → Scan (List Char × List Char × List Char)
  | 0 => return ([], [], [])
  | fuel + 1 => do
    let indented := atIndentedText (← Scan.peek)
    let line ← Scan.span (!isBreak ·)
    let (lineBreak, c) := (← get).readBreak
    set c
    let breaks ← blockBreaks indent (c.rest.length + 1)
    let c ← get
    if inBlock c indent then
      let joined :=
        if fold && lineBreak = ['\n'] && !indented && !atIndentedText c.peek then
          (if breaks.isEmpty then [' '] else [])
        else lineBreak
      let (text, last, trailing) ← blockLines fold indent fuel
      return (line ++ joined ++ breaks ++ text, last, trailing)
    else return (line, lineBreak, breaks)

/-- Reads a block scalar from its indicator on, inside a block of some indent. -/
def scanBlock (fold : Bool) (outer : Int) : Scan Token := do
  Scan.skip 1
  let (chomping, digit) ← scanBlockHeader
  let least := max 1 (outer + 1).toNat
  let fuel := (← get).rest.length + 1
  let (breaks, indent) ← match digit with
    | some d => do
      let indent := least + d - 1
      pure (← blockBreaks indent fuel, indent)
    | none => do
      let (breaks, widest) ← blockStart fuel 0
      pure (breaks, max least widest)
  if inBlock (← get) indent then
    let (text, last, trailing) ← blockLines fold indent fuel
    let ending := match chomping with
      | .strip => []
      | .clip => last
      | .keep => last ++ trailing
    return .scalar (String.ofList (breaks ++ text ++ ending)) false
  else
    return .scalar (String.ofList (if chomping = .keep then breaks else [])) false

end Invoicing.Yaml
