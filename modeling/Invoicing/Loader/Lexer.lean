import Invoicing.Loader.Scalar

/-!
# Lexer

A `Lexer` turns a text into tokens one at a time. A key may be written without an indicator, so that it
is known as a key only at the colon behind it: until then its place among the tokens is kept open
(`SimpleKey`), and tokens are read on. Blocks begin and end with the indent of their lines.
`Lexer.peek` and `Lexer.take` yield the tokens.
-/

namespace Invoicing.Yaml

/-- A place where a key may have begun. -/
structure SimpleKey where
  /-- Number of tokens before it. -/
  tokens : Nat
  /-- Whether nothing but a key can stand here. -/
  required : Bool
  index : Nat
  line : Nat
  column : Nat

structure Lexer where
  cursor : Cursor
  done : Bool
  /-- Number of open brackets; closing one too many makes it negative. -/
  depth : Int
  /-- The tokens read and not yet taken. -/
  queue : List Token
  taken : Nat
  /-- Column of the innermost block, and of those around it. -/
  indent : Int
  indents : List Int
  /-- Whether a key may begin here. -/
  keyAllowed : Bool
  /-- The places of possible keys, by their depths. -/
  keys : List (Int × SimpleKey)

namespace Lexer

def start (cs : List Char) : Lexer := ⟨.start cs, false, 0, [], 0, -1, [], true, []⟩

def inFlow (l : Lexer) : Bool := l.depth != 0

def push (l : Lexer) (t : Token) : Lexer := { l with queue := l.queue ++ [t] }

def skip (l : Lexer) (n : Nat) : Lexer := { l with cursor := l.cursor.skip n }

/-- Puts a token before the `n`-th of the tokens of the whole text. -/
def insert (l : Lexer) (n : Nat) (t : Token) : Lexer :=
  let position := n - l.taken
  { l with queue := l.queue.take position ++ t :: l.queue.drop position }

/-! ## Possible keys -/

/-- A key must end on its line, and within 1024 characters. -/
def isStale (l : Lexer) (k : SimpleKey) : Bool :=
  k.line != l.cursor.line || 1024 < l.cursor.index - k.index

/-- Gives up the places whose keys can no longer end. -/
def dropStale (l : Lexer) : Except Fault Lexer :=
  if l.keys.any fun e => l.isStale e.2 && e.2.required then .error .token
  else .ok { l with keys := l.keys.filter fun e => !l.isStale e.2 }

/-- Gives up the place at the present depth. -/
def dropKey (l : Lexer) : Except Fault Lexer :=
  match l.keys.lookup l.depth with
  | none => .ok l
  | some k =>
    if k.required then .error .token
    else .ok { l with keys := l.keys.filter (·.1 ≠ l.depth) }

/-- Notes that a key may begin here. -/
def saveKey (l : Lexer) : Except Fault Lexer :=
  if l.keyAllowed then do
    let c := l.cursor
    let required := !l.inFlow && l.indent == c.column
    let l ← l.dropKey
    return { l with
      keys := l.keys ++ [(l.depth, ⟨l.taken + l.queue.length, required, c.index, c.line, c.column⟩)] }
  else .ok l

/-- The first token that may have to wait for a key before it. -/
def firstKey? (l : Lexer) : Option Nat := (l.keys.map (·.2.tokens)).min?

/-! ## Indents -/

/-- Closes the blocks that are indented more than a column. -/
def unwind (l : Lexer) (column : Int) : Lexer :=
  if l.inFlow then l
  else
    let closed := (l.indent :: l.indents).takeWhile (column < ·)
    let left := (l.indent :: l.indents).drop closed.length
    { l with
      queue := l.queue ++ closed.map fun _ => .blockEnd
      indent := left.headD (-1)
      indents := left.tail }

/-- Opens a block at a column, unless there is one. -/
def addIndent (l : Lexer) (column : Int) : Option Lexer :=
  if l.indent < column then some { l with indent := column, indents := l.indent :: l.indents }
  else none

/-- Opens a block with a token at a column, unless there is one. -/
def openBlock (l : Lexer) (column : Int) (t : Token) : Lexer :=
  match l.addIndent column with
  | some l => l.push t
  | none => l

/-! ## Tokens -/

/-- Closes all blocks before a token that stands for itself. -/
def closeAll (l : Lexer) : Except Fault Lexer := do
  let l ← (l.unwind (-1)).dropKey
  return { l with keyAllowed := false }

def streamEnd (l : Lexer) : Except Fault Lexer := do
  let l ← l.closeAll
  return { l.push .streamEnd with keys := [], done := true }

def directive (l : Lexer) : Except Fault Lexer := do
  let l ← l.closeAll
  let (d, c) ← scanDirective.run l.cursor
  return { l.push (.directive d) with cursor := c }

/-- Three hyphens or points. -/
def separator (l : Lexer) (t : Token) : Except Fault Lexer := do
  let l ← l.closeAll
  return (l.skip 3).push t

def openFlow (l : Lexer) (t : Token) : Except Fault Lexer := do
  let l ← l.saveKey
  return { (l.skip 1).push t with depth := l.depth + 1, keyAllowed := true }

def closeFlow (l : Lexer) (t : Token) : Except Fault Lexer := do
  let l ← l.dropKey
  return { (l.skip 1).push t with depth := l.depth - 1, keyAllowed := false }

def flowEntry (l : Lexer) : Except Fault Lexer := do
  let l ← l.dropKey
  return { (l.skip 1).push .flowEntry with keyAllowed := true }

/-- Opens a block for an indicator outside brackets, where it must be allowed. -/
def beginBlock (l : Lexer) (t : Token) : Except Fault Lexer :=
  if l.inFlow then .ok l
  else if l.keyAllowed then .ok (l.openBlock l.cursor.column t)
  else .error .token

def blockEntry (l : Lexer) : Except Fault Lexer := do
  let l ← l.beginBlock .blockSequenceStart
  let l ← l.dropKey
  return { (l.skip 1).push .blockEntry with keyAllowed := true }

def key (l : Lexer) : Except Fault Lexer := do
  let l ← l.beginBlock .blockMappingStart
  let l ← l.dropKey
  return { (l.skip 1).push .key with keyAllowed := !l.inFlow }

/-- A colon: it makes a key of the place that was kept open, if there is one. -/
def value (l : Lexer) : Except Fault Lexer :=
  match l.keys.lookup l.depth with
  | some k =>
    let l := { l with keys := l.keys.filter (·.1 ≠ l.depth) }
    let l := l.insert k.tokens .key
    let l :=
      if l.inFlow then l
      else
        match l.addIndent k.column with
        | some l => l.insert k.tokens .blockMappingStart
        | none => l
    .ok { (l.skip 1).push .value with keyAllowed := false }
  | none => do
    let l ← l.beginBlock .blockMappingStart
    let l ← l.dropKey
    return { (l.skip 1).push .value with keyAllowed := !l.inFlow }

/-- A token that a key may begin with. -/
def scanned (l : Lexer) (scan : Scan Token) : Except Fault Lexer := do
  let l ← l.saveKey
  let (t, c) ← scan.run l.cursor
  return { l.push t with cursor := c, keyAllowed := false }

def block (l : Lexer) (fold : Bool) : Except Fault Lexer := do
  let l ← l.dropKey
  let (t, c) ← (scanBlock fold l.indent).run l.cursor
  return { l.push t with cursor := c, keyAllowed := true }

def plain (l : Lexer) : Except Fault Lexer := do
  let l ← l.saveKey
  let ((t, broke), c) ← (scanPlain l.inFlow (l.indent + 1)).run l.cursor
  return { l.push t with cursor := c, keyAllowed := broke }

/-! ## Dispatch -/

/-- Skips spaces, comments and line breaks. Behind a break outside brackets a key may begin. -/
def toNextToken : Nat → Lexer → Lexer
  | 0, l => l
  | fuel + 1, l =>
    let c := l.cursor.skipSpaces.skipComment
    let (lineBreak, d) := c.readBreak
    if lineBreak.isEmpty then { l with cursor := c }
    else toNextToken fuel { l with cursor := d, keyAllowed := l.keyAllowed || !l.inFlow }

/-- Skips the mark that may stand before the text. -/
def skipMark (l : Lexer) : Lexer :=
  if l.cursor.index = 0 && l.cursor.peek = some byteOrderMark then l.skip 1 else l

/-- Characters that no plain scalar begins with. -/
def isIndicator (c : Char) : Bool :=
  "-?:,[]\x7b\x7d#&*!|>'\"%@".toList.contains c || c.toNat = 0x60

def atPlain (l : Lexer) : Bool :=
  match l.cursor.peek with
  | none => false
  | some c =>
    !(atBlank (some c) || isIndicator c) ||
      (!atBlank (l.cursor.peekAt 1) && (c = '-' || !l.inFlow && (c = '?' || c = ':')))

/-- Reads the token that begins with a character. -/
def fetchAt (l : Lexer) (c : Char) : Except Fault Lexer :=
  let alone := atBlank (l.cursor.peekAt 1)
  let atStart := l.cursor.column = 0
  if c = '%' && atStart then l.directive
  else if c = '-' && atStart && l.cursor.atSeparator then l.separator .documentStart
  else if c = '.' && atStart && l.cursor.atSeparator then l.separator .documentEnd
  else if c = '[' then l.openFlow .flowSequenceStart
  else if c.toNat = 0x7b then l.openFlow .flowMappingStart
  else if c = ']' then l.closeFlow .flowSequenceEnd
  else if c.toNat = 0x7d then l.closeFlow .flowMappingEnd
  else if c = ',' then l.flowEntry
  else if c = '-' && alone then l.blockEntry
  else if c = '?' && (l.inFlow || alone) then l.key
  else if c = ':' && (l.inFlow || alone) then l.value
  else if c = '*' then l.scanned (return .alias (← scanAnchor))
  else if c = '&' then l.scanned (return .anchor (← scanAnchor))
  else if c = '!' then l.scanned scanTag
  else if c = '|' && !l.inFlow then l.block false
  else if c = '>' && !l.inFlow then l.block true
  else if c = '\'' || c = '"' then l.scanned (scanQuoted c)
  else if l.atPlain then l.plain
  else .error .token

/-- Reads the next token, with the blocks that end before it. -/
def fetch (l : Lexer) : Except Fault Lexer := do
  let l := toNextToken (l.cursor.rest.length + 1) l.skipMark
  let l ← l.dropStale
  let l := l.unwind l.cursor.column
  match l.cursor.peek with
  | none => l.streamEnd
  | some c => l.fetchAt c

/-- Reads tokens until it is known which one is first. -/
def ready : Nat → Lexer → Except Fault Lexer
  | 0, l => .ok l
  | fuel + 1, l =>
    if l.done then .ok l
    else if l.queue.isEmpty then do ready fuel (← l.fetch)
    else do
      let l ← l.dropStale
      if l.firstKey? = some l.taken then ready fuel (← l.fetch) else return l

/-- The first token, and the lexer that knows it. -/
def peek (l : Lexer) : Except Fault (Token × Lexer) := do
  let l ← ready (l.cursor.rest.length + 2) l
  return (l.queue.headD .streamEnd, l)

def take (l : Lexer) : Lexer := { l with queue := l.queue.tail, taken := l.taken + 1 }

end Lexer

end Invoicing.Yaml
