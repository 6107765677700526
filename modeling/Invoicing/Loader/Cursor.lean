/-!
# Cursors

A `Cursor` is a place in the text of a document: what follows it, and its line and column. Reading at
the end of the text yields `none`.
-/

namespace Invoicing.Yaml

def isBreak (c : Char) : Bool :=
  c = '\n' || c.toNat = 0x85 || c.toNat = 0x2028 || c.toNat = 0x2029

/-- A line break, or the end of the text. -/
def atBreak (c : Option Char) : Bool := c.all isBreak

/-- A space, a line break, or the end of the text. -/
def atSpace (c : Option Char) : Bool := c.all fun c => c = ' ' || isBreak c

/-- A space, a tab, a line break, or the end of the text. -/
def atBlank (c : Option Char) : Bool := c.all fun c => c = ' ' || c = '\t' || isBreak c

/-- Letters, digits, hyphen and underscore: the characters of names. -/
def isNameChar (c : Char) : Bool := c.isAlphanum || c = '-' || c = '_'

def hexValue? (c : Char) : Option Nat :=
  if c.isDigit then some (c.toNat - '0'.toNat)
  else if 'a' ≤ c ∧ c ≤ 'f' then some (c.toNat - 'a'.toNat + 10)
  else if 'A' ≤ c ∧ c ≤ 'F' then some (c.toNat - 'A'.toNat + 10)
  else none

def hexNumber? (cs : List Char) : Option Nat :=
  (cs.mapM hexValue?).map fun ds => ds.foldl (fun n d => 16 * n + d) 0

/-- The mark that may stand before a text. It takes no column. -/
def byteOrderMark : Char := Char.ofNat 0xfeff

/-- A place in a text. -/
structure Cursor where
  rest : List Char
  index : Nat
  line : Nat
  column : Nat

namespace Cursor

def start (cs : List Char) : Cursor := ⟨cs, 0, 0, 0⟩

/-- The character at the place, unless the text is at its end. -/
def peek (c : Cursor) : Option Char := c.rest.head?

def peekAt (c : Cursor) (n : Nat) : Option Char := c.rest[n]?

def next (c : Cursor) : Cursor :=
  match c.rest with
  | [] => c
  | ch :: rest =>
    if isBreak ch then ⟨rest, c.index + 1, c.line + 1, 0⟩
    else ⟨rest, c.index + 1, c.line, if ch = byteOrderMark then c.column else c.column + 1⟩

def skip (c : Cursor) : Nat → Cursor
  | 0 => c
  | n + 1 => c.next.skip n

/-- The characters from here on that satisfy `p`, and the place behind them. -/
def span (c : Cursor) (p : Char → Bool) : List Char × Cursor :=
  let run := c.rest.takeWhile p
  (run, c.skip run.length)

/-- The place behind the characters that satisfy `p`. -/
def skipWhile (c : Cursor) (p : Char → Bool) : Cursor := (c.span p).2

def skipSpaces (c : Cursor) : Cursor := c.skipWhile (· = ' ')

/-- The place at the end of the line if a comment starts here. -/
def skipComment (c : Cursor) : Cursor :=
  if c.peek = some '#' then c.skipWhile (!isBreak ·) else c

/-- Reads a line break, if there is one: as a line feed, unless it is a break of its own kind. -/
def readBreak (c : Cursor) : List Char × Cursor :=
  match c.peek with
  | some ch =>
    if ch = '\n' || ch.toNat = 0x85 then (['\n'], c.next)
    else if isBreak ch then ([ch], c.next)
    else ([], c)
  | none => ([], c)

/-- Whether three hyphens or three points stand here, and nothing right behind them. -/
def atSeparator (c : Cursor) : Bool :=
  match c.rest with
  | x :: y :: z :: rest => x = y && y = z && (x = '-' || x = '.') && atBlank rest.head?
  | _ => false

end Cursor

end Invoicing.Yaml
