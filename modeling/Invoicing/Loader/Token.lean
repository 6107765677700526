import Invoicing.Loader.Cursor
import Invoicing.Loader.Fault

/-!
# Tokens

The tokens that documents are made of. This module reads the short ones that have a text: directives,
anchors and tags. `Yaml/Scalar` reads scalars, `Yaml/Lexer` decides which token comes next.
-/

namespace Invoicing.Yaml

/-- A line that precedes a document. -/
inductive Directive where
  | version (major minor : Nat)
  | tag (handle start : String)
  | other
  deriving DecidableEq

inductive Token where
  | streamEnd
  | directive (d : Directive)
  | documentStart | documentEnd
  | blockSequenceStart | blockMappingStart | blockEnd
  | flowSequenceStart | flowSequenceEnd | flowMappingStart | flowMappingEnd
  | blockEntry | flowEntry
  | key | value
  | alias (name : String)
  | anchor (name : String)
  /-- A tag, perhaps with a handle that stands for its beginning. -/
  | tag (handle : Option String) (suffix : String)
  /-- A scalar; a plain one has neither quotes nor an indicator. -/
  | scalar (text : String) (plain : Bool)
  deriving DecidableEq

/-- Reading from a place in a text, which moves on. -/
abbrev Scan := StateT Cursor (Except Fault)

namespace Scan

def peek : Scan (Option Char) := return (← get).peek

def skip (n : Nat) : Scan Unit := modify (·.skip n)

def span (p : Char → Bool) : Scan (List Char) := modifyGet (·.span p)

def spaces : Scan Unit := modify (·.skipSpaces)

/-- Refuses a place whose character does not satisfy `p`. -/
def expect (p : Option Char → Bool) : Scan Unit := do
  if !p (← peek) then throw .token

end Scan

/-! ## Anchors and aliases -/

def scanName : Scan String := do
  let name ← Scan.span isNameChar
  if name.isEmpty then throw .token
  return String.ofList name

/-- What may stand right behind an anchor or an alias. -/
def endsAnchor (c : Option Char) : Bool :=
  atBlank c || c.any fun c => "?:,]\x7d%@".toList.contains c || c.toNat = 0x60

/-- Reads an anchor or an alias from its indicator on. -/
def scanAnchor : Scan String := do
  Scan.skip 1
  let name ← scanName
  Scan.expect endsAnchor
  return name

/-! ## Tags -/

/-- A character of a tag that stands for itself. -/
def isTagChar (c : Char) : Bool :=
  c.isAlphanum || "-;/?:@&=+$,_.!~*'()[]".toList.contains c

/-- Reads bytes written as a percent sign and two hexadecimal digits each. -/
def scanBytes : Nat → Scan (List UInt8)
  | 0 => return []
  | fuel + 1 => do
    match (← get).rest with
    | '%' :: high :: low :: _ =>
      match hexNumber? [high, low] with
      | some n =>
        Scan.skip 3
        return UInt8.ofNat n :: (← scanBytes fuel)
      | none => throw .token
    | '%' :: _ => throw .token
    | _ => return []

/-- Reads the text of a tag; bytes in it stand for characters. -/
def scanTagText : Nat → Scan (List Char)
  | 0 => return []
  | fuel + 1 => do
    let run ← Scan.span isTagChar
    if (← Scan.peek) = some '%' then
      let bytes ← scanBytes (← get).rest.length
      match String.fromUTF8? ⟨bytes.toArray⟩ with
      | none => throw .token
      | some s => return run ++ s.toList ++ (← scanTagText fuel)
    else return run

/-- Reads the text of a tag, which must have at least one character. -/
def scanTagUri : Scan String := do
  Scan.expect fun c => c.any fun c => c = '%' || isTagChar c
  return String.ofList (← scanTagText ((← get).rest.length + 1))

/-- Reads a handle: an exclamation mark, alone before a space, or a name between two. -/
def scanTagHandle : Scan String := do
  Scan.expect (· = some '!')
  Scan.skip 1
  if (← Scan.peek) = some ' ' then return "!"
  else
    let name ← Scan.span isNameChar
    Scan.expect (· = some '!')
    Scan.skip 1
    return String.ofList ('!' :: name ++ ['!'])

/-- Reads a tag from its exclamation mark on: a whole tag in angle brackets, the mark alone, or a suffix
behind a handle. -/
def scanTag : Scan Token := do
  let c ← get
  let token ←
    if c.peekAt 1 = some '<' then do
      Scan.skip 2
      let suffix ← scanTagUri
      Scan.expect (· = some '>')
      Scan.skip 1
      pure (Token.tag none suffix)
    else if atBlank (c.peekAt 1) then do
      Scan.skip 1
      pure (Token.tag none "!")
    else do
      let word := c.next.rest.takeWhile fun ch => ch != ' ' && !isBreak ch
      let handle ← if word.contains '!' then scanTagHandle else do Scan.skip 1; pure "!"
      pure (Token.tag (some handle) (← scanTagUri))
  Scan.expect atSpace
  return token

/-! ## Directives -/

def scanNumber : Scan Nat := do
  let digits ← Scan.span Char.isDigit
  if digits.isEmpty then throw .token
  return digits.foldl (fun n d => 10 * n + (d.toNat - '0'.toNat)) 0

/-- Reads two numbers with a point between them. -/
def scanVersion : Scan Directive := do
  Scan.spaces
  let major ← scanNumber
  Scan.expect (· = some '.')
  Scan.skip 1
  let minor ← scanNumber
  Scan.expect atSpace
  return .version major minor

def scanTagDirective : Scan Directive := do
  Scan.spaces
  let handle ← scanTagHandle
  Scan.expect (· = some ' ')
  Scan.spaces
  let start ← scanTagUri
  Scan.expect atSpace
  return .tag handle start

/-- Reads the rest of a line, which may hold a comment only. -/
def scanLineEnd : Scan Unit := do
  modify (·.skipSpaces.skipComment)
  Scan.expect atBreak
  modify (·.readBreak.2)

/-- Reads a directive from its percent sign on. -/
def scanDirective : Scan Directive := do
  Scan.skip 1
  let name ← scanName
  Scan.expect atSpace
  let directive ←
    if name = "YAML" then scanVersion
    else if name = "TAG" then scanTagDirective
    else do let _ ← Scan.span (!isBreak ·); pure .other
  scanLineEnd
  return directive

end Invoicing.Yaml
