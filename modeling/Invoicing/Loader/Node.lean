import Invoicing.Loader.Form
import Invoicing.Loader.Lexer

/-!
# Nodes

A document is a tree of `Node`s, each with its tag: scalars, sequences and mappings. `Node.ofText` reads
the one document of a text. Anchors name nodes that aliases stand for later on.
-/

namespace Invoicing.Yaml

inductive Node where
  | scalar (tag text : String)
  | sequence (tag : String) (items : List Node)
  | mapping (tag : String) (entries : List (Node × Node))

namespace Node

instance : Inhabited Node := ⟨.scalar Tag.null ""⟩

def empty : Node := .scalar Tag.null ""

def tag : Node → String
  | .scalar t _ => t
  | .sequence t _ => t
  | .mapping t _ => t

end Node

/-- The state of reading a document: the tokens, what handles of tags stand for, and the nodes that have
anchors. -/
structure Composer where
  lexer : Lexer
  handles : List (String × String)
  anchors : List (String × Node)

abbrev Compose := StateT Composer (Except Fault)

namespace Compose

def peek : Compose Token := do
  let s ← get
  let (t, l) ← s.lexer.peek
  set { s with lexer := l }
  return t

def take : Compose Unit := modify fun s => { s with lexer := s.lexer.take }

/-- Gives a node the name of an anchor. -/
def name (anchor : Option String) (n : Node) : Compose Unit :=
  match anchor with
  | none => return
  | some a => modify fun s => { s with anchors := (a, n) :: s.anchors }

def checkFree (anchor : Option String) : Compose Unit := do
  let anchors := (← get).anchors
  if anchor.any fun a => (anchors.lookup a).isSome then throw .reference

/-! ## Properties -/

def tag? : Compose (Option (Option String × String)) := do
  match ← peek with
  | .tag handle suffix => take; return some (handle, suffix)
  | _ => return none

def anchor? : Compose (Option String) := do
  match ← peek with
  | .anchor a => take; return some a
  | _ => return none

/-- The whole name of a tag; its handle must be known. -/
def fullTag (tag : Option (Option String × String)) : Compose (Option String) := do
  match tag with
  | none => return none
  | some (none, suffix) => return some suffix
  | some (some handle, suffix) =>
    match (← get).handles.lookup handle with
    | some start => return some (start ++ suffix)
    | none => throw .structure

def properties : Compose (Option String × Option String) := do
  match ← anchor? with
  | some a => return (some a, ← fullTag (← tag?))
  | none =>
    match ← tag? with
    | some t => do
      let a ← anchor?
      return (a, ← fullTag (some t))
    | none => return (none, none)

/-- The mark alone is no tag, but says that a tag is to be found. -/
def isOpen (tag : Option String) : Bool := tag.all (· = "!")

def collectionTag (tag : Option String) (usual : String) : String :=
  if isOpen tag then usual else tag.getD usual

/-- The tag of a scalar: its own, or that of its form if it is plain or marked. -/
def scalarTag (tag : Option String) (text : String) (plain : Bool) : String :=
  match tag with
  | none => if plain then plainTag text else Tag.str
  | some t => if t = "!" then plainTag text else t

/-! ## Nodes -/

def scalar (anchor : Option String) (tag text : String) : Compose Node := do
  checkFree anchor
  name anchor (.scalar tag text)
  return .scalar tag text

/-- A collection with its anchor. While it is read, the anchor stands for a collection without any
content. -/
def collection (anchor : Option String) (bare : Node) (read : Compose Node) : Compose Node := do
  checkFree anchor
  name anchor bare
  let n ← read
  name anchor n
  return n

/-- Reads a node, unless the next token shows that none is written. -/
def unlessAt (ends : Token → Bool) (read : Compose Node) : Compose Node := do
  if ends (← peek) then return .empty else read

/-- Reads the value behind a colon, if there is a colon. -/
def valueUnlessAt (ends : Token → Bool) (read : Compose Node) : Compose Node := do
  match ← peek with
  | .value => take; unlessAt ends read
  | _ => return .empty

/-- Tokens behind an item of a block that is not written. -/
def endsItem (t : Token) : Bool := t = .blockEntry || t = .blockEnd

/-- Tokens behind a key or a value in a block that is not written. -/
def endsEntry (t : Token) : Bool := t = .key || t = .value || t = .blockEnd

/-- Tokens behind an item that is not indented and not written. -/
def endsUnindented (t : Token) : Bool := t = .blockEntry || endsEntry t

/-- Tokens behind a value between brackets that is not written. -/
def endsFlow (closing t : Token) : Bool := t = .flowEntry || t = closing

/-- Between brackets, all entries but the first stand behind a comma. -/
def comma (first : Bool) : Compose Unit := do
  if !first then
    match ← peek with
    | .flowEntry => take
    | _ => throw .structure

mutual

/-- Reads a node. In a block it may be a block itself, behind a key also a sequence that is not indented.
A node with an anchor or a tag may be empty. -/
def node : Nat → Bool → Bool → Compose Node
  | 0, _, _ => throw .structure
  | fuel + 1, inBlock, unindented => do
    match ← peek with
    | .alias a =>
      take
      match (← get).anchors.lookup a with
      | some n => return n
      | none => throw .reference
    | _ =>
      let (anchor, tag) ← properties
      let seqTag := collectionTag tag Tag.seq
      let mapTag := collectionTag tag Tag.map
      let sequence (read : Compose (List Node)) : Compose Node :=
        collection anchor (.sequence seqTag []) (return .sequence seqTag (← read))
      let mapping (read : Compose (List (Node × Node))) : Compose Node :=
        collection anchor (.mapping mapTag []) (return .mapping mapTag (← read))
      match ← peek, inBlock, unindented with
      | .blockEntry, _, true => sequence (unindentedItems fuel)
      | .scalar text plain, _, _ => take; scalar anchor (scalarTag tag text plain) text
      | .flowSequenceStart, _, _ => take; sequence (flowItems fuel true)
      | .flowMappingStart, _, _ => take; mapping (flowEntries fuel true)
      | .blockSequenceStart, true, _ => take; sequence (blockItems fuel)
      | .blockMappingStart, true, _ => take; mapping (blockEntries fuel)
      | _, _, _ =>
        if anchor.isSome || tag.isSome then scalar anchor (scalarTag tag "" tag.isNone) ""
        else throw .structure

def blockItems : Nat → Compose (List Node)
  | 0 => throw .structure
  | fuel + 1 => do
    match ← peek with
    | .blockEntry =>
      take
      let item ← unlessAt endsItem (node fuel true false)
      return item :: (← blockItems fuel)
    | .blockEnd => take; return []
    | _ => throw .structure

/-- Reads items that are not indented, up to a token that begins none. -/
def unindentedItems : Nat → Compose (List Node)
  | 0 => throw .structure
  | fuel + 1 => do
    match ← peek with
    | .blockEntry =>
      take
      let item ← unlessAt endsUnindented (node fuel true false)
      return item :: (← unindentedItems fuel)
    | _ => return []

/-- Reads the entries of a block up to its end. -/
def blockEntries : Nat → Compose (List (Node × Node))
  | 0 => throw .structure
  | fuel + 1 => do
    match ← peek with
    | .key =>
      take
      let k ← unlessAt endsEntry (node fuel true true)
      let v ← valueUnlessAt endsEntry (node fuel true true)
      return (k, v) :: (← blockEntries fuel)
    | .blockEnd => take; return []
    | _ => throw .structure

/-- Reads the items between square brackets. A key there makes a mapping of one entry. -/
def flowItems : Nat → Bool → Compose (List Node)
  | 0, _ => throw .structure
  | fuel + 1, first => do
    match ← peek with
    | .flowSequenceEnd => take; return []
    | _ =>
      comma first
      match ← peek with
      | .key =>
        take
        let k ← unlessAt (fun t => t = .value || endsFlow .flowSequenceEnd t) (node fuel false false)
        let v ← valueUnlessAt (endsFlow .flowSequenceEnd) (node fuel false false)
        return .mapping Tag.map [(k, v)] :: (← flowItems fuel false)
      | .flowSequenceEnd => take; return []
      | _ =>
        let item ← node fuel false false
        return item :: (← flowItems fuel false)

/-- Reads the entries between braces. A node without a key is a key without a value. -/
def flowEntries : Nat → Bool → Compose (List (Node × Node))
  | 0, _ => throw .structure
  | fuel + 1, first => do
    match ← peek with
    | .flowMappingEnd => take; return []
    | _ =>
      comma first
      match ← peek with
      | .key =>
        take
        let k ← unlessAt (fun t => t = .value || endsFlow .flowMappingEnd t) (node fuel false false)
        let v ← valueUnlessAt (endsFlow .flowMappingEnd) (node fuel false false)
        return (k, v) :: (← flowEntries fuel false)
      | .flowMappingEnd => take; return []
      | _ =>
        let k ← node fuel false false
        return (k, .empty) :: (← flowEntries fuel false)

end

/-! ## Documents -/

/-- What handles stand for unless a directive says otherwise. -/
def usualHandles : List (String × String) := [("!", "!"), ("!!", commonStart)]

def skipEnds : Nat → Compose Unit
  | 0 => return
  | fuel + 1 => do
    match ← peek with
    | .documentEnd => take; skipEnds fuel
    | _ => return

/-- Reads directives: a version at most once, and every handle at most once. -/
def directives : Nat → Bool → List (String × String) → Compose (List (String × String))
  | 0, _, handles => return handles
  | fuel + 1, versioned, handles => do
    match ← peek with
    | .directive (.version major _) =>
      take
      if versioned || major ≠ 1 then throw .structure
      directives fuel true handles
    | .directive (.tag handle start) =>
      take
      if (handles.lookup handle).isSome then throw .structure
      directives fuel versioned ((handle, start) :: handles)
    | .directive .other => take; directives fuel versioned handles
    | _ => return handles

/-- Reads the directives of a document and the mark of its start. -/
def documentHead (fuel : Nat) : Compose Unit := do
  let handles ← directives fuel false []
  match ← peek with
  | .documentStart => take
  | _ => throw .structure
  modify fun s => { s with handles := handles ++ usualHandles }

/-- Tokens before which a document has no content. -/
def endsDocument (t : Token) : Bool :=
  match t with
  | .directive _ | .documentStart | .documentEnd | .streamEnd => true
  | _ => false

/-- Reads the first document, if there is one. -/
def document? (fuel : Nat) : Compose (Option Node) := do
  match ← peek with
  | .directive _ | .documentStart | .streamEnd =>
    skipEnds fuel
    match ← peek with
    | .streamEnd => return none
    | _ =>
      documentHead fuel
      return some (← unlessAt endsDocument (node fuel true false))
  | _ => return some (← node fuel true false)

/-- Refuses a text that goes on behind its document. -/
def atEnd (fuel : Nat) : Compose Unit := do
  skipEnds fuel
  match ← peek with
  | .streamEnd => return
  | _ =>
    documentHead fuel
    throw .reference

/-- Reads a text that holds at most one document. -/
def single (fuel : Nat) : Compose (Option Node) := do
  match ← document? fuel with
  | none => return none
  | some n =>
    atEnd fuel
    return some n

end Compose

def Node.ofChars (cs : List Char) : Except Fault (Option Node) :=
  (Compose.single (8 * cs.length + 100)).run' ⟨.start cs, Compose.usualHandles, []⟩

end Invoicing.Yaml
