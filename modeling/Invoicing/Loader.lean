import Invoicing.Config.Source
import Invoicing.Loader.Meaning

/-!
# A loader

The library reads documents with any `Loader`, and nothing else depends on this one. `Yaml.load` reads the
value of a text that holds one YAML document, in the form of version 1.1, as far as values are plain data.
A collection that contains itself has no such value; it is empty where it would come again.
-/

namespace Invoicing.Yaml

/-- Whether a character may occur in a document. -/
def isAllowed (c : Char) : Bool :=
  let n := c.toNat
  n = 9 || n = 10 || n = 13 || 0x20 ≤ n && n ≤ 0x7e || n = 0x85 || 0xa0 ≤ n && n ≤ 0xfffd ||
    0x10000 ≤ n

/-- Every way to end a line with carriage returns as a line feed. -/
def lineFeeds : List Char → List Char
  | [] => []
  | '\r' :: '\n' :: rest => '\n' :: lineFeeds rest
  | '\r' :: rest => '\n' :: lineFeeds rest
  | c :: rest => c :: lineFeeds rest

/-- The value of a text; a text without a document has none. -/
def load (text : String) : Except Fault Value :=
  let cs := lineFeeds text.toList
  if !cs.all isAllowed then .error .character
  else
    match Node.ofChars cs with
    | .error f => .error f
    | .ok none => .ok .null
    | .ok (some n) =>
      let built := build (cs.length + 100) n
      match built.faults.findSome? id with
      | some f => .error f
      | none => .ok built.value

def loader : Loader := fun text => (load text).mapError Fault.errorClass

end Invoicing.Yaml
