/-!
# Faults of documents

Why a text is no document, by the level at which it fails.
-/

namespace Invoicing.Yaml

inductive Fault where
  /-- A character that no document may contain. -/
  | character
  /-- No token can start or end here. -/
  | token
  /-- The tokens do not form a document. -/
  | structure : Fault
  /-- An alias without its anchor, an anchor set twice, or more than one document. -/
  | reference
  /-- A node cannot be made into a value of its tag. -/
  | construction
  /-- A scalar has the form of its tag, but not a value. -/
  | scalar
  /-- A scalar is tagged as a truth value, but is no word for one. -/
  | noTruthWord
  /-- A scalar is tagged as a number, but has no characters. -/
  | noDigits
  /-- A scalar is tagged as a point in time, but does not look like one. -/
  | noTimestamp
  /-- The number of an escaped character does not fit a word. -/
  | escapeTooLarge
  deriving DecidableEq

/-- The class of errors that a fault belongs to. -/
def Fault.errorClass : Fault → String
  | character => "ReaderError"
  | token => "ScannerError"
  | .structure => "ParserError"
  | reference => "ComposerError"
  | construction => "ConstructorError"
  | scalar => "ValueError"
  | noTruthWord => "KeyError"
  | noDigits => "IndexError"
  | noTimestamp => "AttributeError"
  | escapeTooLarge => "OverflowError"

end Invoicing.Yaml
