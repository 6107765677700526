import Invoicing.Digest.Sha256
import Invoicing.Run

/-!
# Traces of engine calls

An `Engine` is a calculation whose calls are told apart by some of their arguments. `fingerprint` is a
short digest of these arguments; `Engine.traced` logs it, together with the engine's name and version,
once a call has been answered.
-/

namespace Invoicing

namespace Fingerprint

mutual

/-- The text of a value that a digest is made of. Mappings are sorted by the texts of their keys. -/
def canonical : Value → String
  | .null => "null"
  | .member _ name => name
  | .list xs => "[" ++ String.intercalate "," (canonicalList xs) ++ "]"
  | .tuple xs => "[" ++ String.intercalate "," (canonicalList xs) ++ "]"
  | .mapping entries =>
    let sorted := (canonicalEntries entries).mergeSort fun a b => decide (a.1 ≤ b.1)
    "\x7b" ++ String.intercalate "," (sorted.map fun e => e.1 ++ ":" ++ e.2) ++ "\x7d"
  | v => v.shown

/-- The text of a value that stands behind a name; a member of an enumeration shows its family there. -/
def named : Value → String
  | .member family name => family ++ "." ++ name
  | v => canonical v

def canonicalList : List Value → List String
  | [] => []
  | x :: xs => canonical x :: canonicalList xs

def canonicalEntries : List (Value × Value) → List (String × String)
  | [] => []
  | (k, v) :: rest => (k.shown, named v) :: canonicalEntries rest

end

/-- Names with the arguments they have; a name without an argument has nothing. -/
def text (names : List String) (arguments : List (String × Value)) : String :=
  String.intercalate "|"
    (names.map fun n => n ++ "=" ++ named ((arguments.lookup n).getD .null))

end Fingerprint

/-- A short digest of the arguments with some names. -/
def fingerprint (names : List String) (arguments : List (String × Value)) : String :=
  String.ofList ((Sha256.hex (Fingerprint.text names arguments)).toList.take 16)

/-- A calculation whose calls are logged. -/
structure Engine where
  name : String
  version : String
  /-- What is called. -/
  function : String
  /-- The arguments that calls are told apart by. -/
  fields : List String

namespace Engine

/-- The digest of a call's arguments; empty for an engine whose calls are not told apart. -/
def fingerprintOf (e : Engine) (arguments : List (String × Value)) : String :=
  if e.fields.isEmpty then "" else fingerprint e.fields arguments

/-- Logs a call of an engine, once it has been answered. -/
def traced (e : Engine) (arguments : List (String × Value)) (call : Run α) : Run α := do
  let result ← call
  Run.log .info "engines.tracer" "BILLING_ENGINE_TRACE"
    [("trace_type", .text "BILLING_ENGINE_TRACE"), ("engine_name", .text e.name),
     ("engine_version", .text e.version),
     ("input_fingerprint", .text (e.fingerprintOf arguments)), ("function", .text e.function)]
  return result

end Engine

end Invoicing
