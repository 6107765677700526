import Invoicing.Log.Context
import Invoicing.Log.Template
import Invoicing.Value.Json

/-!
# Log records

A `Record` is one entry of the log: its envelope, the context fields bound when it was written, fields
of its own, and the error it reports, if any. `Record.payload` is the object that is written for it,
`Record.line?` its text. Context fields win over a record's own fields of the same names, the error's
fields over both.
-/

namespace Invoicing.Log

/-- An error as a record reports it. -/
structure Incident where
  typeName : String
  /-- The name of the type with that of the place it belongs to. -/
  qualifiedName : String
  message : String
  code : Option Value
  attributes : List (String × Value)
  /-- Remarks added to the error. -/
  notes : List String

namespace Incident

/-- An error of the domain; `none` if it cannot be raised with these values. -/
def ofKind? (kind : ErrorKind) (values : List Value) : Option Incident :=
  (kind.describe? values).map fun r =>
    ⟨kind.name, "billing_kernel.exceptions." ++ kind.name, r.message, some (.text kind.code),
      r.attributes, []⟩

/-- An error of another type, which has neither code nor attributes. Where `quotes` is set, an error
with one value shows how that value is written. -/
def plain (typeName : String) (quotes : Bool) (values : List Value) : Incident :=
  let message := match quotes, values with
    | true, [v] => v.written
    | _, _ => ErrorKind.plainMessage values
  ⟨typeName, typeName, message, none, [], []⟩

/-- The error of a type that is made of some values; `none` if it cannot be raised with these. `quotes` is
for types that are none of the domain's, as for `plain`. -/
def named? (typeName : String) (quotes : Bool) (values : List Value) : Option Incident :=
  match ErrorKind.ofName? typeName with
  | some kind => ofKind? kind values
  | none => some (plain typeName quotes values)

/-- Type and message in a line, then the remarks. -/
def traceback (i : Incident) : String :=
  let first := if i.message = "" then i.qualifiedName else i.qualifiedName ++ ": " ++ i.message
  String.intercalate "\n" (first :: i.notes)

/-- The fields that a record shows of an error. -/
def fields (i : Incident) : List (String × Value) :=
  [("exc_type", .text i.typeName), ("exc_message", .text i.message)] ++
    (i.code.map fun c => ("exc_code", c)).toList ++
    ((i.attributes.filter fun a => !a.1.startsWith "_").map fun a => ("exc_" ++ a.1, a.2))

end Incident

def loggerName (name : String) : String := "billing_kernel." ++ name

/-- One entry of the log. -/
structure Record where
  /-- Seconds since 1970. -/
  created : Int
  level : Value
  logger : Value
  message : String
  context : List (String × String)
  extra : List (String × Value)
  incident : Option Incident

def ownNames : List String :=
  ["name", "msg", "args", "levelname", "levelno", "pathname", "filename", "module", "exc_info",
   "exc_text", "stack_info", "lineno", "funcName", "created", "msecs", "relativeCreated", "thread",
   "threadName", "processName", "process"]

def hiddenNames : List String := ownNames ++ ["message", "taskName"]

/-- Puts a field into an object: a name that is there keeps its place and takes the new value. -/
def putField (fields : List (String × Value)) (name : String) (v : Value) : List (String × Value) :=
  match fields with
  | [] => [(name, v)]
  | (n, w) :: rest => if n = name then (n, v) :: rest else (n, w) :: putField rest name v

/-- Day number of 1970-01-01. -/
def epochDay : Int := dayCount 1970 1 1

/-- The instant that lies some seconds after 1970 began. -/
def timeOf? (seconds : Int) : Option Timestamp :=
  (WallTime.ofCount? ((epochDay * 86400 + seconds) * 1000000)).map Timestamp.utc

namespace Record

/-- Time, level, logger and message. -/
def envelope (r : Record) : List (String × Value) :=
  [("ts", Value.ofText? ((timeOf? r.created).map Timestamp.iso)), ("level", r.level),
   ("logger", r.logger), ("message", .text r.message)]

/-- Envelope, context, and those own fields whose names are free. -/
def body (r : Record) : List (String × Value) :=
  let head := r.envelope ++ r.context.map fun (n, v) => (n, Value.text v)
  head ++ r.extra.filter fun f => !hiddenNames.contains f.1 && !head.any (·.1 = f.1)

def payload (r : Record) : List (String × Value) :=
  match r.incident with
  | none => r.body
  | some i =>
    (i.fields ++ [("traceback", Value.text i.traceback)]).foldl (fun fs (n, v) => putField fs n v) r.body

def line? (r : Record) : Option String := (Value.fields r.payload).json? .shown

end Record

/-- What a record is made of before its message is filled in. The own fields may replace parts of the
envelope. -/
structure Draft where
  created : Int
  level : String
  logger : String
  template : String
  values : List Value
  extra : List (String × Value)
  incident : Option Incident

namespace Draft

/-- The own field of a name, if there is one. -/
def own? (d : Draft) (name : String) : Option Value := d.extra.lookup name

def record (d : Draft) (context : Context) : Except Fault Record := do
  let template := match d.own? "msg" with
    | some v => v.shown
    | none => d.template
  let created ← match d.own? "created" with
    | none => pure d.created
    | some v =>
      match v.asInt? with
      | some n => pure n
      | none => throw .wrongKind
  if (timeOf? created).isNone then throw (.calendar .noSuchDate)
  let message ← Template.fill template d.values
  return ⟨created, (d.own? "levelname").getD (.text d.level),
    (d.own? "name").getD (.text d.logger), message, context.bound, d.extra, d.incident⟩

end Draft

end Invoicing.Log
