import Invoicing.Log.Level
import Invoicing.Log.Record

/-!
# Logging

`Logging` is the state of logging in a running program: the context, the bindings that are open, and who
receives records from which level on. Logging is configured once; until it is reset, later attempts
change nothing. `Logging.log` makes a record and says who receives it.
-/

namespace Invoicing.Log

/-- The state of logging. The level is kept as it was given, a whole number or a truth value. -/
structure Logging where
  context : Context
  /-- What the open bindings have saved, the innermost first. -/
  bindings : List Context.Saved
  configured : Bool
  level : Value
  /-- Whether records also go to whoever listens to all loggers. -/
  propagates : Bool
  /-- The numbers of the receivers. -/
  receivers : List Nat

namespace Logging

def defaultLevel : Value := .int Level.warning.number

def start : Logging := ⟨.empty, [], false, defaultLevel, true, []⟩

/-! ## Context -/

/-- Sets fields. Those before a value that cannot be written stay set. -/
def set (l : Logging) (values : List (String × Value)) : Except Fault Unit × Logging :=
  let (result, context) := Context.giveEach Context.setField l.context values
  (result, { l with context := context })

def clear (l : Logging) : Logging := { l with context := .empty }

/-- Opens a binding. There is none if one of its values cannot be written, and then nothing puts back
the fields that were bound before it. -/
def enter (l : Logging) (values : List (String × Value)) : Except Fault Unit × Logging :=
  match Context.giveEach Context.bindField (l.context, []) values with
  | (.ok (), context, saved) =>
    (.ok (), { l with context := context, bindings := saved :: l.bindings })
  | (.error f, context, _) => (.error f, { l with context := context })

def exit (l : Logging) : Logging :=
  match l.bindings with
  | [] => l
  | saved :: rest => { l with context := l.context.restore saved, bindings := rest }

/-! ## Configuration -/

/-- The level that a value says: a whole number, or the name of one. -/
def levelOf (v : Value) : Except Fault Value :=
  match v with
  | .int _ | .flag _ => .ok v
  | .text s =>
    match Level.numberOf? s with
    | some n => .ok (.int n)
    | none => .error .unknownLevel
  | _ => .error .wrongKind

/-- Configures logging for a receiver, unless that was done before. An attempt with a level that is none
counts as well. -/
def configure (l : Logging) (receiver : Nat) (level : Value) : Except Fault Unit × Logging :=
  if l.configured then (.ok (), l)
  else
    match levelOf level with
    | .error f => (.error f, { l with configured := true })
    | .ok v =>
      (.ok (), { l with
        configured := true
        level := v
        propagates := false
        receivers := l.receivers ++ [receiver] })

def reset (l : Logging) : Logging :=
  { l with configured := false, level := defaultLevel, propagates := true, receivers := [] }

/-! ## Records -/

/-- The level from which on records are made; without one of its own it is that of all programs. -/
def threshold (l : Logging) : Int :=
  match l.level.asInt? with
  | none => Level.warning.number
  | some n => if n = 0 then Level.warning.number else n

def isEnabled (l : Logging) (level : Int) : Bool := 0 < level && l.threshold ≤ level

def sendToAll (l : Logging) (r : Record) : List (Nat × Record) := l.receivers.map fun n => (n, r)

/-- The own field that has a name reserved for every record. -/
def reserved? (extra : List (String × Value)) : Option String :=
  (extra.find? fun f => f.1 = "message" || f.1 = "asctime" || ownNames.contains f.1).map (·.1)

/-- Logs a message of a level, with fields of its own and perhaps an error. -/
def log (l : Logging) (logger : String) (level : Int) (message : String)
    (extra : List (String × Value)) (incident : Option Incident) :
    Except Fault (List (Nat × Record)) :=
  if l.isEnabled level then
    match reserved? extra with
    | some name => .error (.reservedField name)
    | none =>
      .ok (l.sendToAll ⟨0, .text (Level.numberName level), .text (loggerName logger), message,
        l.context.bound, extra, incident⟩)
  else .ok []

/-- Sends on those of some records whose level is enabled. -/
def deliver (l : Logging) (records : List Record) : List (Nat × Record) :=
  (records.filter fun r =>
    ((r.level.asText?.bind Level.ofName?).map fun level => l.isEnabled level.number).getD false).flatMap
      l.sendToAll

end Logging

end Invoicing.Log
