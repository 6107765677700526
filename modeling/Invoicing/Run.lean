import Invoicing.Log.Level
import Invoicing.Log.Record

/-!
# Runs

Billing operations mint ids and write log records, also when they fail. `Run` is a computation with a
`Session` that keeps both: the log context, the records so far and the number of ids minted. A fault
ends a run but keeps its records.
-/

namespace Invoicing

/-- What a run leaves behind besides its result. -/
structure Session where
  context : Log.Context
  /-- The records written, the first one first. -/
  journal : List Log.Record
  minted : Nat

namespace Session

/-- Nothing bound, nothing written, nothing minted. -/
def start : Session := ⟨.empty, [], 0⟩

end Session

/-- A computation that may fail, with a session. -/
abbrev Run := ExceptT Fault (StateM Session)

namespace Run

/-- Result and session of a run that starts with a session. -/
def from_ (r : Run α) (s : Session) : Except Fault α × Session := (ExceptT.run r).run s

/-- A result that needs no session. -/
def ofExcept (r : Except Fault α) : Run α := fun s => (r, s)

instance : MonadLift (Except Fault) Run := ⟨ofExcept⟩

instance : MonadLift (Except CalendarFault) Run := ⟨fun r => ofExcept (r.mapError .calendar)⟩

instance : MonadLift (Except DecimalSignal) Run := ⟨fun r => ofExcept (r.mapError .decimal)⟩

/-- An id that was not there before. -/
def mint : Run Id := fun s => (.ok (.minted s.minted), { s with minted := s.minted + 1 })

/-- As many new ids as asked for, by their numbers. -/
def mintMany (count : Nat) : Run (Nat → Id) := fun s =>
  (.ok fun i => .minted (s.minted + i), { s with minted := s.minted + count })

/-- Writes a record at a level, under the name of a logger. -/
def log (level : Log.Level) (logger message : String) (extra : List (String × Value)) : Run Unit :=
  fun s =>
    (.ok (), { s with
      journal := s.journal ++
        [⟨0, .text level.name, .text (Log.loggerName logger), message, s.context.bound, extra,
          none⟩] })

/-- Runs with some context fields bound, and puts back afterwards what they were, also after a
fault. -/
def within (fields : List (Log.Field × String)) (r : Run α) : Run α := fun s =>
  let (context, saved) := s.context.bind fields
  let (result, s) := r.from_ { s with context := context }
  (result, { s with context := s.context.restore saved })

end Run

end Invoicing
