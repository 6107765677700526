import Invoicing.Fault

/-!
# Clocks

A `Clock` shows an instant that stands still until it is advanced or set. `Clock.today` is the day that
the clock shows in UTC.
-/

namespace Invoicing

/-- An instant, and the seconds that have passed since. -/
structure Clock where
  fixed : Timestamp
  advanced : Int
  placed : fixed.place.isSome
  deriving DecidableEq

namespace Clock

/-- A clock that shows an instant, whose place must be known. -/
def at? (t : Timestamp) : Except Fault Clock :=
  if placed : t.place.isSome then .ok ⟨t, 0, placed⟩ else .error .placelessClock

def noonOf (d : Date) : Clock := ⟨.utc (.noon d), 0, rfl⟩

/-- The day that clocks show unless told otherwise. -/
def firstDay : Date := ⟨2024, 1, 1, by decide, by decide, by decide⟩

/-- A clock that has not been told what to show. -/
def initial : Clock := noonOf firstDay

def now (c : Clock) : Except Fault Timestamp :=
  (c.fixed.move (c.advanced * 1000000)).mapError .calendar

/-- The instant shown, as a clock in UTC has it. -/
def nowUtc (c : Clock) : Except Fault Timestamp := do
  let t ← c.now
  match t.toUtc? with
  | some r => r.mapError .calendar
  | none => throw .placelessClock

def today (c : Clock) : Except Fault Date := c.nowUtc.map (·.date)

def advance (c : Clock) (seconds : Int) : Clock := { c with advanced := c.advanced + seconds }

/-- Lets days of 24 hours pass. -/
def advanceDays (c : Clock) (days : Int) : Clock := c.advance (days * 86400)

def set (_ : Clock) (t : Timestamp) : Except Fault Clock := at? t

end Clock

end Invoicing
