import Invoicing.Calendar.Month
import Invoicing.Calendar.Zone

/-!
# Timestamps

A `Timestamp` is the reading of a clock, to the microsecond, with or without the place the clock
stands at. With a place it denotes an instant (`Timestamp.instant`), counted in microseconds of UTC.
Moving a timestamp moves the clock's reading. `Timestamp.dateAt` is the calendar day that an instant
falls on elsewhere.
-/

namespace Invoicing

/-- A date and a time of day in microseconds. -/
structure WallTime where
  date : Date
  micros : Int
  micros_mem : 0 ≤ micros ∧ micros < 86400000000
  deriving DecidableEq

namespace WallTime

/-- Position of the reading on the line of all readings, in microseconds. -/
def count (w : WallTime) : Int := w.date.dayNumber * 86400000000 + w.micros

/-- The reading at a position, if it lies in the years 1 to 9999. -/
def ofCount? (n : Int) : Option WallTime :=
  (Date.ofDayNumber? (n / 86400000000)).map fun d =>
    ⟨d, n % 86400000000, Int.emod_nonneg _ (by decide), Int.emod_lt_of_pos _ (by decide)⟩

def midnight (d : Date) : WallTime := ⟨d, 0, by decide⟩

def noon (d : Date) : WallTime := ⟨d, 43200000000, by decide⟩

end WallTime

/-- What ties a clock's reading to UTC: a fixed offset in seconds, or the rules of a zone. -/
inductive Place where
  | offset (seconds : Int)
  | zone (z : Zone)
  deriving DecidableEq

/-- The place whose clocks show UTC. -/
def Place.utc : Place := .offset 0

/-- Offset in force at an instant, given in seconds. -/
def Place.offsetAt (p : Place) (instant : Int) : Int :=
  match p with
  | .offset s => s
  | .zone z => z.offsetAt instant

/-- Offset that a wall-clock time, given in seconds, is read with. -/
def Place.offsetAtWall (p : Place) (wall : Int) (later : Bool) : Int :=
  match p with
  | .offset s => s
  | .zone z => z.offsetAtWall wall later

/-- The reading of a clock. `later` chooses the second of two instants at which the clock of a zone
shows the same time. -/
structure Timestamp where
  wall : WallTime
  place : Option Place
  later : Bool
  deriving DecidableEq

namespace Timestamp

/-- A reading of a clock that shows UTC. -/
def utc (w : WallTime) : Timestamp := ⟨w, some .utc, false⟩

def date (t : Timestamp) : Date := t.wall.date

/-- Offset from UTC in seconds, unless the place is unknown. -/
def offset? (t : Timestamp) : Option Int :=
  t.place.map fun p => p.offsetAtWall (t.wall.count / 1000000) t.later

/-- The instant denoted, in microseconds of UTC. -/
def instant? (t : Timestamp) : Option Int :=
  t.offset?.map fun s => t.wall.count - s * 1000000

/-- The clock's reading moved by microseconds; of two instants with the same reading the first is
meant afterwards. -/
def move (t : Timestamp) (micros : Int) : Except CalendarFault Timestamp :=
  match WallTime.ofCount? (t.wall.count + micros) with
  | some w => .ok ⟨w, t.place, false⟩
  | none => .error .outOfRange

def onDate (t : Timestamp) (d : Date) : Timestamp := { t with wall := { t.wall with date := d } }

/-- What a clock at `p` shows at the instant of a timestamp read with offset `offset`. The instant
must have a reading in UTC as well. -/
def readingAt (t : Timestamp) (offset : Int) (p : Place) : Except CalendarFault WallTime :=
  let instant := t.wall.count - offset * 1000000
  match WallTime.ofCount? instant with
  | none => .error .outOfRange
  | some _ =>
    match WallTime.ofCount? (instant + p.offsetAt (instant / 1000000) * 1000000) with
    | none => .error .outOfRange
    | some w => .ok w

/-- The timestamp as a clock that shows UTC would have it; `none` if its place is unknown. -/
def toUtc? (t : Timestamp) : Option (Except CalendarFault Timestamp) :=
  t.offset?.map fun s =>
    if t.place = some .utc then .ok t else (t.readingAt s .utc).map utc

/-- The calendar day at `p`; `none` if the timestamp's own place is unknown. -/
def dateAt? (t : Timestamp) (p : Place) : Option (Except CalendarFault Date) :=
  t.offset?.map fun s =>
    if t.place = some p then .ok t.date else (t.readingAt s p).map (·.date)

/-! ## Comparison -/

/-- Whether the reading belongs to two instants, or to none. -/
def isAmbiguous (t : Timestamp) : Bool :=
  t.offset? != { t with later := !t.later }.offset?

/-- Readings of the same clock are compared as they stand, readings of different clocks as instants.
An ambiguous reading equals no reading of another clock. -/
def same (a b : Timestamp) : Bool :=
  if a.place = b.place then a.wall = b.wall
  else
    match a.instant?, b.instant? with
    | some x, some y => x = y && !a.isAmbiguous && !b.isAmbiguous
    | _, _ => false

/-- Whether `a` comes before `b`; `none` if only one of them has a place. -/
def before? (a b : Timestamp) : Option Bool :=
  if a.place = b.place then some (a.wall.count < b.wall.count)
  else
    match a.instant?, b.instant? with
    | some x, some y => some (x < y)
    | _, _ => none

/-! ## Written form -/

/-- Hours, minutes and seconds, and six digits of microseconds unless they are zero. -/
def timeText (t : Timestamp) : String :=
  let seconds := (t.wall.micros / 1000000).toNat
  let micros := (t.wall.micros % 1000000).toNat
  zeroPadded 2 (seconds / 3600) ++ ":" ++ zeroPadded 2 (seconds / 60 % 60) ++ ":" ++
    zeroPadded 2 (seconds % 60) ++ (if micros = 0 then "" else "." ++ zeroPadded 6 micros)

/-- Sign, hours and minutes of an offset, and its seconds unless they are zero. -/
def offsetText (seconds : Int) : String :=
  let n := seconds.natAbs
  (if seconds < 0 then "-" else "+") ++ zeroPadded 2 (n / 3600) ++ ":" ++
    zeroPadded 2 (n / 60 % 60) ++ (if n % 60 = 0 then "" else ":" ++ zeroPadded 2 (n % 60))

/-- Date and time around a separator, followed by the offset. -/
def text (t : Timestamp) (separator : String) : String :=
  t.date.iso ++ separator ++ t.timeText ++ (t.offset?.map offsetText).getD ""

def iso (t : Timestamp) : String := t.text "T"

/-- Reads hours, minutes, seconds and a fraction of up to six digits, as microseconds, and what
stands behind them. -/
def readTime? (cs : List Char) : Option (Int × List Char) :=
  match cs with
  | h1 :: h2 :: ':' :: m1 :: m2 :: ':' :: s1 :: s2 :: rest => do
    let hours ← digitsValue? [h1, h2]
    let minutes ← digitsValue? [m1, m2]
    let seconds ← digitsValue? [s1, s2]
    if hours < 24 ∧ minutes < 60 ∧ seconds < 60 then
      let whole : Int := (hours * 3600 + minutes * 60 + seconds) * 1000000
      match rest with
      | '.' :: tail =>
        let digits := (tail.takeWhile Char.isDigit).take 6
        let micros ← digitsValue? (digits ++ List.replicate (6 - digits.length) '0')
        if digits.isEmpty then none
        else some (whole + micros, tail.dropWhile Char.isDigit)
      | _ => some (whole, rest)
    else none
  | _ => none

/-- Reads an offset: nothing, `Z`, or a sign with hours, minutes and perhaps seconds. -/
def readOffset? (cs : List Char) : Option (Option Int) :=
  match cs with
  | [] => some none
  | ['Z'] => some (some 0)
  | sign :: h1 :: h2 :: ':' :: m1 :: m2 :: rest => do
    let hours ← digitsValue? [h1, h2]
    let minutes ← digitsValue? [m1, m2]
    let seconds ← match rest with
      | [] => some 0
      | [':', s1, s2] => digitsValue? [s1, s2]
      | _ => none
    let total : Int := hours * 3600 + minutes * 60 + seconds
    if 86400 ≤ total then none
    else if sign = '+' then some (some total)
    else if sign = '-' then some (some (-total))
    else none
  | _ => none

def ofIso? (s : String) : Option Timestamp := do
  let cs := s.toList
  let d ← Date.ofIso? (String.ofList (cs.take 10))
  match cs.drop 10 with
  | 'T' :: rest =>
    let (micros, rest) ← readTime? rest
    let offset ← readOffset? rest
    if h : 0 ≤ micros ∧ micros < 86400000000 then
      some ⟨⟨d, micros, h⟩, offset.map .offset, false⟩
    else none
  | _ => none

end Timestamp

end Invoicing
