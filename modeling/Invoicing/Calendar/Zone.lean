/-!
# Time zones

A `Zone` is a first offset from UTC and the instants at which the offset changes. Offsets and
instants are in seconds, an instant being `86400 * day number + second of the day` in UTC.
`Zone.offsetAt` reads the offset in force at an instant, `Zone.offsetAtWall` at a wall-clock time.
Which zones there are, and when their clocks change, is not said here: `TimeZones` stands for any list
of them. A zone has finitely many changes, as dates end with the year 9999.
-/

namespace Invoicing

/-- From `instant` on the offset is `offset`. -/
structure OffsetChange where
  instant : Int
  offset : Int
  deriving DecidableEq

/-- A place's offsets from UTC over time. -/
structure Zone where
  name : String
  first : Int
  changes : List OffsetChange
  ordered : changes.Pairwise fun a b => a.instant < b.instant
  deriving DecidableEq

namespace Zone

/-- The zone whose clocks show UTC at all times. -/
def utc : Zone := ⟨"UTC", 0, [], .nil⟩

/-- Offset in force at an instant: that of the last change at or before it. -/
def offsetAt (z : Zone) (instant : Int) : Int :=
  go z.first z.changes
where
  go (current : Int) : List OffsetChange → Int
    | [] => current
    | c :: rest => if c.instant ≤ instant then go c.offset rest else current

/-- Offset that a wall-clock time is read with. A time that a change skips is read with the offset
before the change, and a time that comes twice with the earlier of its two offsets; with `later`
set, both go the other way. -/
def offsetAtWall (z : Zone) (wall : Int) (later : Bool) : Int :=
  go z.first z.changes
where
  go (current : Int) : List OffsetChange → Int
    | [] => current
    | c :: rest =>
      let shift := if later then min current c.offset else max current c.offset
      if c.instant + shift ≤ wall then go c.offset rest else current

end Zone

/-- The zones that names stand for, upper and lower case told apart. -/
class TimeZones where
  named? : String → Option Zone
  utc : named? "UTC" = some .utc

end Invoicing
