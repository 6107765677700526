import Invoicing.Event

/-!
# Timelines

A `Timeline` holds the billing events of one account in order: by instant, then by their position
among the events of that instant, then by the order in which they came in. What they are ordered by is
kept in a list of its own. An event that is there already is not taken again. The account's zone is
tied to the first event that ever came in.
-/

namespace Invoicing

/-- What an event is ordered by: its instant, its position among the events of that instant and the
number of events that came in before it. -/
structure TimelineKey where
  effective : Timestamp
  ordering : Int
  serial : Nat

/-- The zone that an account's dates are taken in, and the instant it was fixed at. -/
structure AccountCalendar where
  reference : Timestamp
  zone : String
  deriving DecidableEq

namespace AccountCalendar

variable [TimeZones]

def dateOf (c : AccountCalendar) (t : Timestamp) : Except Fault Date := localDate t c.zone

def referenceDate (c : AccountCalendar) : Except Fault Date := c.dateOf c.reference

end AccountCalendar

/-- The billing events of an account, with what concerns the account as a whole. -/
structure Timeline where
  accountOff : Bool
  recurringMode : BillingMode
  zone : String
  /-- Subscriptions for which no invoices are made, each once. -/
  off : List Id
  /-- What the events are ordered by, one after the other. -/
  keys : List TimelineKey
  events : List BillingEvent
  inserted : Nat
  calendar : Option AccountCalendar

namespace TimelineKey

/-- Keys are compared part by part, up to the first that differs. -/
def before (a b : TimelineKey) : Bool :=
  if a.effective.same b.effective then
    if a.ordering = b.ordering then a.serial < b.serial
    else a.ordering < b.ordering
  else (a.effective.before? b.effective).getD false

end TimelineKey

namespace Timeline

/-- Adds an element to a list in which every element stands once. -/
def addOnce (xs : List Id) (x : Id) : List Id := if x ∈ xs then xs else xs ++ [x]

def empty (accountOff : Bool) (recurringMode : BillingMode) (zone : String) (off : List Id) :
    Timeline :=
  ⟨accountOff, recurringMode, zone, off.foldl addOnce [], [], [], 0, none⟩

def length (t : Timeline) : Nat := t.events.length

def contains? (t : Timeline) (e : BillingEvent) : Except DecimalSignal Bool :=
  go t.events
where
  go : List BillingEvent → Except DecimalSignal Bool
    | [] => .ok false
    | x :: rest =>
      match x.equal? e with
      | .ok false => go rest
      | r => r

/-- The place behind all keys that are not after `k`, by bisection between `low` and `high`. -/
def place (keys : List TimelineKey) (k : TimelineKey) (low high : Nat) : Nat :=
  if low < high then
    let middle := (low + high) / 2
    if (keys[middle]?.map k.before).getD true then place keys k low middle
    else place keys k (middle + 1) high
  else low
termination_by high - low

/-- A list with one more element at a place. -/
def insertAt (xs : List α) (position : Nat) (x : α) : List α :=
  xs.take position ++ x :: xs.drop position

/-- Takes an event in, unless it is there; the answer says whether it was taken. Its key and the event
itself go to one place, each into its list. -/
def add (t : Timeline) (e : BillingEvent) : Except DecimalSignal (Bool × Timeline) :=
  match t.contains? e with
  | .error s => .error s
  | .ok true => .ok (false, t)
  | .ok false =>
    let key := ⟨e.effective, e.ordering, t.inserted⟩
    let position := place t.keys key 0 t.keys.length
    .ok (true, { t with
      keys := insertAt t.keys position key
      events := insertAt t.events position e
      inserted := t.inserted + 1
      calendar := some (t.calendar.getD ⟨e.effective, t.zone⟩) })

/-- Takes events in one after the other, up to the first that cannot be compared. The answer says
whether any was taken. -/
def addAll (t : Timeline) : List BillingEvent → Except DecimalSignal Bool × Timeline
  | [] => (.ok false, t)
  | e :: rest =>
    match t.add e with
    | .error s => (.error s, t)
    | .ok (added, t) =>
      let (r, t) := t.addAll rest
      (r.map (added || ·), t)

/-- No invoices are made for a subscription from now on. -/
def markOff (t : Timeline) (subscription : Id) : Timeline :=
  { t with off := addOnce t.off subscription }

def accountCalendar (t : Timeline) : Except Fault AccountCalendar :=
  match t.calendar with
  | some c => .ok c
  | none => .error .noEvents

/-- The subscriptions in the order of their first events. -/
def subscriptions (t : Timeline) : List Id :=
  t.events.foldl (fun ids e => addOnce ids e.subscription) []

def eventsOf (t : Timeline) (subscription : Id) : List BillingEvent :=
  t.events.filter (·.subscription = subscription)

/-- Puts an event into the group of its subscription; the group of a new one comes last. -/
def putEvent (groups : List (Id × List BillingEvent)) (e : BillingEvent) :
    List (Id × List BillingEvent) :=
  if groups.any (·.1 = e.subscription) then
    groups.map fun g => if g.1 = e.subscription then (g.1, g.2 ++ [e]) else g
  else groups ++ [(e.subscription, [e])]

/-- The events of each subscription, in the order of their first events. -/
def bySubscription (t : Timeline) : List (Id × List BillingEvent) := t.events.foldl putEvent []

/-- Puts a usage under its name; a name that is there keeps its place. -/
def putUsage (usages : List (String × Usage)) (u : Usage) : List (String × Usage) :=
  if usages.any (·.1 = u.name) then
    usages.map fun entry => if entry.1 = u.name then (u.name, u) else entry
  else usages ++ [(u.name, u)]

/-- All usages by their names; of one name the last. -/
def usages (t : Timeline) : List (String × Usage) :=
  (t.events.flatMap (·.usages)).foldl putUsage []

/-- The marked subscriptions as texts, sorted. -/
def offTexts (t : Timeline) : List String :=
  (t.off.map Id.text).mergeSort (fun a b => decide (a ≤ b))

def written (t : Timeline) : String :=
  "BillingEventTimeline(account_auto_invoice_off=" ++ Value.flagText t.accountOff ++
    ", subscription_ids_with_auto_invoice_off=" ++ (Value.list (t.offTexts.map .text)).written ++
    ", events=" ++ toString t.length ++ ")"

end Timeline

end Invoicing
