import Invoicing.BillingModes
import Invoicing.Item
import Invoicing.Timeline
import Invoicing.Trace

/-!
# Proposals

What an account owes up to a target date, from its first event on, whatever has been invoiced before.
Each event of a subscription lasts up to the next one. It brings a fixed charge on its own day and, if
it is recurring, a charge for every cycle due. `BillingRules.propose` goes through all subscriptions for
which invoices are made.
-/

namespace Invoicing

/-- How charges are computed: the rounding of prorated amounts, and the strategies in force. An unknown
rounding mode rounds nothing. -/
structure BillingRules where
  rounding : Option RoundingMode
  modes : BillingModes

/-- What the charges of one proposal have in common. -/
structure Billing where
  account : Id
  target : Date
  currency : Value
  invoice : Option Id

namespace Billing

/-- The fixed charge of an event on its day, if it has a price and the day is due. -/
def fixedItem (b : Billing) (e : BillingEvent) (start : Date) : Run (Option Item) :=
  if b.target < start then return none
  else
    match e.fixedPrice with
    | none => return none
    | some price => do
      let amount ← Money.of (.decimal price) b.currency
      let item ← Item.fixed (← Run.mint) b.account e.subscription e.bundle e.plan e.phase start amount
        b.invoice
      return some item

/-- The amount for a number of periods at a rate, in whole minor units. -/
def cycleAmount (b : Billing) (rounding : Option RoundingMode) (count rate : Decimal) :
    Except Fault Money := do
  let exact ← (Decimal.mul working count rate).mapError .decimal
  let amount ← Money.of (.decimal exact) b.currency
  amount.round rounding

/-- The charge of a recurring event for a cycle. -/
def cycleItem (b : Billing) (rounding : Option RoundingMode) (e : BillingEvent) (rate : Decimal)
    (c : BillingCycle) : Run Item := do
  let amount ← b.cycleAmount rounding c.count rate
  Item.recurring (← Run.mint) b.account e.subscription e.bundle e.plan e.phase c.start c.finish amount
    rate b.invoice

variable [TimeZones]

/-- The recurring charges of an event that begins on `start` and lasts up to the event `next`. -/
def recurringItems (b : Billing) (rules : BillingRules) (calendar : AccountCalendar)
    (e : BillingEvent) (next : Option BillingEvent) (start : Date) : Run (List Item) :=
  if !e.isRecurring || b.target < start then return []
  else do
    let strategy ← rules.modes.get e.mode.name
    let finish ← next.mapM fun n => (calendar.dateOf n.effective : Except Fault Date)
    let cycles ← strategy.cycles start finish b.target e.cycleDay e.period
    match e.recurringPrice with
    | none => return []
    | some rate => cycles.mapM (b.cycleItem rules.rounding e rate)

def eventItems (b : Billing) (rules : BillingRules) (calendar : AccountCalendar) (e : BillingEvent)
    (next : Option BillingEvent) : Run (List Item) := do
  let start ← calendar.dateOf e.effective
  let fixed ← b.fixedItem e start
  let recurring ← b.recurringItems rules calendar e next start
  return fixed.toList ++ recurring

/-- The charges of a subscription's events, event by event. -/
def subscriptionItems (b : Billing) (rules : BillingRules) (calendar : AccountCalendar) :
    List BillingEvent → Run (List (BillingEvent × List Item))
  | [] => return []
  | e :: rest => do
    let items ← b.eventItems rules calendar e rest.head?
    return (e, items) :: (← b.subscriptionItems rules calendar rest)

def trace (b : Billing) (t : Timeline) (charges : List (BillingEvent × List Item)) :
    List (String × Value) :=
  [("account_id", .text b.account.text),
   ("invoice_id", .ofText? (b.invoice.map Id.text)),
   ("target_date", .text b.target.iso),
   ("item_count", .int (charges.flatMap (·.2)).length),
   ("skipped_subscriptions", .list (t.offTexts.map .text)),
   ("trace", .list (charges.map fun (e, items) =>
     .fields [("event", e.trace), ("items", .list (items.map Item.trace))]))]

/-- The currency of all charges: a text names one, other values are taken as they are. -/
def resolved (b : Billing) : Except Fault Billing :=
  if b.currency.asText?.isSome then
    (Currency.make b.currency).map fun c => { b with currency := .currency c }
  else .ok b

/-- The charges of all subscriptions of a timeline that are not marked off. -/
def items (b : Billing) (rules : BillingRules) (t : Timeline) : Run (List Item) :=
  if t.length = 0 then return []
  else do
    let b ← b.resolved
    let calendar ← t.accountCalendar
    let billed := t.bySubscription.filter fun (s, _) => !t.off.contains s
    let charges ← billed.mapM fun (_, events) => b.subscriptionItems rules calendar events
    let charges := charges.flatten
    Run.log .info "engines.item_generator" "invoice_items_generated" (b.trace t charges)
    return charges.flatMap (·.2)

end Billing

namespace BillingRules

def engine : Engine :=
  ⟨"item_generator", "1.0", "ItemGenerator.generate_items",
    ["account_id", "target_date", "currency"]⟩

/-- All items due up to a target date, in the order of the timeline. -/
def propose [TimeZones] (rules : BillingRules) (account : Id) (t : Timeline) (target : Date)
    (currency : Value) (invoice : Option Id) : Run (List Item) :=
  engine.traced [("account_id", .id account), ("target_date", .date target), ("currency", currency)]
    (Billing.items ⟨account, target, currency, invoice⟩ rules t)

end BillingRules

end Invoicing
