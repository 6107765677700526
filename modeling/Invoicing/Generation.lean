import Invoicing.Clock
import Invoicing.Config
import Invoicing.Proposal
import Invoicing.Reconciliation

/-!
# Invoice generation

`Invoicer.generate` makes the next invoice of an account: it proposes what is due up to the target date,
reconciles that with all invoices so far and puts what is left into a new invoice. There is no invoice
if nothing is left. The target date may not lie too far ahead of today, and never before that of an
earlier invoice.
-/

namespace Invoicing

/-- What invoices are generated with. -/
structure Invoicer where
  clock : Clock
  config : Config
  rules : BillingRules

/-- What an invoice is asked for. -/
structure InvoiceRequest where
  account : Id
  timeline : Option Timeline
  /-- The invoices so far. -/
  issued : List Invoice
  target : Date
  currency : Value
  correlation : Option String

namespace Invoicer

/-- An invoicer whose charges are rounded as the configuration says. -/
def ofConfig (clock : Clock) (config : Config) (modes : BillingModes) : Invoicer :=
  ⟨clock, config, ⟨some config.rounding, modes⟩⟩

def logger : String := "services.invoice_assembler"

/-- Logs that there is no invoice, and why. -/
def skipped (reason : String) (fields : List (String × Value)) : Run Unit :=
  Run.log .info logger "invoice_generation_skipped" (("reason", .text reason) :: fields)

/-- Refuses a target date that lies more whole months ahead of today than the configuration allows. -/
def validate (v : Invoicer) (today target : Date) : Run Unit := do
  let months ← today.monthsBetween? target
  if v.config.maxMonths < months then
    Run.log .warning logger "invoice_target_date_rejected"
      [("today", .text today.iso), ("target_date", .text target.iso),
       ("max_months_in_future", .int v.config.maxMonths)]
    throw (.targetTooFar target v.config.maxMonths)

/-- The latest of a target date and those of some invoices. -/
def latestTarget (target : Date) : List Invoice → Date
  | [] => target
  | i :: rest => latestTarget (if target < i.target then i.target else target) rest

/-- The target date, raised to the latest one of the invoices so far. -/
def adjust (issued : List Invoice) (target : Date) : Run Date := do
  let adjusted := latestTarget target issued
  if adjusted ≠ target then
    Run.log .info logger "invoice_target_date_adjusted"
      [("requested_target_date", .text target.iso), ("adjusted_target_date", .text adjusted.iso)]
  return adjusted

variable [TimeZones]

/-- The invoice with an id for what is due and not yet invoiced, if there is anything. -/
def build (v : Invoicer) (r : InvoiceRequest) (t : Timeline) (today target : Date)
    (currency : Currency) (id : Id) : Run (Option Invoice) := do
  let proposed ← v.rules.propose r.account t target (.currency currency) (some id)
  let result ← reconcile (r.issued.flatMap (·.items)) proposed t.off
  if result.isEmpty then
    skipped "nothing_to_invoice" [("target_date", .text target.iso)]
    return none
  else
    Run.log .debug logger "invoice_delta_computed"
      [("new_item_count", .int result.difference.newItems.length),
       ("repair_item_count", .int result.difference.repairs.length),
       ("pinned_item_count", .int result.pinned.length)]
    return some (.assemble id r.account today target currency result.delta)

/-- Builds an invoice and logs that it is complete. -/
def complete (v : Invoicer) (r : InvoiceRequest) (t : Timeline) (today target : Date)
    (currency : Currency) (id : Id) : Run (Option Invoice) :=
  Run.within [(.invoice, id.text)] do
    let invoice ← v.build r t today target currency id
    if let some i := invoice then
      let charged ← i.charged
      Run.log .info logger "invoice_generation_completed"
        [("invoice_date", .text today.iso), ("target_date", .text target.iso),
         ("item_count", .int i.items.length), ("charged_amount", .text charged.amount.text)]
    return invoice

/-- The currency of an invoice: the one asked for, or else that of the configuration. -/
def currencyOf (v : Invoicer) (asked : Value) : Except Fault Currency :=
  Currency.make (.text (if asked.isTrue then asked.shown else v.config.currency))

/-- The fields that are bound while an invoice is generated. -/
def boundFields (r : InvoiceRequest) : List (Log.Field × String) :=
  (.account, r.account.text) :: (r.correlation.map fun c => (.correlation, c)).toList

/-- Generates an invoice from a timeline that has events. -/
def generateFrom (v : Invoicer) (r : InvoiceRequest) (t : Timeline) (currency : Currency) :
    Run (Option Invoice) := do
  if t.accountOff then
    skipped "account_auto_invoice_off" []
    return none
  else
    let today ← v.clock.today
    v.validate today r.target
    let target ← adjust r.issued r.target
    v.complete r t today target currency (← Run.mint)

/-- The next invoice of an account, if anything is due. -/
def generate (v : Invoicer) (r : InvoiceRequest) : Run (Option Invoice) := do
  let currency ← v.currencyOf r.currency
  Run.within (boundFields r) do
    Run.log .info logger "invoice_generation_started"
      [("target_date", .text r.target.iso), ("currency", .text currency.code),
       ("existing_invoice_count", .int r.issued.length)]
    match r.timeline.filter fun t => t.length ≠ 0 with
    | none =>
      skipped "no_billing_events" []
      return none
    | some t => v.generateFrom r t currency

end Invoicer

end Invoicing
