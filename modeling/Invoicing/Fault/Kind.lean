import Invoicing.Value.Text

/-!
# Kinds of invoicing errors

Every error that the domain itself raises is of a kind with a fixed code. `ErrorKind.describe?` makes
the wording and the attributes of an error from the values it is raised with; the kinds that stand
for a category take any values.
-/

namespace Invoicing

inductive ErrorKind where
  | base
  | invoice | targetTooFar | dateSequence
  | billingMode | unsupportedMode
  | catalog | alignment | catalogEntry
  | timeline | invalidTimeline
  | currency | invalidCurrency | currencyMismatch
  | config | invalidConfig
  deriving DecidableEq

/-- What there is to say about an error. -/
structure Report where
  message : String
  attributes : List (String × Value)

namespace ErrorKind

def all : List ErrorKind :=
  [base, invoice, targetTooFar, dateSequence, billingMode, unsupportedMode, catalog, alignment,
   catalogEntry, timeline, invalidTimeline, currency, invalidCurrency, currencyMismatch, config,
   invalidConfig]

def name : ErrorKind → String
  | base => "BillingKernelError"
  | invoice => "InvoiceError"
  | targetTooFar => "TargetDateTooFarInFutureError"
  | dateSequence => "InvalidDateSequenceError"
  | billingMode => "BillingModeError"
  | unsupportedMode => "UnsupportedBillingModeError"
  | catalog => "CatalogError"
  | alignment => "InvalidBillingAlignmentError"
  | catalogEntry => "CatalogEntryNotFoundError"
  | timeline => "TimelineError"
  | invalidTimeline => "InvalidTimelineError"
  | currency => "CurrencyError"
  | invalidCurrency => "InvalidCurrencyError"
  | currencyMismatch => "CurrencyMismatchError"
  | config => "ConfigError"
  | invalidConfig => "InvalidInvoiceConfigError"

def code : ErrorKind → String
  | base => "BILLING_KERNEL_ERROR"
  | invoice => "INVOICE_ERROR"
  | targetTooFar => "TARGET_DATE_TOO_FAR_IN_FUTURE"
  | dateSequence => "INVALID_DATE_SEQUENCE"
  | billingMode => "BILLING_MODE_ERROR"
  | unsupportedMode => "UNSUPPORTED_BILLING_MODE"
  | catalog => "CATALOG_ERROR"
  | alignment => "INVALID_BILLING_ALIGNMENT"
  | catalogEntry => "CATALOG_ENTRY_NOT_FOUND"
  | timeline => "TIMELINE_ERROR"
  | invalidTimeline => "INVALID_TIMELINE"
  | currency => "CURRENCY_ERROR"
  | invalidCurrency => "INVALID_CURRENCY"
  | currencyMismatch => "CURRENCY_MISMATCH"
  | config => "CONFIG_ERROR"
  | invalidConfig => "INVALID_INVOICE_CONFIG"

def ofName? (s : String) : Option ErrorKind := all.find? (·.name = s)

/-- The category of a kind, and the root of all. -/
def parents : ErrorKind → List ErrorKind
  | base => []
  | invoice | billingMode | catalog | timeline | currency | config => [base]
  | targetTooFar | dateSequence => [invoice, base]
  | unsupportedMode => [billingMode, base]
  | alignment | catalogEntry => [catalog, base]
  | invalidTimeline => [timeline, base]
  | invalidCurrency | currencyMismatch => [currency, base]
  | invalidConfig => [config, base]

/-- Wording of an error that only carries values: nothing, the one value, or all of them in
parentheses. -/
def plainMessage : List Value → String
  | [] => ""
  | [v] => v.shown
  | vs => (Value.tuple vs).written

/-- The report of an error of this kind; `none` if it cannot be raised with these values. -/
def describe? (kind : ErrorKind) (values : List Value) : Option Report :=
  match kind, values with
  | targetTooFar, [target, limit] =>
    some ⟨"Target date " ++ target.shown ++ " is more than " ++ limit.shown ++
      " months in the future", [("target_date", target), ("max_months_in_future", limit)]⟩
  | dateSequence, [start, finish] => some (sequence start finish .null)
  | dateSequence, [start, finish, target] => some (sequence start finish target)
  | unsupportedMode, [mode] => some (unsupported mode .null)
  | unsupportedMode, [mode, registered] => some (unsupported mode registered)
  | alignment, [policy] => some (unusable policy (.text ""))
  | alignment, [policy, reason] => some (unusable policy reason)
  | catalogEntry, [entry, name] =>
    some ⟨entry.shown ++ " not found: " ++ name.shown, [("entry_type", entry), ("name", name)]⟩
  | invalidTimeline, [reason] =>
    some ⟨"Invalid billing event timeline: " ++ reason.shown, [("reason", reason)]⟩
  | invalidCurrency, [code] =>
    some ⟨"Invalid ISO 4217 currency code: '" ++ code.shown ++ "'", [("currency", code)]⟩
  | currencyMismatch, [left, right] =>
    some ⟨"Currency mismatch: " ++ left.shown ++ " vs " ++ right.shown,
      [("currency1", left), ("currency2", right)]⟩
  | invalidConfig, [field, value, reason] =>
    some ⟨"Invalid invoice config " ++ field.shown ++ "=" ++ value.written ++ ": " ++ reason.shown,
      [("field", field), ("value", value), ("reason", reason)]⟩
  | base, values | invoice, values | billingMode, values | catalog, values | timeline, values
  | currency, values | config, values => some ⟨plainMessage values, []⟩
  | _, _ => none
where
  sequence (start finish target : Value) : Report :=
    ⟨"Invalid date sequence: end " ++ finish.shown ++ " precedes start " ++ start.shown ++
      (match target with
        | .null => ""
        | t => " (target_date: " ++ t.shown ++ ")"),
      [("start_date", start), ("end_date", finish), ("target_date", target)]⟩
  unsupported (mode registered : Value) : Report :=
    let registered := if registered.isTrue then registered else .list []
    ⟨"Unsupported billing mode: " ++ mode.shown ++ " (registered: " ++ registered.shown ++ ")",
      [("billing_mode", mode), ("registered_modes", registered)]⟩
  unusable (policy reason : Value) : Report :=
    ⟨"Invalid billing alignment: " ++ policy.shown ++
      (if reason.isTrue then " (" ++ reason.shown ++ ")" else ""),
      [("alignment", policy), ("reason", reason)]⟩

end ErrorKind

end Invoicing
