import Invoicing.Fault.Kind

/-!
# Faults

`Fault` lists every way in which an operation of the library can fail. The errors of the domain have a
kind and attributes (`Fault.error?`), the values that a rule refuses have a wording of their own
(`Fault.refusal?`), and all others are known by their cause alone.
-/

namespace Invoicing

inductive Fault where
  -- Errors of the domain.
  | targetTooFar (target : Date) (limit : Int)
  | datesOutOfOrder (start finish target : Date)
  | unsupportedMode (mode : String) (registered : List String)
  | unusableAlignment (policy reason : String)
  | notInCatalog (entry name : String)
  | noEvents
  | unknownCurrency (code : String)
  | currencyMismatch (left right : Currency)
  | badSetting (field value : Value) (reason : String)
  -- Values that a rule refuses.
  | placelessInstant (t : Timestamp)
  | placelessClock
  | placelessEvent
  | placelessStart
  | floatAmount (x : Float)
  | notAnAmount (v : Value)
  | notACurrency (v : Value)
  | cycleDayOutOfRange (day : Int)
  | priceNotDecimal (field : String) (v : Value)
  | planWithoutPhases (plan : String)
  | unlimitedBeforeLast (plan phase : String)
  | unlimitedDuration
  | modeTaken (mode strategy : String)
  | noBillingPeriod
  | fixedItemWithEnd
  | emptyRange (start : Date) (finish : Option Date)
  | repairWithoutLink
  | positiveRepair
  -- Other causes.
  | calendar (f : CalendarFault)
  | decimal (s : DecimalSignal)
  | unknownZone (name : String)
  /-- A text that names no member of an enumeration. -/
  | unknownMember
  /-- A value, or a number of values, of the wrong kind. -/
  | wrongKind
  /-- A value that has no capital letters to be written in. -/
  | noCapitals (v : Value)
  /-- A log field that has a meaning of its own. -/
  | reservedField (name : String)
  /-- A text that names no log level. -/
  | unknownLevel
  /-- A message template that ends in the middle, or asks for an unknown form. -/
  | badTemplate
  /-- A value that is not a number, where one is asked for. -/
  | notANumber
  /-- A number that is too large for what it is used as. -/
  | numberTooLarge
  /-- A whole number with more digits than are written. -/
  | tooManyDigits
  /-- A message template asks for a field that is not there. -/
  | missingField (name : String)
  | missingFile
  /-- A text that is not read as a document, with the class of the loader's error. -/
  | unreadable (cls : String)

/-- Faults of the calendar and of decimals are faults. -/
instance : MonadLift (Except CalendarFault) (Except Fault) := ⟨Except.mapError .calendar⟩

instance : MonadLift (Except DecimalSignal) (Except Fault) := ⟨Except.mapError .decimal⟩

namespace Fault

/-- Kind of an error of the domain, and the values it is raised with. -/
def error? : Fault → Option (ErrorKind × List Value)
  | targetTooFar target limit => some (.targetTooFar, [.text target.iso, .int limit])
  | datesOutOfOrder start finish target =>
    some (.dateSequence, [.text start.iso, .text finish.iso, .text target.iso])
  | unsupportedMode mode registered =>
    some (.unsupportedMode, [.text mode, .list (registered.map .text)])
  | unusableAlignment policy reason => some (.alignment, [.text policy, .text reason])
  | notInCatalog entry name => some (.catalogEntry, [.text entry, .text name])
  | noEvents =>
    some (.invalidTimeline, [.text ("account date/timezone context is not initialized because " ++
      "there is no billing event")])
  | unknownCurrency code => some (.invalidCurrency, [.text code])
  | currencyMismatch left right => some (.currencyMismatch, [.text left.code, .text right.code])
  | badSetting field value reason => some (.invalidConfig, [field, value, .text reason])
  | _ => none

/-- The class that a value of the wrong kind belongs to, as messages name it. -/
def className : Value → String
  | .decimal _ => "decimal.Decimal"
  | .id _ => "uuid.UUID"
  | .date _ => "datetime.date"
  | .timestamp _ => "datetime.datetime"
  | .currency _ => "billing_kernel.domain.values.Currency"
  | .money _ => "billing_kernel.domain.values.Money"
  | v => v.kindName

def refusal? : Fault → Option String
  | placelessInstant t => some ("Naive datetime not allowed: " ++ t.written)
  | placelessClock => some "DeterministicClock requires a timezone-aware datetime"
  | placelessEvent => some "effective_date must be timezone aware"
  | placelessStart => some "start_date must be timezone aware"
  | floatAmount x => some ("Float amounts are not allowed: " ++ Binary64.text x)
  | notAnAmount v => some ("Invalid amount: " ++ v.shown)
  | notACurrency v => some ("currency must be Currency or str, got <class '" ++ className v ++ "'>")
  | cycleDayOutOfRange day =>
    some ("billing_cycle_day_local must be within 1..31, got " ++ toString day)
  | priceNotDecimal field v => some (field ++ " must be Decimal, got " ++ v.kindName)
  | planWithoutPhases plan => some ("Plan " ++ plan ++ " has no phases")
  | unlimitedBeforeLast plan phase =>
    some ("Plan " ++ plan ++ ": only the final phase may be UNLIMITED (" ++ phase ++ ")")
  | unlimitedDuration => some "An UNLIMITED duration cannot be added to a date"
  | modeTaken mode strategy =>
    some ("Billing mode already registered for " ++ mode ++ ": " ++ strategy)
  | noBillingPeriod => some "Cannot compute cycles for NO_BILLING_PERIOD"
  | fixedItemWithEnd => some "FIXED items cover a single date and have no end_date"
  | emptyRange start finish =>
    some ("RECURRING item range is empty: [" ++ start.iso ++ ", " ++
      ((finish.map Date.iso).getD "None") ++ ")")
  | repairWithoutLink => some "REPAIR_ADJ items must reference the repaired item"
  | positiveRepair => some "REPAIR_ADJ items cannot be positive"
  | _ => none

/-- What there is to say about a fault, if more than its cause. -/
def report? (f : Fault) : Option Report :=
  match f.error? with
  | some (kind, values) => kind.describe? values
  | none => f.refusal?.map fun message => ⟨message, []⟩

/-- The class of errors that a fault without a kind belongs to. -/
def causeClass : Fault → String
  | notACurrency _ | priceNotDecimal .. | wrongKind => "TypeError"
  | calendar .noSuchMonth => "IllegalMonthError"
  | calendar .partTooLarge | calendar .outOfRange | numberTooLarge => "OverflowError"
  | decimal .invalidOperation => "InvalidOperation"
  | decimal .overflow => "Overflow"
  | unknownZone _ => "ZoneInfoNotFoundError"
  | noCapitals _ => "AttributeError"
  | reservedField _ | missingField _ => "KeyError"
  | missingFile => "FileNotFoundError"
  | unreadable cls => cls
  | _ => "ValueError"

/-- The class of errors that a fault belongs to: the name of its kind, or the class of its cause. -/
def errorClass (f : Fault) : String := (f.error?.map (·.1.name)).getD f.causeClass

end Fault

/-- The calendar day of an instant in a zone, which is looked up by its name. -/
def localDate [TimeZones] (t : Timestamp) (zone : String) : Except Fault Date :=
  if t.place.isNone then .error (.placelessInstant t)
  else
    match TimeZones.named? zone with
    | none => .error (.unknownZone zone)
    | some z => ((t.dateAt? (.zone z)).getD (.error .outOfRange)).mapError .calendar

/-- The calendar day of an instant in UTC. -/
def utcDate (t : Timestamp) : Except Fault Date :=
  match t.dateAt? .utc with
  | none => .error (.placelessInstant t)
  | some r => r.mapError .calendar

end Invoicing
