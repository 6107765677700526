import Invoicing.Arguments
import Invoicing.Digest.Sha256
import Invoicing.Log.Level
import Invoicing.Value.Json

/-!
# Configuration

A `Config` holds the settings of invoicing. `Config.ofSettings` checks settings given by values;
`Config.parse` takes them from a mapping, in which every key must be known. `checksum` tells
configurations apart.
-/

namespace Invoicing

/-- The rounding modes that amounts may be rounded with. -/
def amountModes : List (String × RoundingMode) :=
  RoundingMode.named.filter (·.2 ≠ .zeroFiveUp)

/-- The settings of invoicing. -/
structure Config where
  /-- The largest number of whole months that a target date may lie ahead of today. -/
  maxMonths : Nat
  /-- The code of the currency of invoices for which none is asked. -/
  currency : String
  rounding : RoundingMode
  logLevel : Log.Level
  currency_mem : (Currency.ofCode? currency).isSome
  rounding_mem : rounding ∈ amountModes.map (·.2)

namespace Config

/-- The settings where nothing else is said. -/
def initial : Config :=
  ⟨36, "USD", .halfUp, .info, by decide +kernel, by decide⟩

def parameters : Parameters :=
  ⟨["max_months_in_future", "default_currency", "rounding", "log_level"], [], []⟩

/-- A refused setting. What cannot be written cannot be reported either. -/
def refuse (field v : Value) (reason : String) : Except Fault α :=
  if field.isWritable && v.isWritable then .error (.badSetting field v reason)
  else .error .tooManyDigits

/-- The text that a setting is read from. -/
def textOf (v : Value) : Except Fault String :=
  if v.isWritable then .ok v.shown else .error .tooManyDigits

/-- Names as they are listed in messages. -/
def expected (names : List String) : String :=
  "expected one of " ++
    (Value.list ((names.mergeSort fun a b => decide (a ≤ b)).map .text)).written

def monthsOf (v : Value) : Except Fault Nat :=
  match v with
  | .int n =>
    if n < 0 then refuse (.text "max_months_in_future") v "must not be negative" else .ok n.toNat
  | _ => refuse (.text "max_months_in_future") v "must be an integer"

/-- The code of a currency, in capitals but otherwise as it was given. -/
def currencyOf (v : Value) : Except Fault { code : String // (Currency.ofCode? code).isSome } := do
  let code := Text.capitals (← textOf v)
  if h : (Currency.ofCode? code).isSome then
    if v.asText?.isSome then .ok ⟨code, h⟩ else .error (.noCapitals v)
  else refuse (.text "default_currency") v "unknown ISO 4217 code"

/-- The mode with a name. A value that can be no key cannot be looked up; a set is an exception. -/
def roundingOf (v : Value) : Except Fault { r : RoundingMode // r ∈ amountModes.map (·.2) } :=
  match h : v.asText?.bind fun s => amountModes.find? (·.1 = s) with
  | some m =>
    .ok ⟨m.2, by
      obtain ⟨s, -, hs⟩ := Option.bind_eq_some_iff.1 h
      exact List.mem_map.2 ⟨m, List.mem_of_find?_eq_some hs, rfl⟩⟩
  | none =>
    match v with
    | .set _ => refuse (.text "rounding") v (expected (amountModes.map (·.1)))
    | _ =>
      if v.isKey then refuse (.text "rounding") v (expected (amountModes.map (·.1)))
      else .error .wrongKind

def levelOf (v : Value) : Except Fault Log.Level := do
  match Log.Level.ofName? (Text.capitals (← textOf v)) with
  | some l => .ok l
  | none => refuse (.text "log_level") v (expected (Log.Level.all.map (·.name)))

/-- A setting, or what it is where nothing is said. -/
def setting (settings : List (String × Value)) (name : String) (otherwise : Value) : Value :=
  (settings.lookup name).getD otherwise

/-- The configuration that some settings make; the settings are checked in order. -/
def ofSettings (settings : List (String × Value)) : Except Fault Config := do
  let months ← monthsOf (setting settings "max_months_in_future" (.int initial.maxMonths))
  let currency ← currencyOf (setting settings "default_currency" (.text initial.currency))
  let rounding ← roundingOf (setting settings "rounding" (.text "ROUND_HALF_UP"))
  let level ← levelOf (setting settings "log_level" (.text initial.logLevel.name))
  return ⟨months, currency.1, rounding.1, level, currency.2, rounding.2⟩

/-- The configuration that arguments make, given by position or by name. -/
def ofArguments (values : List Value) (named : List (String × Value)) : Except Fault Config := do
  let settings ← parameters.bind values named
  ofSettings settings

def unknownKeys (entries : List (Value × Value)) : List (Value × Value) :=
  entries.filter fun e => !parameters.ordered.any fun n => e.1.sameAs (.text n)

def settingsOf (entries : List (Value × Value)) : List (String × Value) :=
  entries.filterMap fun (k, v) => k.asText?.map fun name => (name, v)

/-- The configuration that a section makes. Of several unknown keys the first in their order is
reported. -/
def parse : Value → Except Fault Config
  | .mapping entries =>
    match Value.sortEntries? (unknownKeys entries) with
    | none => .error .wrongKind
    | some [] => ofSettings (settingsOf entries)
    | some ((k, v) :: _) => refuse k v "unknown key"
  | v => refuse (.text "invoice") v "section must be a mapping"

/-- What counts as given; an empty mapping stands for what does not. -/
def orEmpty (v : Value) : Value := if v.isTrue then v else .mapping []

/-- The configuration that a whole document makes: that of its section for invoices. -/
def ofDocument (root : Value) : Except Fault Config :=
  match orEmpty root with
  | .mapping entries => parse (orEmpty ((Value.find? entries (.text "invoice")).getD .null))
  | v => refuse (.text "<root>") v "document must be a mapping"

/-! ## Checksums -/

def roundingName (r : RoundingMode) : String :=
  ((RoundingMode.named.find? (·.2 = r)).map (·.1)).getD ""

def settings (c : Config) : List (String × Value) :=
  [("max_months_in_future", .int c.maxMonths), ("default_currency", .text c.currency),
   ("rounding", .text (roundingName c.rounding)), ("log_level", .text c.logLevel.name)]

def toValue (c : Config) : Value := .fields c.settings

end Config

/-- The digest of a value's JSON text with sorted keys; there is none if keys have no order. -/
def checksum (v : Value) : Except Fault String :=
  match v.sorted?.bind fun v => v.json? .shown with
  | some s => .ok (Sha256.hex s)
  | none => .error .wrongKind

def Config.checksum (c : Config) : String :=
  Sha256.hex (((c.toValue.sorted?.bind fun v => v.json? .shown)).getD "")

end Invoicing
