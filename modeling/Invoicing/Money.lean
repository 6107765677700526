import Invoicing.Fault

/-!
# Money

An amount with its currency. `Money.make` and `Money.of` build it from values of any kind; they differ
in how they take texts and whole numbers. Sums need one currency. Amounts are never rounded on their
own; `Money.round` rounds to the minor unit.
-/

namespace Invoicing

/-- The precision of all calculations with money. -/
abbrev working : Precision := .working

def equalPrices? : Option Decimal → Option Decimal → Except DecimalSignal Bool
  | none, none => .ok true
  | some a, some b => a.equal? b
  | _, _ => .ok false

/-- The currency whose code a value is. -/
def Currency.make (code : Value) : Except Fault Currency :=
  match code.asText?.bind Currency.ofCode? with
  | some c => .ok c
  | none => .error (.unknownCurrency code.shown)

namespace Money

/-- The currency that a value is or names. -/
def currencyOf (v : Value) : Except Fault Currency :=
  match v with
  | .currency c => .ok c
  | .text _ | .member .. => Currency.make v
  | _ => .error (.notACurrency v)

/-- The amount that a value is, or that its text says. -/
def amountOf (v : Value) : Except Fault Decimal :=
  match v with
  | .real x => .error (.floatAmount x)
  | .decimal d => .ok d
  | _ =>
    if v.isWritable then
      match Decimal.ofText? v.shown with
      | some d => .ok d
      | none => .error (.notAnAmount v)
    else .error .tooManyDigits

/-- Money of an amount and a currency, each given by a value. -/
def make (amount currency : Value) : Except Fault Money := do
  let a ← amountOf amount
  let c ← currencyOf currency
  return ⟨a, c⟩

/-- The number that a text or a whole number says. -/
def scalarOf (v : Value) : Except Fault Value :=
  if v.asText?.isSome || v.asInt?.isSome then
    if v.isWritable then
      match Decimal.ofText? v.shown with
      | some d => .ok (.decimal d)
      | none => .error (.decimal .invalidOperation)
    else .error .tooManyDigits
  else .ok v

/-- Like `make`, but texts and whole numbers are read first, without further explanation if they
cannot be. -/
def of (amount currency : Value) : Except Fault Money := do
  let amount ← scalarOf amount
  let currency ←
    if currency.asText?.isSome then (Currency.make currency).map .currency else pure currency
  make amount currency

def zero (currency : Value) : Except Fault Money := of (.decimal .zero) currency

def zeroIn (c : Currency) : Money := ⟨.zero, c⟩

/-! ## Arithmetic -/

def add (m n : Money) : Except Fault Money :=
  if m.currency = n.currency then
    (Decimal.add working m.amount n.amount).mapError .decimal |>.map (⟨·, m.currency⟩)
  else .error (.currencyMismatch m.currency n.currency)

def sub (m n : Money) : Except Fault Money :=
  if m.currency = n.currency then
    (Decimal.sub working m.amount n.amount).mapError .decimal |>.map (⟨·, m.currency⟩)
  else .error (.currencyMismatch m.currency n.currency)

def neg (m : Money) : Except Fault Money :=
  (Decimal.neg working m.amount).mapError .decimal |>.map (⟨·, m.currency⟩)

/-- The amount times a number, which may be a decimal, a whole number or a text. -/
def scale (m : Money) (factor : Value) : Except Fault Money :=
  match scalarOf factor with
  | .error e => .error e
  | .ok (.decimal d) =>
    (Decimal.mul working m.amount d).mapError .decimal |>.map (⟨·, m.currency⟩)
  | .ok _ => .error .wrongKind

/-- The amount in whole minor units. Without a known rounding mode there is no result. -/
def round (m : Money) (mode : Option RoundingMode) : Except Fault Money :=
  match mode with
  | none => .error .wrongKind
  | some r =>
    (Decimal.quantize working r (-m.currency.places) m.amount).mapError .decimal
      |>.map (⟨·, m.currency⟩)

/-- Whether the amounts have one value and the currencies are the same. -/
def equal? (m n : Money) : Except DecimalSignal Bool :=
  match m.amount.equal? n.amount with
  | .ok true => .ok (m.currency = n.currency)
  | r => r

def isZero? (m : Money) : Except DecimalSignal Bool := m.amount.equal? .zero

def isNegative? (m : Money) : Except DecimalSignal Bool := m.amount.lt? .zero

end Money

end Invoicing
