import Invoicing.Decimal.Arithmetic
import Invoicing.Text.Blank
import Invoicing.Text.Capital

/-!
# Currencies

The currencies that invoices can be made out in, with their ISO 4217 codes and the number of decimal
places of their minor unit. `Currency.ofCode?` looks one up by its code, in small or capital letters
and with blanks around it.
-/

namespace Invoicing

inductive Currency where
  | usd | eur | gbp | chf | cad | aud | nzd | brl | cny | dkk | inr | mxn | nok | sek | sgd | zar
  | jpy | clp | isk | krw | vnd
  | bhd | jod | kwd | omr | tnd
  deriving DecidableEq

namespace Currency

def all : List Currency :=
  [usd, eur, gbp, chf, cad, aud, nzd, brl, cny, dkk, inr, mxn, nok, sek, sgd, zar,
   jpy, clp, isk, krw, vnd, bhd, jod, kwd, omr, tnd]

theorem mem_all (c : Currency) : c ∈ all := by cases c <;> decide

def code : Currency → String
  | usd => "USD" | eur => "EUR" | gbp => "GBP" | chf => "CHF" | cad => "CAD" | aud => "AUD"
  | nzd => "NZD" | brl => "BRL" | cny => "CNY" | dkk => "DKK" | inr => "INR" | mxn => "MXN"
  | nok => "NOK" | sek => "SEK" | sgd => "SGD" | zar => "ZAR"
  | jpy => "JPY" | clp => "CLP" | isk => "ISK" | krw => "KRW" | vnd => "VND"
  | bhd => "BHD" | jod => "JOD" | kwd => "KWD" | omr => "OMR" | tnd => "TND"

def name : Currency → String
  | usd => "US Dollar" | eur => "Euro" | gbp => "Pound Sterling" | chf => "Swiss Franc"
  | cad => "Canadian Dollar" | aud => "Australian Dollar" | nzd => "New Zealand Dollar"
  | brl => "Brazilian Real" | cny => "Chinese Yuan" | dkk => "Danish Krone" | inr => "Indian Rupee"
  | mxn => "Mexican Peso" | nok => "Norwegian Krone" | sek => "Swedish Krona"
  | sgd => "Singapore Dollar" | zar => "South African Rand"
  | jpy => "Japanese Yen" | clp => "Chilean Peso" | isk => "Icelandic Krona"
  | krw => "South Korean Won" | vnd => "Vietnamese Dong"
  | bhd => "Bahraini Dinar" | jod => "Jordanian Dinar" | kwd => "Kuwaiti Dinar" | omr => "Omani Rial"
  | tnd => "Tunisian Dinar"

def places : Currency → Nat
  | jpy | clp | isk | krw | vnd => 0
  | bhd | jod | kwd | omr | tnd => 3
  | _ => 2

/-- Places assumed where no currency is known. -/
def defaultPlaces : Nat := 2

def quantum (c : Currency) : Decimal := .finite false 1 (-c.places)

def codes : List String := (all.map code).mergeSort fun a b => decide (a ≤ b)

def ofCode? (s : String) : Option Currency :=
  let wanted := Text.trim (Text.capitals s)
  all.find? (·.code = wanted)

end Currency

end Invoicing
