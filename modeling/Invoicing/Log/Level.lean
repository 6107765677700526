/-!
# Log levels

How grave a log record is: one of five `Level`s, or any other number, which has no name of its own.
-/

namespace Invoicing.Log

inductive Level where
  | debug | info | warning | error | critical
  deriving DecidableEq

namespace Level

def all : List Level := [debug, info, warning, error, critical]

def name : Level → String
  | debug => "DEBUG"
  | info => "INFO"
  | warning => "WARNING"
  | error => "ERROR"
  | critical => "CRITICAL"

def number : Level → Int
  | debug => 10
  | info => 20
  | warning => 30
  | error => 40
  | critical => 50

def ofName? (s : String) : Option Level := all.find? (·.name = s)

/-- The level with a number, if the number has a name. -/
def ofNumber? (n : Int) : Option Level := all.find? (·.number = n)

def numberName (n : Int) : String :=
  if n = 0 then "NOTSET" else ((ofNumber? n).map name).getD ("Level " ++ toString n)

/-- The number that a text names; two levels have a second name, and one text names none. -/
def numberOf? (s : String) : Option Int :=
  if s = "WARN" then some warning.number
  else if s = "FATAL" then some critical.number
  else if s = "NOTSET" then some 0
  else (ofName? s).map number

end Level

end Invoicing.Log
