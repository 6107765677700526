import Invoicing.Config
import Invoicing.Run

/-!
# Sources of configurations

A configuration comes from a file that is named, or from one that the environment names, or else it is
the usual one. `Config.find` looks for it and logs where it came from. How documents are written is for a
`Loader` to say, which is given.
-/

namespace Invoicing

/-- A file that is named: its text, unless it is missing. -/
abbrev NamedFile := Option String

/-- Reads texts as documents: the value of a text, or the class of the error that says why it has none. -/
abbrev Loader := String → Except String Value

namespace Config

def load (loader : Loader) : NamedFile → Except Fault Config
  | none => .error .missingFile
  | some text => ((loader text).mapError .unreadable).bind ofDocument

/-- The files that are named, if any. -/
structure Sources where
  argument : Option NamedFile
  environment : Option NamedFile

namespace Sources

/-- The configuration that sources lead to, and the name of the source it comes from. An argument goes
before the environment. -/
def resolve (s : Sources) (loader : Loader) : Except Fault (Config × String) :=
  match s.argument, s.environment with
  | some file, _ => (load loader file).map (·, "argument")
  | none, some file => (load loader file).map (·, "environment")
  | none, none => .ok (initial, "defaults")

end Sources

def find (loader : Loader) (sources : Sources) : Run Config := do
  let (config, source) ← sources.resolve loader
  Run.log .info "config" "BILLING_CONFIG_TRACE"
    [("trace_type", .text "BILLING_CONFIG_TRACE"), ("config_source", .text source),
     ("checksum", .text config.checksum), ("max_months_in_future", .int config.maxMonths),
     ("default_currency", .text config.currency)]
  return config

end Config

end Invoicing
