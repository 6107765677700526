import Invoicing.Config.Source
import Invoicing.Generation
import Invoicing.Log.Process

/-!
# Programs

A `Program` that generates invoices: the state of its logging, and the number of ids minted. The records
of what it does go to the receivers that logging knows at that time. `Program.setUp` finds the
configuration and configures logging by it.
-/

namespace Invoicing

/-- The state of a running program. -/
structure Program where
  logging : Log.Logging
  minted : Nat
  /-- What receivers have received, the first record first. -/
  received : List (Nat × Log.Record)

namespace Program

def start : Program := ⟨.start, 0, []⟩

/-- Does something, and sends its records to the receivers. -/
def perform (p : Program) (r : Run α) : Except Fault α × Program :=
  let (result, s) := r.from_ ⟨p.logging.context, [], p.minted⟩
  (result, { p with
    minted := s.minted
    received := p.received ++ p.logging.deliver s.journal })

def log (p : Program) (logger : String) (level : Int) (message : String)
    (extra : List (String × Value)) (incident : Option Log.Incident) :
    Except Fault Unit × Program :=
  match p.logging.log logger level message extra incident with
  | .ok records => (.ok (), { p with received := p.received ++ records })
  | .error f => (.error f, p)

def logConfig (config : Config) : Run Unit :=
  Run.log .info "services.bootstrap" "invoicing_initialized"
    [("log_level", .text config.logLevel.name), ("max_months_in_future", .int config.maxMonths),
     ("default_currency", .text config.currency)]

/-- Finds the configuration, and configures logging by it for a receiver, unless that was done
before. -/
def setUp (p : Program) (loader : Loader) (sources : Config.Sources) (receiver : Nat) :
    Except Fault Config × Program :=
  match p.perform (Config.find loader sources) with
  | (.error f, p) => (.error f, p)
  | (.ok config, p) =>
    match p.logging.configure receiver (.int config.logLevel.number) with
    | (.error f, l) => (.error f, { p with logging := l })
    | (.ok (), l) =>
      let (result, p) := perform { p with logging := l } (logConfig config)
      (result.map fun _ => config, p)

end Program

end Invoicing
