import Invoicing.Cycle

/-!
# Billing modes

How a segment is split into cycles depends on the billing mode. A `Strategy` splits segments, and
`BillingModes` is the finite map from modes to the strategies in force. At the start only billing in
advance is known.
-/

namespace Invoicing

/-- A way to split a segment, given by its start, its end, the target date, the billing-cycle day and
the period, into cycles. -/
structure Strategy where
  name : String
  cycles : Date → Option Date → Date → Int → BillingPeriod → Run (List BillingCycle)

namespace Strategy

/-- Bills each period on its first day. A segment that ends before it starts is logged. -/
def inAdvance : Strategy where
  name := "InAdvanceBillingMode"
  cycles start finish target day period := do
    match BillingCycle.inAdvance start finish target day period with
    | .error (.datesOutOfOrder s f t) =>
      Run.log .error "engines.billing_mode" "billing_mode_invalid_date_sequence"
        [("start_date", .text s.iso), ("end_date", .text f.iso), ("target_date", .text t.iso)]
      throw (.datesOutOfOrder s f t)
    | r => Run.ofExcept r

end Strategy

abbrev BillingModes := List (BillingMode × Strategy)

namespace BillingModes

/-- The strategies at the start. -/
def initial : BillingModes := [(.inAdvance, .inAdvance)]

def find? (r : BillingModes) (mode : BillingMode) : Option Strategy := r.lookup mode

/-- The names of the modes that have a strategy, sorted. -/
def names (r : BillingModes) : List String :=
  (r.map (·.1.name)).mergeSort (fun a b => decide (a ≤ b))

/-- Puts a strategy under a mode; a mode that is there keeps its place. -/
def put (r : BillingModes) (mode : BillingMode) (s : Strategy) : BillingModes :=
  match r with
  | [] => [(mode, s)]
  | (m, t) :: rest => if m = mode then (m, s) :: rest else (m, t) :: put rest mode s

/-- Registers a strategy. A mode that has one keeps it, unless the new one is to replace it. -/
def register (r : BillingModes) (mode : BillingMode) (s : Strategy) (replace : Bool) :
    Except Fault BillingModes :=
  match r.find? mode with
  | some t => if replace then .ok (r.put mode s) else .error (.modeTaken mode.name t.name)
  | none => .ok (r.put mode s)

def unregister (r : BillingModes) (mode : BillingMode) : BillingModes := r.filter (·.1 ≠ mode)

/-- The strategy of the mode that a text names. -/
def get (r : BillingModes) (mode : String) : Except Fault Strategy :=
  match (BillingMode.ofName? mode).bind r.find? with
  | some s => .ok s
  | none => .error (.unsupportedMode mode r.names)

/-- Whether the mode that a text names has a strategy. -/
def has (r : BillingModes) (mode : String) : Bool :=
  ((BillingMode.ofName? mode).bind r.find?).isSome

end BillingModes

end Invoicing
