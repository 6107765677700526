import Invoicing.Item

/-!
# Charges

A `Charge` is an item as it stands after the repairs made so far: the day up to which it is in force and
the amount that is left of it. `Charge.verdict?` compares an issued charge with the charges that are
proposed for the same day, and `Charge.repair` makes the item that a verdict calls for.
-/

namespace Invoicing

/-- An item as it stands. -/
structure Charge where
  /-- Number of the charge among all that are reconciled together. -/
  handle : Nat
  item : Item
  /-- The first day on which the charge is no longer in force. -/
  finish : Option Date
  amount : Money
  /-- Whether the charge has been settled with another one. -/
  matched : Bool
  deriving DecidableEq

/-- How an issued charge stands against what is proposed. -/
inductive Verdict where
  /-- A proposal says the same. -/
  | kept (proposal : Charge)
  /-- A proposal charges no more, for fewer days. -/
  | shortened (proposal : Charge)
  /-- Nothing of it is due any longer. -/
  | cancelled
  deriving DecidableEq

namespace Charge

def earliest (d : Date) : List Date → Date
  | [] => d
  | e :: rest => earliest (if e < d then e else d) rest

/-- The day up to which an item is in force after some repairs. Any repair undoes a fixed charge; other
items end where the earliest repair starts. -/
def finishAfter (item : Item) (repairs : List Item) : Except Fault (Option Date) :=
  if repairs.isEmpty then .ok item.finish
  else if item.kind = .fixed then .ok (some item.start)
  else
    match item.finish with
    | some d => .ok (some (earliest d (repairs.map (·.start))))
    | none => .error .wrongKind

/-- An item that was invoiced, with its repairs. -/
def issued (handle : Nat) (item : Item) (repairs : List Item) : Except Fault Charge :=
  match Invoice.sum item.amount repairs with
  | .error f => .error f
  | .ok amount => (finishAfter item repairs).map fun finish => ⟨handle, item, finish, amount, false⟩

def proposed (handle : Nat) (item : Item) : Charge := ⟨handle, item, item.finish, item.amount, false⟩

/-- Whether a charge is still in force on some day. A fixed charge is until it is repaired. -/
def isActive (c : Charge) : Bool :=
  if c.item.kind = .fixed then c.finish.isNone else c.finish.any (c.item.start < ·)

/-- Charges are taken in the order of their first days, then of their ends, fixed ones first, then as
they came. -/
def rank (c : Charge) : List Int :=
  [c.item.start.dayNumber, (c.finish.getD c.item.start).dayNumber,
   if c.item.kind = .fixed then 0 else 1, c.handle]

def sorted (charges : List Charge) : List Charge :=
  charges.mergeSort fun a b => !b.rank.lex a.rank (· < ·)

/-! ## Comparison -/

/-- Whether two charges agree in plan, phase and rate. -/
def sameTerms? (a b : Charge) : Except DecimalSignal Bool :=
  if a.item.plan = b.item.plan ∧ a.item.phase = b.item.phase then
    equalPrices? a.item.rate b.item.rate
  else .ok false

/-- Whether two charges end on one day and amount to the same. -/
def sameExtent? (a b : Charge) : Except DecimalSignal Bool :=
  if a.finish = b.finish then a.amount.equal? b.amount else .ok false

/-- Whether a charge ends before another and amounts to no more. -/
def isPartOf? (a b : Charge) : Except DecimalSignal Bool :=
  match a.finish, b.finish with
  | some d, some e => if d < e then a.amount.amount.le? b.amount.amount else .ok false
  | _, _ => .ok false

/-- The proposals that a charge is compared with: of its kind, from its first day on, on its terms, and
not yet settled. -/
def candidates? (c : Charge) (proposals : List Charge) : Except DecimalSignal (List Charge) :=
  (proposals.filter fun p =>
    p.item.kind = c.item.kind && p.item.start = c.item.start && !p.matched).filterM (sameTerms? c)

/-- How an issued charge stands against some proposals. -/
def verdict? (c : Charge) (proposals : List Charge) : Except DecimalSignal Verdict := do
  let candidates ← c.candidates? proposals
  match ← candidates.findM? (sameExtent? · c) with
  | some p => return .kept p
  | none =>
    if c.item.kind = .recurring then
      match ← candidates.findM? (isPartOf? · c) with
      | some p => return .shortened p
      | none => return .cancelled
    else return .cancelled

/-! ## Repair -/

/-- The repair that a verdict calls for: of the days behind the shorter proposal, or of all days. -/
def repair (c : Charge) (id : Id) : Verdict → Except Fault (Option Item)
  | .kept _ => .ok none
  | .shortened p => do
    let amount ← p.amount.sub c.amount
    let item ← c.item.repair id (p.finish.getD c.item.start) c.finish amount none
    return some item
  | .cancelled => do
    let amount ← c.amount.neg
    let finish := if c.item.finish.isSome then c.finish else none
    let item ← c.item.repair id c.item.start finish amount none
    return some item

end Charge

end Invoicing
