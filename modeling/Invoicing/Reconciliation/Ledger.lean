import Invoicing.Reconciliation.Charge

/-!
# Ledgers

A `Ledger` sets the issued charges of one subscription against the proposed ones. `Ledger.merge` settles
the issued charges in their order, each with a proposal or by a repair; the proposals that are left are
new.
-/

namespace Invoicing

/-- The issued and the proposed charges of a subscription. -/
structure Ledger where
  issued : List Charge
  proposed : List Charge
  deriving DecidableEq

/-- What settling some issued charges leads to: the repairs, unless one cannot be made, and the charges
with their marks. -/
structure Settlement where
  repairs : Except Fault (List Item)
  ledger : Ledger

/-- What has to be invoiced so that issued and proposed charges agree. -/
structure Difference where
  newItems : List Item
  repairs : List Item
  deriving DecidableEq

namespace Difference

def items (d : Difference) : List Item := d.newItems ++ d.repairs

end Difference

namespace Ledger

def empty : Ledger := ⟨[], []⟩

/-- Number of charges, and the handle of the next one. -/
def size (l : Ledger) : Nat := l.issued.length + l.proposed.length

/-- Adds an item that was invoiced, with its repairs. -/
def addIssued (l : Ledger) (item : Item) (repairs : List Item) : Except Fault (Charge × Ledger) :=
  (Charge.issued l.size item repairs).map fun c => (c, { l with issued := l.issued ++ [c] })

def addProposed (l : Ledger) (item : Item) : Charge × Ledger :=
  let c := Charge.proposed l.size item
  (c, { l with proposed := l.proposed ++ [c] })

def charges (l : Ledger) : List Charge :=
  (l.issued ++ l.proposed).mergeSort fun a b => decide (a.handle ≤ b.handle)

/-- Both sides in the order in which they are settled. -/
def sorted (l : Ledger) : Ledger := ⟨Charge.sorted l.issued, Charge.sorted l.proposed⟩

/-- Marks the charge with a handle as settled. -/
def mark (handle : Nat) (charges : List Charge) : List Charge :=
  charges.map fun c => if c.handle = handle then { c with matched := true } else c

/-- Marks the proposal of a verdict as settled. -/
def markProposal (proposals : List Charge) : Verdict → List Charge
  | .kept p | .shortened p => mark p.handle proposals
  | .cancelled => proposals

/-- Settles issued charges one after the other, up to the first whose repair cannot be made. The repair
of a charge gets the id that `ids` has for its handle. -/
def settle (ids : Nat → Id) (proposals : List Charge) : List Charge → Settlement
  | [] => ⟨.ok [], ⟨[], proposals⟩⟩
  | c :: rest =>
    if c.isActive then
      match c.verdict? proposals with
      | .error s => ⟨.error (.decimal s), ⟨c :: rest, proposals⟩⟩
      | .ok v =>
        let proposals := markProposal proposals v
        let settled := { c with matched := true }
        match c.repair (ids c.handle) v with
        | .error f => ⟨.error f, ⟨settled :: rest, proposals⟩⟩
        | .ok r =>
          let s := settle ids proposals rest
          ⟨s.repairs.map (r.toList ++ ·), { s.ledger with issued := settled :: s.ledger.issued }⟩
    else
      let s := settle ids proposals rest
      { s with ledger := { s.ledger with issued := c :: s.ledger.issued } }

/-- The proposed items that no issued charge was settled with. -/
def unsettled (l : Ledger) : List Item :=
  (l.proposed.filter fun c => !c.matched).map (·.item)

def merge (l : Ledger) (ids : Nat → Id) : Except Fault Difference × Ledger :=
  let s := settle ids l.sorted.proposed l.sorted.issued
  (s.repairs.map fun repairs => ⟨s.ledger.unsettled, repairs⟩, s.ledger)

end Ledger

end Invoicing
