import Invoicing.Reconciliation.Ledger
import Invoicing.Trace

/-!
# Reconciliation

What has to be invoiced to an account, given all items invoiced so far and all items proposed.
`Holdings.ofItems` sorts out the items invoiced: the charges, their repairs, and those that are not
touched. `reconcile` settles the ledgers of all subscriptions.
-/

namespace Invoicing

/-- The items invoiced to an account: those that are not touched, and of all others the charges and the
repairs. -/
structure Holdings where
  pinned : List Item
  charges : List Item
  repairs : List Item

namespace Holdings

/-- Sorts out items; those of some subscriptions are not touched. -/
def ofItems (items : List Item) (pinnedSubscriptions : List Id) : Holdings :=
  let isPinned (i : Item) : Bool := i.isPinned || i.subscription.any pinnedSubscriptions.contains
  let owned := items.filter (!isPinned ·)
  ⟨items.filter isPinned, owned.filter (·.kind ≠ .repair), owned.filter (·.kind = .repair)⟩

def repairsOf (h : Holdings) (item : Id) : List Item := h.repairs.filter (·.linked = some item)

/-- The elements of a list, each where it comes first. -/
def distinct [DecidableEq α] : List α → List α
  | [] => []
  | x :: rest => x :: (distinct rest).filter (· ≠ x)

/-- The repairs whose charges are not there, by the items they name. -/
def orphans (h : Holdings) : List (Id × List Item) :=
  ((distinct (h.repairs.filterMap (·.linked))).filter fun i => !h.charges.any (·.id = i)).map
    fun i => (i, h.repairsOf i)

/-- The items that are not touched, orphaned repairs among them. -/
def untouched (h : Holdings) : List Item := h.pinned ++ h.orphans.flatMap (·.2)

/-- The charges with their repairs, numbered from `first` on. -/
def issued (h : Holdings) (first : Nat) : Except Fault (List Charge) :=
  (h.charges.zipIdx first).mapM fun (item, handle) => Charge.issued handle item (h.repairsOf item.id)

end Holdings

/-- What a reconciliation comes to. -/
structure Reconciliation where
  difference : Difference
  /-- Items that were not touched. -/
  pinned : List Item
  deriving DecidableEq

namespace Reconciliation

/-- The items that a new invoice has to carry. -/
def delta (r : Reconciliation) : List Item := r.difference.items

/-- The items of the difference and those not touched. -/
def resulting (r : Reconciliation) : List Item := r.delta ++ r.pinned

def isEmpty (r : Reconciliation) : Bool := r.delta.isEmpty

end Reconciliation

/-- The subscriptions of some charges, each with its ledger, in the order in which they come first. -/
def ledgers (issued proposed : List Charge) : List (Option Id × Ledger) :=
  (Holdings.distinct ((proposed ++ issued).map (·.item.subscription))).map fun s =>
    (s, ⟨issued.filter (·.item.subscription = s), proposed.filter (·.item.subscription = s)⟩)

def reconciliationLogger : String := "engines.reconciliation"

/-- Settles one ledger, and logs what it comes to unless that is nothing. -/
def reconcileLedger (ids : Nat → Id) (subscription : Option Id) (l : Ledger) : Run Difference := do
  let d ← (l.merge ids).1
  if !d.items.isEmpty then
    Run.log .debug reconciliationLogger "subscription_reconciled"
      [("subscription_id", .text ((subscription.map Id.text).getD "None")),
       ("new_items", .int d.newItems.length), ("repair_items", .int d.repairs.length)]
  return d

def reconcileLedgers (ids : Nat → Id) (ls : List (Option Id × Ledger)) : Run Difference := do
  let ds ← ls.mapM fun (s, l) => reconcileLedger ids s l
  return ⟨ds.flatMap (·.newItems), ds.flatMap (·.repairs)⟩

/-- Logs the repairs whose charges are not there. -/
def logOrphans (orphans : List (Id × List Item)) : Run Unit :=
  orphans.forM fun (linked, repairs) =>
    Run.log .warning reconciliationLogger "reconciliation_orphan_repair"
      [("linked_item_id", .text linked.text), ("repair_count", .int repairs.length)]

def reconciliationEngine : Engine :=
  ⟨"item_reconciliation", "1.0", "ItemReconciliationTree.reconcile", []⟩

/-- Reconciles proposed items with all items invoiced so far. Items of pinned subscriptions are not
touched. -/
def reconcile (existing proposed : List Item) (pinnedSubscriptions : List Id) : Run Reconciliation :=
  reconciliationEngine.traced [] do
    let holdings := Holdings.ofItems existing pinnedSubscriptions
    logOrphans holdings.orphans
    let issued ← holdings.issued proposed.length
    let proposals := proposed.zipIdx.map fun (item, handle) => Charge.proposed handle item
    let ids ← Run.mintMany (existing.length + proposed.length)
    let difference ← reconcileLedgers ids (ledgers issued proposals)
    let pinned := holdings.untouched
    Run.log .info reconciliationLogger "reconciliation_completed"
      [("existing_count", .int existing.length), ("proposed_count", .int proposed.length),
       ("new_count", .int difference.newItems.length),
       ("repair_count", .int difference.repairs.length), ("pinned_count", .int pinned.length)]
    return ⟨difference, pinned⟩

end Invoicing
