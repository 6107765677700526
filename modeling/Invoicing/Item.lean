import Invoicing.Money

/-!
# Invoice items

An `Item` is one line of an invoice: a fixed charge on a day, a recurring charge over days from
`start` up to `finish`, the repair of an earlier charge, or a line of another kind that comes from
outside. `Item.make` checks what each kind demands. Items are never changed; corrections are new
items.
-/

namespace Invoicing

inductive ItemKind where
  | fixed | recurring | repair | credit | adjustment | external | migration
  deriving DecidableEq

namespace ItemKind

def all : List ItemKind := [fixed, recurring, repair, credit, adjustment, external, migration]

def name : ItemKind → String
  | fixed => "FIXED"
  | recurring => "RECURRING"
  | repair => "REPAIR_ADJ"
  | credit => "CREDIT_ADJ"
  | adjustment => "ITEM_ADJ"
  | external => "EXTERNAL_CHARGE"
  | migration => "MIGRATION"

def ofName? (s : String) : Option ItemKind := all.find? (·.name = s)

/-- The kinds that come from billing; all others come from outside. -/
def isGenerated : ItemKind → Bool
  | fixed | recurring | repair => true
  | _ => false

end ItemKind

/-- What is wrong with an item of a kind: a fixed charge with an end, a recurring one whose range is
empty, a repair that names no item or has a positive amount. -/
def itemFault? (kind : ItemKind) (start : Date) (finish : Option Date) (linked : Option Id)
    (amount : Money) : Option Fault :=
  match kind with
  | .fixed => if finish.isSome then some .fixedItemWithEnd else none
  | .recurring => if finish.any (start < ·) then none else some (.emptyRange start finish)
  | .repair =>
    if linked.isNone then some .repairWithoutLink
    else
      match Decimal.lt? .zero amount.amount with
      | .ok true => some .positiveRepair
      | .ok false => none
      | .error s => some (.decimal s)
  | _ => none

/-- One line of an invoice. -/
structure Item where
  kind : ItemKind
  account : Id
  start : Date
  amount : Money
  subscription : Option Id
  bundle : Option Id
  plan : Option String
  phase : Option String
  /-- The first day behind the range. -/
  finish : Option Date
  /-- The price of one whole period. -/
  rate : Option Decimal
  /-- The item that this one repairs. -/
  linked : Option Id
  invoice : Option Id
  id : Id
  description : String
  sound : (itemFault? kind start finish linked amount).isNone
  deriving DecidableEq

namespace Item

/-- An item with these parts, unless something is wrong with it. -/
def make (kind : ItemKind) (account : Id) (start : Date) (amount : Money)
    (subscription bundle : Option Id) (plan phase : Option String) (finish : Option Date)
    (rate : Option Decimal) (linked invoice : Option Id) (id : Id) (description : String) :
    Except Fault Item :=
  match h : itemFault? kind start finish linked amount with
  | some f => .error f
  | none =>
    .ok ⟨kind, account, start, amount, subscription, bundle, plan, phase, finish, rate, linked,
      invoice, id, description, by rw [h]; rfl⟩

/-- A charge on one day. -/
def fixed (id account subscription bundle : Id) (plan phase : String) (day : Date) (amount : Money)
    (invoice : Option Id) : Except Fault Item :=
  make .fixed account day amount (some subscription) (some bundle) (some plan) (some phase) none none
    none invoice id ""

/-- A charge for the days from `start` up to `finish`. -/
def recurring (id account subscription bundle : Id) (plan phase : String) (start finish : Date)
    (amount : Money) (rate : Decimal) (invoice : Option Id) : Except Fault Item :=
  make .recurring account start amount (some subscription) (some bundle) (some plan) (some phase)
    (some finish) (some rate) none invoice id ""

/-- The item that takes back an amount of `i` for the days from `start` up to `finish`. -/
def repair (i : Item) (id : Id) (start : Date) (finish : Option Date) (amount : Money)
    (invoice : Option Id) : Except Fault Item :=
  make .repair i.account start amount i.subscription i.bundle i.plan i.phase finish none (some i.id)
    invoice id ""

/-- Items from outside, and items without a subscription, are never repaired. -/
def isPinned (i : Item) : Bool := i.subscription.isNone || !i.kind.isGenerated

def withInvoice (i : Item) (invoice : Id) : Item := { i with invoice := some invoice }

def trace (i : Item) : Value :=
  .fields
    [("item_type", .text i.kind.name),
     ("subscription_id", .ofText? (i.subscription.map Id.text)),
     ("plan", .ofText? i.plan),
     ("phase", .ofText? i.phase),
     ("start_date", .text i.start.iso),
     ("end_date", .ofText? (i.finish.map Date.iso)),
     ("amount", .text i.amount.amount.text),
     ("rate", .ofText? (i.rate.map Decimal.text)),
     ("linked_item_id", .ofText? (i.linked.map Id.text))]

end Item

/-- An invoice of an account. -/
structure Invoice where
  id : Id
  account : Id
  invoiceDate : Date
  target : Date
  currency : Currency
  items : List Item
  deriving DecidableEq

namespace Invoice

/-- An invoice made of items, each of which becomes a line of it. -/
def assemble (id account : Id) (invoiceDate target : Date) (currency : Currency) (items : List Item) :
    Invoice :=
  ⟨id, account, invoiceDate, target, currency, items.map (·.withInvoice id)⟩

/-- The sum of some amounts and a start. -/
def sum (start : Money) : List Item → Except Fault Money
  | [] => .ok start
  | i :: rest =>
    match start.add i.amount with
    | .ok m => sum m rest
    | .error f => .error f

def charged (i : Invoice) : Except Fault Money := sum (.zeroIn i.currency) i.items

end Invoice

end Invoicing
