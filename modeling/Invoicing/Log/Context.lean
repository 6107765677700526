import Invoicing.Fault
import Invoicing.Value.Text

/-!
# Log context

Three fields that every log record carries while they are bound: which run, which account, which
invoice. `Context.bind` binds fields and remembers what they were, `Context.restore` puts that back.
-/

namespace Invoicing.Log

inductive Field where
  | correlation | account | invoice
  deriving DecidableEq

namespace Field

def all : List Field := [correlation, account, invoice]

def name : Field → String
  | correlation => "correlation_id"
  | account => "account_id"
  | invoice => "invoice_id"

def ofName? (s : String) : Option Field := all.find? (·.name = s)

end Field

/-- The values of the bound fields. -/
structure Context where
  correlation : Option String
  account : Option String
  invoice : Option String
  deriving DecidableEq

namespace Context

def empty : Context := ⟨none, none, none⟩

def get (c : Context) : Field → Option String
  | .correlation => c.correlation
  | .account => c.account
  | .invoice => c.invoice

def put (c : Context) (f : Field) (v : Option String) : Context :=
  match f with
  | .correlation => { c with correlation := v }
  | .account => { c with account := v }
  | .invoice => { c with invoice := v }

@[simp] theorem get_put_self (c : Context) (f : Field) (v : Option String) :
    (c.put f v).get f = v := by
  cases f <;> rfl

theorem get_put_of_ne (c : Context) {f g : Field} (v : Option String) (h : g ≠ f) :
    (c.put f v).get g = c.get g := by
  cases f <;> cases g <;> first | rfl | exact absurd rfl h

def bound (c : Context) : List (String × String) :=
  Field.all.filterMap fun f => (c.get f).map fun v => (f.name, v)

/-- The field that a named value is for, with the value: none if the name is unknown, or the value is
nothing. -/
def fieldOf? (x : String × Value) : Option (Field × Value) :=
  (Field.ofName? x.1).bind fun f =>
    match x.2 with
    | .null => none
    | v => some (f, v)

/-- Gives named values to their fields, one after the other, each as a text. It stops at the first value
that cannot be written. -/
def giveEach (give : α → Field → String → α) (a : α) :
    List (String × Value) → Except Fault Unit × α
  | [] => (.ok (), a)
  | x :: rest =>
    match fieldOf? x with
    | none => giveEach give a rest
    | some (f, v) =>
      if v.isWritable then giveEach give (give a f v.shown) rest
      else (.error .tooManyDigits, a)

def setField (c : Context) (f : Field) (v : String) : Context := c.put f (some v)

def set (c : Context) (fields : List (Field × String)) : Context :=
  fields.foldl (fun c (f, v) => c.setField f v) c

/-- What the fields of a binding were before, the last first. -/
abbrev Saved := List (Field × Option String)

/-- Binds a field, and remembers what it was. -/
def bindField (state : Context × Saved) (f : Field) (v : String) : Context × Saved :=
  (state.1.setField f v, (f, state.1.get f) :: state.2)

/-- Binds fields one after the other. -/
def bind (c : Context) (fields : List (Field × String)) : Context × Saved :=
  fields.foldl (fun state (f, v) => bindField state f v) (c, [])

/-- Puts the fields of a binding back, the last bound first. -/
def restore (c : Context) (saved : Saved) : Context :=
  saved.foldl (fun c (f, v) => c.put f v) c

end Context

end Invoicing.Log
