import Invoicing.BillingModes
import Invoicing.Item
import Invoicing.Proofs.Outcome

/-!
# What fails with what

Two kinds of faults say that billing went wrong by itself: a segment that ends before it starts, and an
item that the rules of its own kind refuse. All others are plain: they come from amounts, currencies
and dates. What is said here is which operations fail plainly, and that of the items which billing makes
only repairs can be refused, for their sign.
-/

namespace Invoicing

namespace Fault

/-- Whether a fault is the refusal of an item: it breaks a rule of its own kind. -/
def IsRefusal : Fault → Prop
  | fixedItemWithEnd | emptyRange .. | repairWithoutLink | positiveRepair => True
  | _ => False

/-- Whether a fault neither refuses an item nor says that a segment ends before it starts. -/
def IsPlain : Fault → Prop
  | datesOutOfOrder .. => False
  | f => ¬ f.IsRefusal

theorem IsPlain.not_isRefusal {f : Fault} (h : f.IsPlain) : ¬ f.IsRefusal := by
  cases f <;> first | exact h | exact id

end Fault

theorem Currency.make_plain (v : Value) : FailsOnly Fault.IsPlain (Currency.make v) := by
  unfold Currency.make
  split
  · exact .ok _
  · exact .error id

namespace Money

variable (m n : Money) (amount currency : Value)

theorem scalarOf_plain : FailsOnly Fault.IsPlain (scalarOf amount) := by
  unfold scalarOf
  split
  · split
    · split
      · exact .ok _
      · exact .error id
    · exact .error id
  · exact .ok _

theorem amountOf_plain : FailsOnly Fault.IsPlain (amountOf amount) := by
  unfold amountOf
  split
  · exact .error id
  · exact .ok _
  · split
    · split
      · exact .ok _
      · exact .error id
    · exact .error id

theorem currencyOf_plain : FailsOnly Fault.IsPlain (currencyOf currency) := by
  unfold currencyOf
  split
  · exact .ok _
  · exact Currency.make_plain _
  · exact Currency.make_plain _
  · exact .error id

theorem make_plain : FailsOnly Fault.IsPlain (make amount currency) :=
  (amountOf_plain amount).bind fun a _ => (currencyOf_plain currency).bind fun c _ =>
    .ok (Money.mk a c)

theorem of_plain : FailsOnly Fault.IsPlain (of amount currency) := by
  unfold of
  refine (scalarOf_plain amount).bind fun a _ => ?_
  dsimp only
  split
  · exact (Currency.make_plain currency).map.bind fun c _ => make_plain a c
  · exact make_plain a currency

theorem add_plain : FailsOnly Fault.IsPlain (m.add n) := by
  unfold add
  split
  · exact FailsOnly.map (.mapError fun _ => id)
  · exact .error id

theorem sub_plain : FailsOnly Fault.IsPlain (m.sub n) := by
  unfold sub
  split
  · exact FailsOnly.map (.mapError fun _ => id)
  · exact .error id

theorem neg_plain : FailsOnly Fault.IsPlain m.neg :=
  FailsOnly.map (.mapError fun _ => id)

theorem round_plain (mode : Option RoundingMode) : FailsOnly Fault.IsPlain (m.round mode) := by
  unfold round
  split
  · exact .error id
  · exact FailsOnly.map (.mapError fun _ => id)

end Money

theorem localDate_plain [TimeZones] (t : Timestamp) (zone : String) :
    FailsOnly Fault.IsPlain (localDate t zone) := by
  unfold localDate
  split
  · exact .error id
  · split
    · exact .error id
    · exact .mapError fun _ => id

theorem BillingModes.get_plain (r : BillingModes) (mode : String) :
    FailsOnly Fault.IsPlain (r.get mode) := by
  unfold BillingModes.get
  split
  · exact .ok _
  · exact .error id

namespace Item

variable {kind : ItemKind} {account : Id} {start : Date} {amount : Money}
  {subscription bundle : Option Id} {plan phase : Option String} {finish : Option Date}
  {rate : Option Decimal} {linked invoice : Option Id} {id : Id} {description : String}

theorem make_fails : FailsOnly (fun f => itemFault? kind start finish linked amount = some f)
    (make kind account start amount subscription bundle plan phase finish rate linked invoice id
      description) := by
  unfold make
  split
  case h_1 f hf => exact .error hf
  case h_2 => exact .ok _

theorem fixed_plain {account subscription bundle : Id} {plan phase : String} (day : Date) :
    FailsOnly Fault.IsPlain
      (fixed id account subscription bundle plan phase day amount invoice) :=
  make_fails.mono fun f hf => by simp [itemFault?] at hf

theorem recurring_plain {account subscription bundle : Id} {plan phase : String} {finish : Date}
    (h : start < finish) (rate : Decimal) : FailsOnly Fault.IsPlain
      (recurring id account subscription bundle plan phase start finish amount rate invoice) :=
  make_fails.mono fun f hf => by simp [itemFault?, h] at hf

theorem repair_fails (i : Item) : FailsOnly
    (fun f => f.IsPlain ∨ f = .positiveRepair ∧ Decimal.lt? .zero amount.amount = .ok true)
    (i.repair id start finish amount invoice) := by
  refine make_fails.mono fun f hf => ?_
  simp only [itemFault?, Option.isNone_some, Bool.false_eq_true, if_false] at hf
  split at hf
  case h_1 hpositive => exact .inr ⟨(Option.some.inj hf).symm, hpositive⟩
  case h_2 => simp at hf
  case h_3 s _ =>
    obtain rfl := Option.some.inj hf
    exact .inl fun h => h

end Item

end Invoicing
