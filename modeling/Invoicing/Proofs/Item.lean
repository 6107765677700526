import Invoicing.Proofs.Outcome
import Invoicing.Item

/-!
# Items that were made

`Item.make_eq_ok_iff` says what an item made is, in one equation for all its parts. A charge that is
proposed is sound by its kind alone: a fixed one has no end, a recurring one has a day at least.
-/

namespace Invoicing.Item

variable {kind : ItemKind} {account : Id} {start : Date} {amount : Money}
  {subscription bundle : Option Id}
  {plan phase : Option String} {finish : Option Date} {rate : Option Decimal}
  {linked invoice : Option Id} {id : Id} {description : String} {i : Item}

theorem make_eq_ok_iff :
    make kind account start amount subscription bundle plan phase finish rate linked invoice id
      description = .ok i ↔
    ∃ h, i = ⟨kind, account, start, amount, subscription, bundle, plan, phase, finish, rate, linked,
      invoice, id, description, h⟩ := by
  unfold make
  split
  case h_1 f hf => simp [hf]
  case h_2 hf => simp [hf, eq_comm]

theorem repair_parts {r : Item} (h : i.repair id start finish amount invoice = .ok r) :
    r.kind = .repair ∧ r.linked = some i.id ∧ r.subscription = i.subscription ∧ r.start = start ∧
      r.amount = amount := by
  obtain ⟨_, rfl⟩ := make_eq_ok_iff.1 h
  exact ⟨rfl, rfl, rfl, rfl, rfl⟩

theorem repair_isOk (i : Item) (id : Id) (start : Date) (finish : Option Date) {amount : Money}
    (invoice : Option Id) (h : Decimal.lt? .zero amount.amount = .ok false) :
    ∃ r, i.repair id start finish amount invoice = .ok r :=
  ⟨_, make_eq_ok_iff.2 ⟨by simp [itemFault?, h], rfl⟩⟩

theorem finish_of_fixed (h : i.kind = .fixed) : i.finish = none := by
  have := i.sound
  rw [h] at this
  cases hf : i.finish <;> simp_all [itemFault?]

theorem finish_of_recurring (h : i.kind = .recurring) : ∃ e, i.finish = some e ∧ i.start < e := by
  have := i.sound
  rw [h] at this
  cases hf : i.finish with
  | none => simp [itemFault?, hf] at this
  | some e =>
    refine ⟨e, rfl, ?_⟩
    by_contra hlt
    simp [itemFault?, hf, hlt] at this

theorem kind_of_not_isPinned (h : i.isPinned = false) (hk : i.kind ≠ .repair) :
    i.kind = .fixed ∨ i.kind = .recurring := by
  simp only [isPinned, Bool.or_eq_false_iff, Bool.not_eq_false'] at h
  cases hkind : i.kind <;> simp_all [ItemKind.isGenerated]

end Invoicing.Item
