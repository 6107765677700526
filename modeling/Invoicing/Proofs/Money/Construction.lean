import Invoicing.Money

/-!
# Two ways to build money

`Money.of` reads texts and whole numbers before it hands them to `Money.make`, and looks up the code of
the currency in between. The same amounts and currencies are taken either way, and the money is the same
(`Money.Agreement.ok_iff`). What cannot be taken is refused either way, but not always as the same class
of error: a text that says no number is misread, and the code of a currency can forestall the refusal of
an amount (`Money.of_agrees`).
-/

namespace Invoicing.Money

variable {amount currency : Value} {d : Decimal} {k : Currency} {e : Fault}

/-- Whether a value is a text or a whole number, which are read first. -/
def IsScalar (v : Value) : Prop := (v.asText?.isSome || v.asInt?.isSome) = true

/-- Whether a value is a text or a whole number that says no number. -/
def Misread (v : Value) : Prop :=
  IsScalar v ∧ v.isWritable = true ∧ Decimal.ofText? v.shown = none

/-- Whether an amount that is refused, and is not read first, comes with a text that is no code of a
currency. -/
def Forestalled (amount currency : Value) : Prop :=
  ¬ IsScalar amount ∧ (∃ e, amountOf amount = .error e) ∧
    currency.asText?.isSome ∧ currency.asText?.bind Currency.ofCode? = none

/-- Whether the two ways come to different faults. -/
def Parted (amount currency : Value) : Prop := Misread amount ∨ Forestalled amount currency

/-! ## Amounts -/

theorem scalarOf_of_not_scalar {v : Value} (h : ¬ IsScalar v) : scalarOf v = .ok v := if_neg h

theorem scalarOf_of_scalar {v : Value} (h : IsScalar v) :
    scalarOf v = if v.isWritable then
      match Decimal.ofText? v.shown with
      | some d => .ok (.decimal d)
      | none => .error (.decimal .invalidOperation)
    else .error .tooManyDigits := if_pos h

theorem amountOf_of_scalar {v : Value} (h : IsScalar v) :
    amountOf v = if v.isWritable then
      match Decimal.ofText? v.shown with
      | some d => .ok d
      | none => .error (.notAnAmount v)
    else .error .tooManyDigits := by
  unfold amountOf
  split
  case h_1 => cases h
  case h_2 => cases h
  case h_3 => rfl

theorem errorClass_of_amountOf (h : amountOf amount = .error e) : e.errorClass = "ValueError" := by
  unfold amountOf at h
  split at h
  · obtain rfl := Except.error.inj h
    rfl
  · cases h
  · split at h
    · split at h
      · cases h
      · obtain rfl := Except.error.inj h
        rfl
    · obtain rfl := Except.error.inj h
      rfl

theorem make_of_refused (h : amountOf amount = .error e) : make amount currency = .error e := by
  rw [make, h]
  rfl

theorem make_of_amount (h : amountOf amount = .ok d) :
    make amount currency = (currencyOf currency).map (⟨d, ·⟩) := by
  rw [make, h]
  cases currencyOf currency <;> rfl

/-! ## Currencies -/

/-- Money of an amount, where the code of the currency is looked up first. -/
def ofLookedUp (amount currency : Value) : Except Fault Money := do
  let currency ←
    if currency.asText?.isSome then (Currency.make currency).map .currency else pure currency
  make amount currency

theorem of_eq (amount currency : Value) :
    of amount currency = (scalarOf amount).bind fun a => ofLookedUp a currency := rfl

theorem currencyOf_of_text (h : currency.asText?.isSome) :
    currencyOf currency = Currency.make currency := by
  cases currency <;> first | rfl | cases h

theorem currencyMake_of_code (h : currency.asText?.bind Currency.ofCode? = some k) :
    Currency.make currency = .ok k := by
  rw [Currency.make, h]

theorem currencyMake_of_none (h : currency.asText?.bind Currency.ofCode? = none) :
    Currency.make currency = .error (.unknownCurrency currency.shown) := by
  rw [Currency.make, h]

theorem ofLookedUp_of_not_text (h : ¬ currency.asText?.isSome) :
    ofLookedUp amount currency = make amount currency := by
  rw [ofLookedUp, if_neg h]
  rfl

theorem ofLookedUp_of_code (htext : currency.asText?.isSome)
    (h : currency.asText?.bind Currency.ofCode? = some k) :
    ofLookedUp amount currency = make amount (.currency k) := by
  rw [ofLookedUp, if_pos htext, currencyMake_of_code h]
  rfl

theorem ofLookedUp_of_none (htext : currency.asText?.isSome)
    (h : currency.asText?.bind Currency.ofCode? = none) :
    ofLookedUp amount currency = .error (.unknownCurrency currency.shown) := by
  rw [ofLookedUp, if_pos htext, currencyMake_of_none h]
  rfl

theorem ofLookedUp_of_amount (h : amountOf amount = .ok d) :
    ofLookedUp amount currency = make amount currency := by
  by_cases htext : currency.asText?.isSome
  case neg => exact ofLookedUp_of_not_text htext
  rw [make_of_amount h, currencyOf_of_text htext]
  cases hcode : currency.asText?.bind Currency.ofCode? with
  | none => rw [ofLookedUp_of_none htext hcode, currencyMake_of_none hcode]; rfl
  | some k => rw [ofLookedUp_of_code htext hcode, currencyMake_of_code hcode, make_of_amount h]; rfl

theorem ofLookedUp_of_refused (h : amountOf amount = .error e)
    (hcode : ¬ (currency.asText?.isSome ∧ currency.asText?.bind Currency.ofCode? = none)) :
    ofLookedUp amount currency = .error e := by
  by_cases htext : currency.asText?.isSome
  case neg => rw [ofLookedUp_of_not_text htext, make_of_refused h]
  cases hk : currency.asText?.bind Currency.ofCode? with
  | none => exact absurd ⟨htext, hk⟩ hcode
  | some k => rw [ofLookedUp_of_code htext hk, make_of_refused h]

/-! ## Agreement -/

theorem amountOf_of_misread (h : Misread amount) :
    amountOf amount = .error (.notAnAmount amount) := by
  obtain ⟨hkind, hw, hread⟩ := h
  rw [amountOf_of_scalar hkind, if_pos hw, hread]

theorem of_of_misread (h : Misread amount) :
    of amount currency = .error (.decimal .invalidOperation) := by
  obtain ⟨hkind, hw, hread⟩ := h
  rw [of_eq, scalarOf_of_scalar hkind, if_pos hw, hread]
  rfl

theorem of_of_forestalled (h : Forestalled amount currency) :
    of amount currency = .error (.unknownCurrency currency.shown) := by
  obtain ⟨hkind, -, htext, hcode⟩ := h
  rw [of_eq, scalarOf_of_not_scalar hkind]
  exact ofLookedUp_of_none htext hcode

theorem of_of_scalar (h : IsScalar amount) (hread : ¬ Misread amount) :
    of amount currency = make amount currency := by
  have hamount := amountOf_of_scalar h
  rw [of_eq, scalarOf_of_scalar h]
  by_cases hw : amount.isWritable = true
  case neg =>
    rw [if_neg hw] at hamount ⊢
    exact (make_of_refused hamount).symm
  rw [if_pos hw] at hamount ⊢
  cases hd : Decimal.ofText? amount.shown with
  | none => exact absurd ⟨h, hw, hd⟩ hread
  | some d =>
    rw [hd] at hamount
    calc ofLookedUp (.decimal d) currency
        = make (.decimal d) currency := ofLookedUp_of_amount rfl
      _ = make amount currency := by rw [make_of_amount hamount, make_of_amount rfl]

theorem of_of_not_scalar (h : ¬ IsScalar amount) (hfore : ¬ Forestalled amount currency) :
    of amount currency = make amount currency := by
  rw [of_eq, scalarOf_of_not_scalar h]
  change ofLookedUp amount currency = _
  cases hamount : amountOf amount with
  | ok d => exact ofLookedUp_of_amount hamount
  | error e =>
    rw [make_of_refused hamount]
    exact ofLookedUp_of_refused hamount fun hcode => hfore ⟨h, ⟨e, hamount⟩, hcode⟩

theorem of_eq_make (h : ¬ Parted amount currency) : of amount currency = make amount currency := by
  obtain ⟨hread, hfore⟩ := not_or.1 h
  by_cases hkind : IsScalar amount
  · exact of_of_scalar hkind hread
  · exact of_of_not_scalar hkind hfore

theorem errorClass_ne (h : Parted amount currency) :
    ∃ e e', of amount currency = .error e ∧ make amount currency = .error e' ∧
      e.errorClass ≠ e'.errorClass := by
  obtain hread | hfore := h
  · refine ⟨_, _, of_of_misread hread, make_of_refused (amountOf_of_misread hread), ?_⟩
    change "InvalidOperation" ≠ "ValueError"
    decide
  · obtain ⟨e, hamount⟩ := hfore.2.1
    refine ⟨_, e, of_of_forestalled hfore, make_of_refused hamount, ?_⟩
    rw [errorClass_of_amountOf hamount]
    change "InvalidCurrencyError" ≠ "ValueError"
    decide

theorem of_eq_make_iff : of amount currency = make amount currency ↔ ¬ Parted amount currency := by
  refine ⟨fun hsame hparted => ?_, of_eq_make⟩
  obtain ⟨e, e', hof, hmake, hne⟩ := errorClass_ne hparted
  rw [hof, hmake] at hsame
  exact hne (congrArg Fault.errorClass (Except.error.inj hsame))

theorem of_ok_iff (m : Money) : of amount currency = .ok m ↔ make amount currency = .ok m := by
  by_cases h : Parted amount currency
  · obtain ⟨e, e', hof, hmake, -⟩ := errorClass_ne h
    rw [hof, hmake]
    exact ⟨nofun, nofun⟩
  · rw [of_eq_make h]

theorem errorClass_eq_iff {e e' : Fault} (hof : of amount currency = .error e)
    (hmake : make amount currency = .error e') :
    e.errorClass = e'.errorClass ↔ ¬ Parted amount currency := by
  refine ⟨fun hclass hparted => ?_, fun h => ?_⟩
  · obtain ⟨f, f', hf, hf', hne⟩ := errorClass_ne hparted
    obtain rfl := Except.error.inj (hof.symm.trans hf)
    obtain rfl := Except.error.inj (hmake.symm.trans hf')
    exact hne hclass
  · rw [of_eq_make h, hmake] at hof
    rw [Except.error.inj hof]

/-- How the two ways to build money compare on an amount and a currency. -/
structure Agreement (amount currency : Value) : Prop where
  /-- The same money comes of both. -/
  ok_iff : ∀ m, of amount currency = .ok m ↔ make amount currency = .ok m
  /-- `make` refuses a bad amount as a bad value, whatever the currency. -/
  make_refused : ∀ e, amountOf amount = .error e →
    make amount currency = .error e ∧ e.errorClass = "ValueError"
  /-- `of` fails to calculate with a text or a whole number that says no number. -/
  of_misread : Misread amount →
    ∃ e, of amount currency = .error e ∧ e.errorClass = "InvalidOperation"
  /-- Where `of` looks up the code before the amount, it is the code that it refuses. -/
  of_forestalled : Forestalled amount currency →
    ∃ e, of amount currency = .error e ∧ e.errorClass = "InvalidCurrencyError"
  /-- Both fail with errors of one class just if neither is the case. -/
  class_iff : ∀ e e', of amount currency = .error e → make amount currency = .error e' →
    (e.errorClass = e'.errorClass ↔ ¬ Parted amount currency)
  /-- Both come to the same, be it money or a fault, just if neither is the case. -/
  same_iff : of amount currency = make amount currency ↔ ¬ Parted amount currency

/-- Money is built alike either way, and refused alike but for two cases. -/
theorem of_agrees (amount currency : Value) : Agreement amount currency where
  ok_iff := of_ok_iff
  make_refused _ h := ⟨make_of_refused h, errorClass_of_amountOf h⟩
  of_misread h := ⟨_, of_of_misread h, rfl⟩
  of_forestalled h := ⟨_, of_of_forestalled h, rfl⟩
  class_iff _ _ := errorClass_eq_iff
  same_iff := of_eq_make_iff

/-- A text that says no number is refused as a bad value by `make` alone. -/
theorem of_misread_word :
    of (.text "abc") (.text "USD") = .error (.decimal .invalidOperation) ∧
      make (.text "abc") (.text "USD") = .error (.notAnAmount (.text "abc")) ∧
      (Fault.decimal .invalidOperation).errorClass ≠
        (Fault.notAnAmount (.text "abc")).errorClass := by
  refine ⟨rfl, rfl, ?_⟩
  change "InvalidOperation" ≠ "ValueError"
  decide

example : of .null (.text "XXX") = .error (.unknownCurrency "XXX") ∧
    make .null (.text "XXX") = .error (.notAnAmount .null) := ⟨rfl, rfl⟩

end Invoicing.Money
