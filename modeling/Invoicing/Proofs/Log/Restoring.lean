import Invoicing.Proofs.Generation.History
import Invoicing.Proofs.Log.Context
import Invoicing.Proofs.Log.Sessions

/-!
# Restored contexts

The log context behind a block of bound fields, and behind a call for an invoice. A block that is left,
by a failure or not, has put its own fields back, and every other field has the value it was last given
inside; a call for an invoice has put all fields back, if the strategies in force leave the context as it
was (`Log.Script.block_restores`). A block with a value that cannot be written is never entered, and so
puts nothing back.
-/

namespace Invoicing

/-- Whether two sessions have the same log context. -/
def Session.SameContext (s s' : Session) : Prop := s'.context = s.context

theorem Session.sameContext_isFrame : Session.IsFrame Session.SameContext where
  refl _ := rfl
  trans h₁ h₂ := h₂.trans h₁
  mint _ _ := rfl

theorem Session.sameContext_isCallFrame : Session.IsCallFrame Session.SameContext where
  toIsFrame := sameContext_isFrame
  log _ _ _ _ _ := rfl
  within fields r h s := by
    have hsame : (r.from_ { s with context := (s.context.bind fields).1 }).2.context =
        (s.context.bind fields).1 := h _
    change ((Run.within fields r).from_ s).2.context = s.context
    rw [Run.context_within, hsame, Log.Context.restore_bind]

theorem BillingModes.initial_keep_context : BillingModes.initial.Keep Session.SameContext :=
  keep_initial Session.sameContext_isFrame fun _ => Session.sameContext_isCallFrame.log _ _ _ _

/-! ## Blocks -/

namespace Log.Script

open Context (Binds Writable)
open Session (SameContext)

/-- A block that is left has put back the fields that its values bind, whatever was done to them inside;
every other field has the value that it was last given inside. The bindings around the block are as open
as before. A block is not entered if one of its values cannot be written: it fails, and leaves what setting
its values would leave. A call for an invoice has put all fields back, whatever it comes to. -/
theorem block_restores [TimeZones] (values : List (String × Value)) (body : Script) (l : Logging)
    {v : Invoicer} (hmodes : v.rules.modes.Keep SameContext) (r : InvoiceRequest) (s : Session) :
    (∀ inside, l.enter values = (.ok (), inside) →
      (∀ f, Binds values f → ((block values body).run l).2.context.get f = l.context.get f) ∧
      ∀ f, ¬ Binds values f →
        ((block values body).run l).2.context.get f = (body.run inside).2.context.get f ∧
        ((block values body).run l).2.context.get f =
          (Context.lastGiven? f body.given).or (l.context.get f)) ∧
    ((block values body).run l).2.bindings = l.bindings ∧
    ((∃ inside, l.enter values = (.ok (), inside)) ↔ Writable values) ∧
    (¬ Writable values → l.enter values = (.error .tooManyDigits, (l.set values).2) ∧
      (block values body).run l = (true, (l.set values).2)) ∧
    ∀ f, ((v.generate r).from_ s).2.context.get f = s.context.get f := by
  refine ⟨fun inside hin => ?_, by rw [run_eq],
    ⟨fun ⟨_, hin⟩ => (Logging.enter_eq_ok_iff.1 hin).1, fun h => ⟨_, Logging.enter_of_writable h⟩⟩,
    fun h => ⟨Logging.enter_of_not_writable h, run_block_of_not_writable h body l⟩, fun f => ?_⟩
  · obtain ⟨h, rfl⟩ := Logging.enter_eq_ok_iff.1 hin
    refine ⟨fun f hf => ?_, fun f hf => ?_⟩
    · rw [context_run_block hin, Context.get_restore, if_pos ((Context.mem_texts_iff h).2 hf)]
    · have hout : f ∉ (Context.texts values).map (·.1) :=
        fun hmem => hf ((Context.mem_texts_iff h).1 hmem)
      rw [context_run_block hin, Context.get_restore, if_neg hout]
      refine ⟨rfl, ?_⟩
      rw [run_eq, Context.get_set, Context.fst_bind, Context.get_set, Context.lastGiven?_eq_none hout,
        Option.none_or]
  · exact congrArg (Context.get · f) (Invoicer.keeps_generate Session.sameContext_isCallFrame r hmodes s)

/-- Values for a block that bind the account only. -/
def accountOnly : List (String × Value) :=
  [("account_id", .text "inner"), ("trace_id", .text "unknown"), ("correlation_id", .null)]

/-- Gives values to all fields within a block for the invoice that fails, and then fails itself. -/
def twiceFailing : Script :=
  .andThen (.rescue (.block [("invoice_id", .text "draft")]
    (.andThen (.set [("account_id", .text "lost"), ("correlation_id", .text "kept"),
      ("invoice_id", .text "lost")]) .fail)) .skip) .fail

/-- Values of which the second cannot be written. -/
def tooLong : List (String × Value) :=
  [("correlation_id", .text "left"), ("account_id", .int (Nat.pow 10 Text.maxDigits))]

def outerAccount : Logging := (Logging.set .start [("account_id", .text "outer")]).2

open TimeZones.UtcOnly

/-- The block fails, and only the correlation has a new value. A block that cannot be entered leaves the
field before the value that cannot be written. -/
theorem block_restores_failing :
    (Writable accountOnly ∧ ((block accountOnly twiceFailing).run outerAccount).1 = true ∧
      ((block accountOnly twiceFailing).run outerAccount).2.context =
        ⟨some "kept", some "outer", none⟩) ∧
    (¬ Writable tooLong ∧ (block tooLong .skip).run outerAccount =
      (true, { outerAccount with context := ⟨some "left", some "outer", none⟩ })) ∧
    ((firstInvoicer.generate firstRequest).from_ .start).2.context = .empty := by
  have hwritable : Writable accountOnly := by decide
  have hlong : ¬ Writable tooLong := by decide +kernel
  have hbound : Binds accountOnly .account := ⟨.text "inner", by simp [accountOnly, Field.name], nofun⟩
  have hunbound : ∀ f, f ≠ .account → ¬ Binds accountOnly f := by
    rintro f hf ⟨w, hmem, hw⟩
    cases f <;> simp_all [accountOnly, Field.name]
  obtain ⟨hleft, -, henter, -, hcall⟩ := block_restores accountOnly twiceFailing outerAccount
    (v := firstInvoicer) BillingModes.initial_keep_context firstRequest .start
  obtain ⟨inside, hinside⟩ := henter.2 hwritable
  obtain ⟨hin, hout⟩ := hleft inside hinside
  obtain ⟨-, -, -, hnever, -⟩ := block_restores tooLong .skip outerAccount
    (v := firstInvoicer) BillingModes.initial_keep_context firstRequest .start
  refine ⟨⟨hwritable, rfl, Context.ext_get fun f => ?_⟩, ⟨hlong, ?_⟩, Context.ext_get hcall⟩
  · cases f with
    | account => exact hin .account hbound
    | correlation => exact (hout .correlation (hunbound _ nofun)).2
    | invoice => exact (hout .invoice (hunbound _ nofun)).2
  · have htexts : Context.texts tooLong = [(.correlation, "left")] := by decide +kernel
    rw [(hnever hlong).2, Logging.set_eq, htexts]
    rfl

end Log.Script

end Invoicing
