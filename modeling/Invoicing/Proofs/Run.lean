import Invoicing.Proofs.Outcome
import Invoicing.Reconciliation

/-!
# Runs step by step

What each way to build a `Run` does to a session. Logging and binding context fields change nothing
but the session's log, so a result only depends on the number of ids minted; the session lemmas here
are tagged for `simp`, which takes a run apart until only that is left.
-/

namespace Invoicing.Run

variable {α β : Type} {s : Session}

@[simp] theorem from_pure (a : α) : (pure a : Run α).from_ s = (.ok a, s) := rfl

@[simp] theorem from_throw (f : Fault) : (throw f : Run α).from_ s = (.error f, s) := rfl

theorem from_bind (r : Run α) (f : α → Run β) : (r >>= f).from_ s =
    match r.from_ s with
    | (.ok a, s') => (f a).from_ s'
    | (.error e, s') => (.error e, s') := by
  simp only [from_, ExceptT.run_bind, StateT.run_bind]
  rcases (ExceptT.run r).run s with ⟨_ | a, s'⟩ <;> rfl

theorem from_bind_ok {r : Run α} {f : α → Run β} {a : α} {s' : Session}
    (h : r.from_ s = (.ok a, s')) : (r >>= f).from_ s = (f a).from_ s' := by
  rw [from_bind, h]

theorem from_bind_error {r : Run α} {f : α → Run β} {e : Fault} {s' : Session}
    (h : r.from_ s = (.error e, s')) : (r >>= f).from_ s = (.error e, s') := by
  rw [from_bind, h]

@[simp] theorem from_lift (x : Except Fault α) : (liftM x : Run α).from_ s = (x, s) := rfl

@[simp] theorem from_ofExcept (x : Except Fault α) : (ofExcept x).from_ s = (x, s) := rfl

@[simp] theorem from_mint :
    mint.from_ s = (.ok (.minted s.minted), { s with minted := s.minted + 1 }) := rfl

@[simp] theorem from_mintMany (n : Nat) : (mintMany n).from_ s =
    (.ok fun i => .minted (s.minted + i), { s with minted := s.minted + n }) := rfl

/-! ## Steps that mint nothing -/

/-- Whether a run comes to `x` in every session and mints nothing. -/
def Quiet (r : Run α) (x : Except Fault α) : Prop :=
  ∀ s, ∃ s', r.from_ s = (x, s') ∧ s'.minted = s.minted

namespace Quiet

theorem pure (a : α) : Quiet (Pure.pure a) (.ok a) := fun s => ⟨s, rfl, rfl⟩

theorem ofExcept (x : Except Fault α) : Quiet (Run.ofExcept x) x := fun s => ⟨s, rfl, rfl⟩

theorem lift (x : Except Fault α) : Quiet (liftM x : Run α) x := fun s => ⟨s, rfl, rfl⟩

theorem liftCalendar (x : Except CalendarFault α) :
    Quiet (liftM x : Run α) (x.mapError .calendar) := fun s => ⟨s, rfl, rfl⟩

theorem throw (f : Fault) : Quiet (MonadExcept.throw f : Run α) (.error f) := fun s => ⟨s, rfl, rfl⟩

theorem log (level : Log.Level) (logger message : String) (extra : List (String × Value)) :
    Quiet (Run.log level logger message extra) (.ok ()) := fun _ => ⟨_, rfl, rfl⟩

theorem bind {r : Run α} {x : Except Fault α} {f : α → Run β} {y : α → Except Fault β}
    (hr : Quiet r x) (hf : ∀ a, x = .ok a → Quiet (f a) (y a)) : Quiet (r >>= f) (x >>= y) := by
  intro s
  obtain ⟨s₁, h₁, hs₁⟩ := hr s
  cases x with
  | error e => exact ⟨s₁, from_bind_error h₁, hs₁⟩
  | ok a =>
    obtain ⟨s₂, h₂, hs₂⟩ := hf a rfl s₁
    exact ⟨s₂, (from_bind_ok h₁).trans h₂, hs₂.trans hs₁⟩

theorem mapM {f : α → Run β} {g : α → Except Fault β} (l : List α)
    (h : ∀ a ∈ l, Quiet (f a) (g a)) : Quiet (l.mapM f) (l.mapM g) := by
  induction l with
  | nil => exact Quiet.pure []
  | cons a l ih =>
    rw [List.mapM_cons, List.mapM_cons]
    refine (h a (by simp)).bind fun b _ => ?_
    exact (ih fun x hx => h x (by simp [hx])).bind fun bs _ => Quiet.pure _

theorem forM {f : α → Run Unit} (l : List α) (h : ∀ a ∈ l, Quiet (f a) (.ok ())) :
    Quiet (l.forM f) (.ok ()) := by
  induction l with
  | nil => exact Quiet.pure ()
  | cons a l ih =>
    change Quiet (f a >>= fun _ => l.forM f) _
    exact (h a (by simp)).bind (y := fun _ => .ok ()) fun _ _ => ih fun x hx => h x (by simp [hx])

end Quiet

theorem from_within {r : Run α} (fields : List (Log.Field × String)) {x : Except Fault α}
    {s' : Session} (h : r.from_ { s with context := (s.context.bind fields).1 } = (x, s')) :
    ∃ context, (within fields r).from_ s = (x, { s' with context := context }) := by
  refine ⟨s'.context.restore (s.context.bind fields).2, ?_⟩
  set out := r.from_ { s with context := (s.context.bind fields).1 }
  change (out.1, { out.2 with context := out.2.context.restore (s.context.bind fields).2 }) = _
  rw [h]

theorem from_within_bind {r : Run β} {f : β → Run α} {fields : List (Log.Field × String)} {b : β}
    {s₁ : Session} {x : Except Fault α} {P : Nat → Prop}
    (h₁ : r.from_ { s with context := (s.context.bind fields).1 } = (.ok b, s₁))
    (h₂ : ∃ s', (f b).from_ s₁ = (x, s') ∧ P s'.minted) :
    ∃ s', (within fields (r >>= f)).from_ s = (x, s') ∧ P s'.minted := by
  obtain ⟨s₂, h₂, hp⟩ := h₂
  obtain ⟨context, h⟩ := from_within fields ((from_bind_ok h₁).trans h₂)
  exact ⟨_, h, hp⟩

/-! ## Runs that were answered, taken apart -/

section

variable {s' : Session}

theorem from_bind_eq_ok {r : Run α} {f : α → Run β} {b : β}
    (h : (r >>= f).from_ s = (.ok b, s')) :
    ∃ a s₁, r.from_ s = (.ok a, s₁) ∧ (f a).from_ s₁ = (.ok b, s') := by
  rw [from_bind] at h
  split at h
  case h_1 a s₁ ha => exact ⟨a, s₁, ha, h⟩
  case h_2 => cases h

theorem from_lift_eq_ok {x : Except Fault α} {a : α} (h : (liftM x : Run α).from_ s = (.ok a, s')) :
    x = .ok a := congrArg Prod.fst h

theorem from_within_eq {r : Run α} {fields : List (Log.Field × String)} {x : Except Fault α}
    (h : (within fields r).from_ s = (x, s')) :
    ∃ s₁, r.from_ { s with context := (s.context.bind fields).1 } = (x, s₁) := by
  rcases hr : r.from_ { s with context := (s.context.bind fields).1 } with ⟨y, s₁⟩
  obtain ⟨context, hrun⟩ := from_within fields hr
  obtain rfl : y = x := congrArg Prod.fst (hrun.symm.trans h)
  exact ⟨s₁, rfl⟩

theorem Quiet.eq_ok {r : Run α} {x : Except Fault α} (hr : Quiet r x) {a : α}
    (h : r.from_ s = (.ok a, s')) : x = .ok a := by
  obtain ⟨s₁, h₁, -⟩ := hr s
  exact congrArg Prod.fst (h₁.symm.trans h)

end

end Invoicing.Run
