import Invoicing.Proofs.Log.Fields
import Invoicing.Proofs.Log.Sessions

/-!
# What runs write

A run adds records to the journal, also when it fails. `Run.Writes` says what they have to do with the
context they are written in and with the result of the run. Of most records only a few messages matter:
the trail of some records are those with one of these, and `Run.Trails` says what the trail of a run is.
Trails of steps are put one behind the other (`Run.Trails.bind`).
-/

namespace Invoicing

open Log (Record)

variable {α β : Type} {messages : List String}

/-- The record that is written in a context. -/
def Log.Record.entry (c : Log.Context) (level : Log.Level) (logger message : String)
    (extra : List (String × Value)) : Record :=
  ⟨0, .text level.name, .text (Log.loggerName logger), message, c.bound, extra, none⟩

theorem Log.Record.entry_writtenIn (c : Log.Context) (level : Log.Level) (logger message : String)
    (extra : List (String × Value)) : (entry c level logger message extra).WrittenIn c :=
  ⟨rfl, rfl, level, rfl⟩

/-- Whether a run adds records as `P` says, and leaves the context as it was. -/
def Run.Writes (P : Log.Context → Except Fault α → List Record → Prop) (r : Run α) : Prop :=
  ∀ s, ∃ new, (r.from_ s).2.journal = s.journal ++ new ∧ (r.from_ s).2.context = s.context ∧
    P s.context (r.from_ s).1 new

/-- Whether a session comes from another by records of its context, none of which has one of some
messages. -/
def Session.Aside (messages : List String) (s s' : Session) : Prop :=
  s'.context = s.context ∧ ∃ new, s'.journal = s.journal ++ new ∧
    ∀ rec ∈ new, rec.WrittenIn s.context ∧ rec.message ∉ messages

theorem Session.aside_isFrame (messages : List String) : Session.IsFrame (Session.Aside messages) where
  refl s := ⟨rfl, [], (List.append_nil _).symm, by simp⟩
  mint s n := ⟨rfl, [], (List.append_nil _).symm, by simp⟩
  trans := by
    rintro s₁ s₂ s₃ ⟨hc, new, hnew, hall⟩ ⟨hc', new', hnew', hall'⟩
    refine ⟨hc'.trans hc, new ++ new', ?_, ?_⟩
    · rw [hnew', hnew, List.append_assoc]
    · rw [hc] at hall'
      exact fun rec hrec => (List.mem_append.1 hrec).elim (hall rec) (hall' rec)

theorem Run.Keeps.log_aside {level : Log.Level} {logger message : String}
    {extra : List (String × Value)} (h : message ∉ messages) :
    Keeps (Session.Aside messages) (Run.log level logger message extra) := by
  refine fun s => ⟨rfl, _, rfl, ?_⟩
  simp only [List.mem_singleton, forall_eq]
  exact ⟨Record.entry_writtenIn s.context level logger message extra, h⟩

theorem BillingModes.initial_keep_aside (h : "billing_mode_invalid_date_sequence" ∉ messages) :
    BillingModes.initial.Keep (Session.Aside messages) :=
  keep_initial (Session.aside_isFrame messages) fun _ => .log_aside h

namespace Run.Writes

variable {P Q : Log.Context → Except Fault α → List Record → Prop} {r : Run α}

theorem mono (hr : Writes P r) (h : ∀ c x new, P c x new → Q c x new) : Writes Q r := by
  intro s
  obtain ⟨new, hnew, hc, hp⟩ := hr s
  exact ⟨new, hnew, hc, h _ _ _ hp⟩

theorem lift {x : Except Fault α} (h : ∀ c, P c x []) : Writes P (liftM x : Run α) :=
  fun _ => ⟨[], (List.append_nil _).symm, rfl, h _⟩

theorem liftCalendar {x : Except CalendarFault α} (h : ∀ c, P c (x.mapError .calendar) []) :
    Writes P (liftM x : Run α) :=
  fun _ => ⟨[], (List.append_nil _).symm, rfl, h _⟩

theorem throw {f : Fault} (h : ∀ c, P c (.error f) []) : Writes P (MonadExcept.throw f : Run α) :=
  fun _ => ⟨[], (List.append_nil _).symm, rfl, h _⟩

theorem pure {a : α} (h : ∀ c, P c (.ok a) []) : Writes P (Pure.pure a) :=
  fun _ => ⟨[], (List.append_nil _).symm, rfl, h _⟩

theorem log (level : Log.Level) (logger message : String) (extra : List (String × Value)) :
    Writes (fun c x new => x = .ok () ∧ new = [.entry c level logger message extra])
      (Run.log level logger message extra) :=
  fun _ => ⟨_, rfl, rfl, rfl, rfl⟩

theorem mint : Writes (fun _ _ new => new = []) Run.mint :=
  fun _ => ⟨[], (List.append_nil _).symm, rfl, rfl⟩

theorem of_keeps (h : Keeps (Session.Aside messages) r) :
    Writes (fun c _ new => ∀ rec ∈ new, rec.WrittenIn c ∧ rec.message ∉ messages) r := by
  intro s
  obtain ⟨hc, new, hnew, hall⟩ := h s
  exact ⟨new, hnew, hc, hall⟩

theorem bind {f : α → Run β} {R : α → Log.Context → Except Fault β → List Record → Prop}
    {Q : Log.Context → Except Fault β → List Record → Prop} (hr : Writes P r)
    (hf : ∀ a, Writes (R a) (f a)) (herror : ∀ c e new, P c (.error e) new → Q c (.error e) new)
    (hok : ∀ c a x new new', P c (.ok a) new → R a c x new' → Q c x (new ++ new')) :
    Writes Q (r >>= f) := by
  intro s
  obtain ⟨new, hnew, hc, hp⟩ := hr s
  cases hrun : r.from_ s with
  | mk x s₁ =>
    rw [hrun] at hnew hc hp
    cases x with
    | error e =>
      rw [from_bind_error hrun]
      exact ⟨new, hnew, hc, herror _ _ _ hp⟩
    | ok a =>
      rw [from_bind_ok hrun]
      obtain ⟨new', hnew', hc', hq⟩ := hf a s₁
      rw [hc] at hq
      refine ⟨new ++ new', ?_, hc'.trans hc, hok _ _ _ _ _ hp hq⟩
      rw [hnew', hnew, List.append_assoc]

theorem bind_of_nothing {f : α → Run β} {Q : Log.Context → Except Fault β → List Record → Prop}
    (hr : Writes (fun _ _ new => new = []) r) (herror : ∀ c e, Q c (.error e) [])
    (hf : ∀ a, Writes Q (f a)) : Writes Q (r >>= f) := by
  refine bind hr hf ?_ ?_
  · rintro c e new rfl
    exact herror c e
  · rintro c a x new new' rfl hq
    exact hq

theorem log_bind {level : Log.Level} {logger message : String} {extra : List (String × Value)}
    {f : Unit → Run α} (hf : Writes P (f ()))
    (h : ∀ c x new, P c x new → Q c x (.entry c level logger message extra :: new)) :
    Writes Q (Run.log level logger message extra >>= f) := by
  refine bind (log level logger message extra) (fun _ => hf) ?_ ?_
  · rintro c e new ⟨herror, -⟩
    cases herror
  · rintro c _ x new new' ⟨-, rfl⟩ hp
    exact h c x new' hp

theorem log_pure {level : Log.Level} {logger message : String} {extra : List (String × Value)} {a : α}
    (h : ∀ c, P c (.ok a) [.entry c level logger message extra]) :
    Writes P (do Run.log level logger message extra; return a) := by
  refine log_bind (pure (P := fun _ x new => x = .ok a ∧ new = []) fun _ => ⟨rfl, rfl⟩) ?_
  rintro c x new ⟨rfl, rfl⟩
  exact h c

theorem within (fields : List (Log.Field × String)) (hr : Writes P r) :
    Writes (fun c x new => P (c.set fields) x new) (Run.within fields r) := by
  intro s
  obtain ⟨new, hnew, hc, hp⟩ := hr { s with context := (s.context.bind fields).1 }
  have hrestored : ((Run.within fields r).from_ s).2.context = s.context := by
    rw [context_within, hc, Log.Context.restore_bind]
  refine ⟨new, hnew, hrestored, ?_⟩
  change P (s.context.set fields) _ new
  rw [← Log.Context.fst_bind]
  exact hp

end Run.Writes

/-! ## Trails -/

namespace Log

/-- The records that have one of some messages. -/
def trail (messages : List String) (records : List Record) : List Record :=
  records.filter fun rec => messages.contains rec.message

@[simp] theorem trail_append (xs ys : List Record) :
    trail messages (xs ++ ys) = trail messages xs ++ trail messages ys := List.filter_append ..

theorem trail_eq_nil {records : List Record} (h : ∀ rec ∈ records, rec.message ∉ messages) :
    trail messages records = [] := by
  simpa [trail, List.filter_eq_nil_iff] using h

/-- The records with a message. -/
def withMessage (message : String) (records : List Record) : List Record :=
  records.filter (·.message = message)

@[simp] theorem withMessage_append (message : String) (xs ys : List Record) :
    withMessage message (xs ++ ys) = withMessage message xs ++ withMessage message ys :=
  List.filter_append ..

theorem withMessage_cons (message : String) (rec : Record) (records : List Record) :
    withMessage message (rec :: records) =
      if rec.message = message then rec :: withMessage message records
      else withMessage message records := by
  rw [withMessage, List.filter_cons]
  simp only [decide_eq_true_eq]
  rfl

theorem withMessage_eq_nil {message : String} {records : List Record}
    (h : ∀ rec ∈ records, rec.message ≠ message) : withMessage message records = [] := by
  simpa [withMessage, List.filter_eq_nil_iff] using h

theorem withMessage_trail {message : String} (h : message ∈ messages) (records : List Record) :
    withMessage message (trail messages records) = withMessage message records := by
  unfold withMessage trail
  rw [List.filter_filter]
  refine List.filter_congr fun rec _ => ?_
  by_cases hm : rec.message = message
  · simp [hm, h]
  · simp [hm]

end Log

open Log (trail)

/-- Whether a run writes records of its context, of which those with one of some messages have to do with
its result as `Q` says. -/
def Run.Trails (messages : List String) (Q : Except Fault α → List Record → Prop) (r : Run α) : Prop :=
  r.Writes fun c x new => (∀ rec ∈ new, rec.WrittenIn c) ∧ Q x (trail messages new)

namespace Run.Trails

variable {Q R : Except Fault α → List Record → Prop} {r : Run α}

theorem mono (hr : Trails messages R r) (h : ∀ x t, R x t → Q x t) : Trails messages Q r :=
  Writes.mono hr fun _ _ _ hp => ⟨hp.1, h _ _ hp.2⟩

theorem pure {a : α} (h : Q (.ok a) []) : Trails messages Q (Pure.pure a) :=
  Writes.pure fun _ => ⟨by simp, h⟩

theorem of_keeps (hr : Keeps (Session.Aside messages) r) (h : ∀ x, Q x []) : Trails messages Q r := by
  refine (Writes.of_keeps hr).mono fun c x new hnew => ⟨fun rec hrec => (hnew rec hrec).1, ?_⟩
  rw [Log.trail_eq_nil fun rec hrec => (hnew rec hrec).2]
  exact h x

theorem bind {f : α → Run β} {S : α → Except Fault β → List Record → Prop}
    {Q : Except Fault β → List Record → Prop} (hr : Trails messages R r)
    (hf : ∀ a, Trails messages (S a) (f a)) (herror : ∀ e t, R (.error e) t → Q (.error e) t)
    (hok : ∀ a x t t', R (.ok a) t → S a x t' → Q x (t ++ t')) : Trails messages Q (r >>= f) := by
  refine Writes.bind hr hf (fun c e new hp => ⟨hp.1, herror e _ hp.2⟩) ?_
  rintro c a x new new' ⟨hnew, hp⟩ ⟨hnew', hq⟩
  refine ⟨fun rec hrec => (List.mem_append.1 hrec).elim (hnew rec) (hnew' rec), ?_⟩
  rw [Log.trail_append]
  exact hok a x _ _ hp hq

theorem bind_of_keeps {f : α → Run β} {Q : Except Fault β → List Record → Prop}
    (hr : Keeps (Session.Aside messages) r) (herror : ∀ e, Q (.error e) [])
    (hf : ∀ a, Trails messages Q (f a)) : Trails messages Q (r >>= f) := by
  refine bind (of_keeps (Q := fun _ t => t = []) hr fun _ => rfl) hf ?_ ?_
  · rintro e t rfl
    exact herror e
  · rintro a x t t' rfl hq
    exact hq

theorem bind_pure {f : α → β} {Q : Except Fault β → List Record → Prop} (hr : Trails messages R r)
    (h : ∀ x t, R x t → Q (x.map f) t) : Trails messages Q (r >>= fun a => Pure.pure (f a)) := by
  refine bind hr (S := fun a x t => x = .ok (f a) ∧ t = []) (fun a => pure ⟨rfl, rfl⟩)
    (fun e t => h (.error e) t) ?_
  rintro a x t t' ht ⟨rfl, rfl⟩
  rw [List.append_nil]
  exact h (.ok a) t ht

variable {level : Log.Level} {logger message : String} {extra : List (String × Value)}
  {f : Unit → Run β} {Q : Except Fault β → List Record → Prop}

theorem log_bind {S : Except Fault β → List Record → Prop} (hmem : message ∈ messages)
    (hf : Trails messages S (f ()))
    (h : ∀ c x t, S x t → Q x (.entry c level logger message extra :: t)) :
    Trails messages Q (Run.log level logger message extra >>= f) := by
  refine Writes.log_bind hf fun c x new hp => ?_
  have htrail : trail messages [.entry c level logger message extra] =
      [.entry c level logger message extra] := by simp [trail, Record.entry, hmem]
  refine ⟨List.forall_mem_cons.2 ⟨Record.entry_writtenIn c level logger message extra, hp.1⟩, ?_⟩
  rw [← List.singleton_append, Log.trail_append, htrail]
  exact h c x _ hp.2

theorem log_pure {a : β} (hmem : message ∈ messages)
    (h : ∀ c, Q (.ok a) [.entry c level logger message extra]) :
    Trails messages Q (do Run.log level logger message extra; return a) := by
  refine log_bind hmem (pure (Q := fun x t => x = .ok a ∧ t = []) ⟨rfl, rfl⟩) ?_
  rintro c x t ⟨rfl, rfl⟩
  exact h c

theorem log_bind_aside (hmem : message ∉ messages) (hf : Trails messages Q (f ())) :
    Trails messages Q (Run.log level logger message extra >>= f) := by
  refine Writes.log_bind hf fun c x new hp => ?_
  have htrail : trail messages [.entry c level logger message extra] = [] := by
    simp [trail, Record.entry, hmem]
  refine ⟨List.forall_mem_cons.2 ⟨Record.entry_writtenIn c level logger message extra, hp.1⟩, ?_⟩
  rw [← List.singleton_append, Log.trail_append, htrail]
  exact hp.2

theorem traced {Q : Except Fault α → List Record → Prop} (e : Engine)
    (arguments : List (String × Value)) (hmem : "BILLING_ENGINE_TRACE" ∉ messages) {call : Run α}
    (hcall : Trails messages Q call) : Trails messages Q (e.traced arguments call) := by
  refine bind (S := fun a x t => x = .ok a ∧ t = []) hcall (fun a => ?_) (fun _ _ h => h) ?_
  · exact log_bind_aside hmem (pure ⟨rfl, rfl⟩)
  · rintro a x t t' hq ⟨rfl, rfl⟩
    rwa [List.append_nil]

end Run.Trails

end Invoicing
