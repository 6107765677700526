import Invoicing.Log.Process
import Invoicing.Proofs.Generation.Trail

/-!
# The audit of a call

What the records of a call for an invoice say of it. They tell whether it was answered with an invoice, was
skipped or failed, and for an invoice they add up and carry its id from the moment it has one
(`Invoicer.generate_audit`). The call's parts are gone through in their order; what comes before the
invoice has an id only opens the records (`OfCall.opened`).
-/

namespace Invoicing

open Log (Record Logging withMessage)

/-- The messages of the records before an invoice has an id. -/
def openingMessages : List String := ["invoice_generation_started", "invoice_target_date_adjusted"]

/-! ## What records tell -/

/-- How often a call with a result is told to be skipped. -/
def skips : Except Fault (Option Invoice) → Nat
  | .ok none => 1
  | _ => 0

/-- How often a call with a result is told to be complete. -/
def completes : Except Fault (Option Invoice) → Nat
  | .ok (some _) => 1
  | _ => 0

/-- Whether records tell of a call just what it came to. -/
structure Announces (x : Except Fault (Option Invoice)) (records : List Record) : Prop where
  skipped : (withMessage "invoice_generation_skipped" records).length = skips x
  completed : (withMessage "invoice_generation_completed" records).length = completes x

namespace Announces

variable {x : Except Fault (Option Invoice)} {xs ys : List Record}

theorem of_silent {e : Fault} (h : ∀ rec ∈ xs, rec.message ∉
    ["invoice_generation_skipped", "invoice_generation_completed"]) : Announces (.error e) xs := by
  constructor <;> refine List.length_eq_zero_iff.2 (List.filter_eq_nil_iff.2 fun rec hrec => ?_)
  all_goals simpa using fun heq => h rec hrec (by simp [heq])

theorem of_skipped {rec : Record} (h : rec.message = "invoice_generation_skipped") :
    Announces (.ok none) [rec] :=
  ⟨by simp [withMessage, h, skips], by simp [withMessage, h, completes]⟩

theorem of_completed {rec : Record} (h : rec.message = "invoice_generation_completed") (i : Invoice) :
    Announces (.ok (some i)) [rec] :=
  ⟨by simp [withMessage, h, skips], by simp [withMessage, h, completes]⟩

theorem append (h : ∀ rec ∈ xs, rec.message ∉
    ["invoice_generation_skipped", "invoice_generation_completed"]) (hx : Announces x ys) :
    Announces x (xs ++ ys) := by
  have hnone := of_silent (e := .wrongKind) h
  constructor
  · rw [Log.withMessage_append, List.length_append, hnone.skipped, hx.skipped]
    exact Nat.zero_add _
  · rw [Log.withMessage_append, List.length_append, hnone.completed, hx.completed]
    exact Nat.zero_add _

theorem of_trail (h : Announces x (Log.trail trailMessages xs)) : Announces x xs := by
  obtain ⟨hskipped, hcompleted⟩ := h
  rw [Log.withMessage_trail (by decide)] at hskipped hcompleted
  exact ⟨hskipped, hcompleted⟩

end Announces

theorem AddsUp.congr {i : Invoice} {xs ys : List Record} (h : AddsUp i xs)
    (hsame : ∀ m ∈ middleMessages, withMessage m ys = withMessage m xs) : AddsUp i ys := by
  unfold AddsUp
  rw [hsame "reconciliation_completed" (by decide), hsame "invoice_items_generated" (by decide),
    hsame "subscription_reconciled" (by decide)]
  exact h

theorem AddsUp.of_trail {i : Invoice} {records : List Record}
    (h : AddsUp i (Log.trail trailMessages records)) : AddsUp i records :=
  h.congr fun m hm => (Log.withMessage_trail
    ((by decide : ∀ m ∈ middleMessages, m ∈ trailMessages) m hm) records).symm

/-! ## Records of a call -/

/-- Whether a record opens those of a call: it is written before there is an id, and has none. -/
structure Log.Record.Opens (c : Log.Context) (rec : Record) : Prop where
  written : rec.WrittenIn c
  message : rec.message ∈ openingMessages
  invoice : rec.extra.lookup "invoice_id" = none

/-- What the records of a call have to do with its result. For an invoice they are opened, and those that
follow add up and are written with its id. -/
structure OfCall (c : Log.Context) (x : Except Fault (Option Invoice)) (records : List Record) :
    Prop where
  announces : Announces x records
  invoice : ∀ i, x = .ok (some i) → ∃ before after, records = before ++ after ∧
    (∀ rec ∈ before, rec.Opens c) ∧ AddsUp i after ∧
    ∀ rec ∈ after, rec.WrittenIn (c.set [(.invoice, i.id.text)]) ∧ rec.message ∉ openingMessages

namespace OfCall

variable {c : Log.Context} {x : Except Fault (Option Invoice)} {xs ys : List Record}

theorem error {e : Fault} (h : ∀ rec ∈ xs, rec.message ∉ trailMessages) : OfCall c (.error e) xs where
  announces := .of_silent fun rec hrec hmem => h rec hrec (by
    rcases List.mem_pair.1 hmem with heq | heq <;> rw [heq] <;> decide)
  invoice := nofun

theorem opened (h : ∀ rec ∈ xs, rec.Opens c) (hx : OfCall c x ys) : OfCall c x (xs ++ ys) where
  announces := hx.announces.append fun rec hrec hmem => by
    have hopening := (h rec hrec).message
    rcases List.mem_pair.1 hmem with heq | heq <;> rw [heq] at hopening <;> revert hopening <;> decide
  invoice i hi := by
    obtain ⟨before, after, rfl, hbefore, hafter⟩ := hx.invoice i hi
    refine ⟨xs ++ before, after, (List.append_assoc ..).symm, fun rec hrec => ?_, hafter⟩
    exact (List.mem_append.1 hrec).elim (h rec) (hbefore rec)

theorem of_skipped {rec : Record} (h : rec.message = "invoice_generation_skipped") :
    OfCall c (.ok none) [rec] where
  announces := .of_skipped h
  invoice := nofun

end OfCall

/-! ## The trail of an invoice -/

namespace Trail

variable {id : Id} {x : Except Fault (Option Invoice)} {t t' new : List Record}

/-- What follows in the trail once an invoice is built: its sum may be refused, else it is complete. -/
def OfEnd (o : Option Invoice) (x : Except Fault (Option Invoice)) (t : List Record) : Prop :=
  (o = none ∧ x = .ok none ∧ t = []) ∨ (∃ i e, o = some i ∧ x = .error e ∧ t = []) ∨
  ∃ i rec, o = some i ∧ x = .ok (some i) ∧ t = [rec] ∧ rec.message = "invoice_generation_completed"

/-- The trail of a call from the moment there is an id. -/
structure OfCompletion (id : Id) (x : Except Fault (Option Invoice)) (t : List Record) : Prop where
  announces : Announces x t
  invoice : ∀ i, x = .ok (some i) → i.id = id ∧ AddsUp i t
  message : ∀ rec ∈ t, rec.message ∉ openingMessages

theorem middle_silent : ∀ m ∈ middleMessages,
    m ∉ ["invoice_generation_skipped", "invoice_generation_completed"] := by decide

theorem middle_not_opening : ∀ m ∈ middleMessages, m ∉ openingMessages := by decide

namespace OfCompletion

theorem of_failed {e : Fault} (h : ∀ rec ∈ t, rec.message ∈ middleMessages) :
    OfCompletion id (.error e) t where
  announces := .of_silent fun rec hrec => middle_silent _ (h rec hrec)
  invoice := nofun
  message rec hrec := middle_not_opening _ (h rec hrec)

theorem of_build {o : Option Invoice} (h : OfBuild id (.ok o) t) (h' : OfEnd o x t') :
    OfCompletion id x (t ++ t') := by
  obtain ⟨rfl, rfl, rfl⟩ | ⟨i, e, rfl, rfl, rfl⟩ | ⟨i, rec, rfl, rfl, rfl, hrec⟩ := h'
  · obtain ⟨middle, rec, rfl, hmiddle, hrec⟩ := h
    rw [List.append_nil]
    refine ⟨(Announces.of_skipped hrec).append fun m hm => middle_silent _ (hmiddle m hm), nofun, ?_⟩
    rw [List.forall_mem_append, List.forall_mem_singleton, hrec]
    exact ⟨fun m hm => middle_not_opening _ (hmiddle m hm), by decide⟩
  · obtain ⟨-, -, hmiddle⟩ := h
    rw [List.append_nil]
    exact of_failed hmiddle
  · obtain ⟨hid, hadds, hmiddle⟩ := h
    refine ⟨(Announces.of_completed hrec i).append fun m hm => middle_silent _ (hmiddle m hm), ?_, ?_⟩
    · rintro _ ⟨⟩
      refine ⟨hid, hadds.congr fun m hm => ?_⟩
      have hne : rec.message ≠ m := by
        rintro rfl
        rw [hrec] at hm
        revert hm
        decide
      simp [withMessage, hne]
    · rw [List.forall_mem_append, List.forall_mem_singleton, hrec]
      exact ⟨fun m hm => middle_not_opening _ (hmiddle m hm), by decide⟩

theorem ofCall {c : Log.Context} (h : OfCompletion id x (Log.trail trailMessages new))
    (hwritten : ∀ rec ∈ new, rec.WrittenIn (c.set [(.invoice, id.text)])) : OfCall c x new where
  announces := h.announces.of_trail
  invoice i hi := by
    obtain ⟨rfl, hadds⟩ := h.invoice i hi
    refine ⟨[], new, rfl, by simp, hadds.of_trail, fun rec hrec => ⟨hwritten rec hrec, fun hmem => ?_⟩⟩
    have hmessage : rec.message ∈ trailMessages :=
      (by decide : ∀ m ∈ openingMessages, m ∈ trailMessages) _ hmem
    exact h.message rec (List.mem_filter.2 ⟨hrec, List.contains_iff_mem.2 hmessage⟩) hmem

end OfCompletion

end Trail

/-! ## The parts of a call -/

namespace Invoicer

variable (v : Invoicer) (r : InvoiceRequest)

theorem skipped_writes (reason : String) (fields : List (String × Value)) :
    (do skipped reason fields; return none : Run (Option Invoice)).Writes OfCall :=
  .log_pure fun _ => .of_skipped rfl

theorem validate_writes (today target : Date) : (v.validate today target).Writes fun _ x records =>
    (x = .ok () → records = []) ∧ ∀ rec ∈ records, rec.message ∉ trailMessages := by
  unfold validate
  refine .bind_of_nothing (.liftCalendar fun _ => rfl) (fun c e => ⟨nofun, by simp⟩) fun months => ?_
  split
  case isTrue =>
    refine .log_bind (.throw fun _ => ⟨rfl, nofun⟩ : Run.Writes (fun _ x new => new = [] ∧ x ≠ .ok ()) _) ?_
    rintro c x new ⟨rfl, hx⟩
    refine ⟨fun h => absurd h hx, ?_⟩
    simp [Record.entry, trailMessages]
  case isFalse => exact .pure fun _ => ⟨fun _ => rfl, by simp⟩

theorem adjust_writes (issued : List Invoice) (target : Date) : (adjust issued target).Writes
    fun c x records => (∃ d, x = .ok d) ∧ ∀ rec ∈ records, rec.Opens c := by
  unfold adjust
  dsimp only
  split
  case isTrue =>
    refine .log_pure fun c => ⟨⟨_, rfl⟩, ?_⟩
    rw [List.forall_mem_singleton]
    exact ⟨Record.entry_writtenIn c _ _ _ _, by simp [Record.entry, openingMessages], rfl⟩
  case isFalse => exact .pure fun _ => ⟨⟨_, rfl⟩, by simp⟩

variable {v} (hmodes : v.rules.modes.Keep (Session.Aside trailMessages)) {t : Timeline}
  (ht : t.length ≠ 0)

variable [TimeZones]
include hmodes ht

theorem complete_writes (today target : Date) (currency : Currency) (id : Id) :
    (v.complete r t today target currency id).Writes OfCall := by
  unfold complete
  refine Run.Writes.mono (.within _ (.bind (build_trails hmodes r ht today target currency id)
    (S := Trail.OfEnd) (fun o => ?_) (fun e t h => .of_failed h) (fun o x t t' h h' => .of_build h h') :
    Run.Trails trailMessages (Trail.OfCompletion id) _)) ?_
  · cases o with
    | none => exact .pure (.inl ⟨rfl, rfl, rfl⟩)
    | some i =>
      refine .bind_of_keeps (.lift (Session.aside_isFrame _) _)
        (fun e => .inr (.inl ⟨i, e, rfl, rfl, rfl⟩)) fun charged => ?_
      exact .log_pure (by decide) fun c => .inr (.inr ⟨i, _, rfl, rfl, rfl, rfl⟩)
  · rintro c x new ⟨hwritten, hcompletion⟩
    exact hcompletion.ofCall hwritten

theorem generateFrom_writes (currency : Currency) :
    (v.generateFrom r t currency).Writes OfCall := by
  unfold generateFrom
  split
  · exact skipped_writes _ _
  · refine .bind_of_nothing (.lift fun _ => rfl) (fun c e => .error (by simp)) fun today => ?_
    refine .bind (validate_writes v _ _) (R := fun _ => OfCall) (fun _ => ?_)
      (fun c e new h => .error h.2) ?_
    · refine .bind (adjust_writes _ _) (R := fun _ => OfCall) (fun target => ?_) ?_ ?_
      · exact .bind_of_nothing .mint (fun c e => .error (by simp)) fun id =>
          complete_writes r hmodes ht today target currency id
      · rintro c e new ⟨⟨d, hd⟩, -⟩
        cases hd
      · exact fun c target x new new' h hx => hx.opened h.2
    · intro c _ x new new' h hx
      rw [h.1 rfl]
      exact hx

omit ht in
theorem generate_writes : (v.generate r).Writes fun c => OfCall (c.set (boundFields r)) := by
  unfold generate
  refine .bind_of_nothing (.lift fun _ => rfl) (fun c e => .error (by simp)) fun currency => ?_
  refine Run.Writes.within _ (.log_bind (P := OfCall) ?_ fun c x new h => ?_)
  · split
    case h_1 => exact skipped_writes _ _
    case h_2 t ht =>
      have hlength : t.length ≠ 0 := by simpa using (Option.filter_eq_some_iff.1 ht).2
      exact generateFrom_writes r hmodes hlength currency
  · have hopens : Record.Opens c (.entry c .info logger "invoice_generation_started"
        [("target_date", .text r.target.iso), ("currency", .text currency.code),
         ("existing_invoice_count", .int r.issued.length)]) :=
      ⟨Record.entry_writtenIn c _ _ _ _, by simp [Record.entry, openingMessages], rfl⟩
    exact h.opened (List.forall_mem_singleton.2 hopens)

end Invoicer

/-! ## Levels -/

/-- Whether a session comes from another by records that have levels with names. -/
def Session.NamesLevels (s s' : Session) : Prop :=
  ∃ new, s'.journal = s.journal ++ new ∧ ∀ rec ∈ new, ∃ level : Log.Level, rec.level = .text level.name

theorem Session.namesLevels_isCallFrame : Session.IsCallFrame Session.NamesLevels where
  refl s := ⟨[], (List.append_nil _).symm, by simp⟩
  mint s n := ⟨[], (List.append_nil _).symm, by simp⟩
  trans := by
    rintro s₁ s₂ s₃ ⟨new, hnew, hall⟩ ⟨new', hnew', hall'⟩
    refine ⟨new ++ new', ?_, fun rec hrec => (List.mem_append.1 hrec).elim (hall rec) (hall' rec)⟩
    rw [hnew', hnew, List.append_assoc]
  log level logger message extra s := ⟨_, rfl, by simp⟩
  within _ _ h s := h _

theorem BillingModes.Keep.namesLevels {messages : List String} {modes : BillingModes}
    (h : modes.Keep (Session.Aside messages)) : modes.Keep Session.NamesLevels := by
  intro mode strategy hmem start finish target day period s
  obtain ⟨-, new, hnew, hall⟩ := h mode strategy hmem start finish target day period s
  exact ⟨new, hnew, fun rec hrec => (hall rec hrec).1.level⟩

theorem Log.Logging.deliver_debug {l : Logging} (hl : l.threshold ≤ Log.Level.debug.number)
    {records : List Record} (h : ∀ rec ∈ records, ∃ level : Log.Level, rec.level = .text level.name) :
    l.deliver records = records.flatMap l.sendToAll := by
  have hall : ∀ rec ∈ records, ((rec.level.asText?.bind Log.Level.ofName?).map fun level =>
      l.isEnabled level.number).getD false = true := by
    intro rec hrec
    obtain ⟨level, hlevel⟩ := h rec hrec
    have hname : Log.Level.ofName? level.name = some level := by cases level <;> decide
    have hleast : Log.Level.debug.number ≤ level.number := by cases level <;> decide
    have hpositive : 0 < level.number := by cases level <;> decide
    rw [hlevel, Value.asText?, Option.bind_some, hname, Option.map_some, Option.getD_some]
    simp [isEnabled, hpositive, hl.trans hleast]
  rw [deliver, List.filter_eq_self.2 hall]

/-! ## The call -/

namespace Announces

variable {x : Except Fault (Option Invoice)} {records : List Record}

theorem some_iff (h : Announces x records) : (∃ i, x = .ok (some i)) ↔
    (withMessage "invoice_generation_completed" records).length = 1 ∧
    (withMessage "invoice_generation_skipped" records).length = 0 := by
  rw [h.completed, h.skipped]
  rcases x with f | _ | i <;> simp [skips, completes]

theorem none_iff (h : Announces x records) : x = .ok none ↔
    (withMessage "invoice_generation_skipped" records).length = 1 ∧
    (withMessage "invoice_generation_completed" records).length = 0 := by
  rw [h.completed, h.skipped]
  rcases x with f | _ | i <;> simp [skips, completes]

theorem error_iff (h : Announces x records) : (∃ f, x = .error f) ↔
    (withMessage "invoice_generation_completed" records).length = 0 ∧
    (withMessage "invoice_generation_skipped" records).length = 0 := by
  rw [h.completed, h.skipped]
  rcases x with f | _ | i <;> simp [skips, completes]

end Announces

namespace Invoicer

theorem get_boundFields (c : Log.Context) (r : InvoiceRequest) :
    (c.set (boundFields r)).get .account = some r.account.text ∧
    (c.set (boundFields r)).get .invoice = c.get .invoice := by
  unfold boundFields
  cases r.correlation <;> exact ⟨rfl, rfl⟩

/-- The records of a call tell what it came to, and all of them are sent on from the lowest level on. For
an invoice they add up, carry the account, and carry the id of the invoice once they are no longer those
that open the call. -/
theorem generate_audit [TimeZones] {v : Invoicer} (hmodes : v.rules.modes.Keep (Session.Aside trailMessages))
    (r : InvoiceRequest) {s : Session} (hfree : s.context.invoice = none) :
    ∃ records, ((v.generate r).from_ s).2.journal = s.journal ++ records ∧
      (∀ l : Logging, l.threshold ≤ Log.Level.debug.number →
        l.deliver records = records.flatMap l.sendToAll) ∧
      ((∃ i, ((v.generate r).from_ s).1 = .ok (some i)) ↔
        (withMessage "invoice_generation_completed" records).length = 1 ∧
        (withMessage "invoice_generation_skipped" records).length = 0) ∧
      (((v.generate r).from_ s).1 = .ok none ↔
        (withMessage "invoice_generation_skipped" records).length = 1 ∧
        (withMessage "invoice_generation_completed" records).length = 0) ∧
      ((∃ f, ((v.generate r).from_ s).1 = .error f) ↔
        (withMessage "invoice_generation_completed" records).length = 0 ∧
        (withMessage "invoice_generation_skipped" records).length = 0) ∧
      ∀ i, ((v.generate r).from_ s).1 = .ok (some i) → AddsUp i records ∧
        (∀ rec ∈ records, rec.field? "account_id" = some (.text r.account.text)) ∧
        ∃ before after, records = before ++ after ∧
          (∀ rec ∈ before, rec.message ∈ openingMessages ∧ rec.field? "invoice_id" = none) ∧
          ∀ rec ∈ after, rec.message ∉ openingMessages ∧
            rec.field? "invoice_id" = some (.text i.id.text) := by
  obtain ⟨records, hjournal, -, hcall⟩ := generate_writes r hmodes s
  refine ⟨records, hjournal, fun l hl => ?_, hcall.announces.some_iff, hcall.announces.none_iff,
    hcall.announces.error_iff, fun i hi => ?_⟩
  · obtain ⟨new, hnew, hlevels⟩ :=
      keeps_generate Session.namesLevels_isCallFrame r hmodes.namesLevels s
    obtain rfl : new = records := List.append_cancel_left (hnew.symm.trans hjournal)
    exact Log.Logging.deliver_debug hl hlevels
  · obtain ⟨before, after, rfl, hbefore, hadds, hafter⟩ := hcall.invoice i hi
    obtain ⟨haccount, hinvoice⟩ := get_boundFields s.context r
    have hunbound : (s.context.set (boundFields r)).get .invoice = none := hinvoice.trans hfree
    refine ⟨hadds.congr fun m hm => ?_, fun rec hrec => ?_, before, after, rfl, fun rec hrec => ?_,
      fun rec hrec => ?_⟩
    · have hother : withMessage m before = [] := by
        refine Log.withMessage_eq_nil ?_
        rintro rec hrec rfl
        exact Trail.middle_not_opening _ hm (hbefore rec hrec).message
      rw [Log.withMessage_append, hother, List.nil_append]
    · rcases List.mem_append.1 hrec with hrec | hrec
      · exact (hbefore rec hrec).written.field?_name (f := .account) haccount
      · exact (hafter rec hrec).1.field?_name (f := .account) haccount
    · have hopens := hbefore rec hrec
      refine ⟨hopens.message, ?_⟩
      exact (hopens.written.field?_unbound (f := .invoice) hunbound).trans hopens.invoice
    · exact ⟨(hafter rec hrec).2, (hafter rec hrec).1.field?_name (f := .invoice) rfl⟩

open TimeZones.UtcOnly

/-- The invoice for a cancellation, with a repair of what was charged before. -/
theorem generate_audit_cancelled : firstInvoicer.rules.modes.Keep (Session.Aside trailMessages) ∧
    firstSession.context.invoice = none ∧
    ∃ i records, ((firstInvoicer.generate cancelledRequest).from_ firstSession).2.journal =
        firstSession.journal ++ records ∧
      AddsUp i records ∧ (withMessage "invoice_generation_completed" records).length = 1 := by
  have hmodes : firstInvoicer.rules.modes.Keep (Session.Aside trailMessages) :=
    BillingModes.initial_keep_aside (by decide)
  have hfree : firstSession.context.invoice = none := by decide +kernel
  obtain ⟨i, s, hrun⟩ := cancelledRequest_invoiced
  obtain ⟨records, hjournal, -, hsome, -, -, hinvoice⟩ := generate_audit hmodes cancelledRequest hfree
  have hanswer : ((firstInvoicer.generate cancelledRequest).from_ firstSession).1 = .ok (some i) :=
    congrArg Prod.fst hrun
  exact ⟨hmodes, hfree, i, records, hjournal, (hinvoice i hanswer).1, (hsome.1 ⟨i, hanswer⟩).1⟩

end Invoicer

end Invoicing
