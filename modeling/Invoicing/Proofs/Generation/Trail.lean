import Invoicing.Proofs.Generation.History
import Invoicing.Proofs.Log.Journal

/-!
# The trail of a call

The records that tell how a call for an invoice went, step by step. A proposal leaves one record, with all
items in its trace; a reconciliation leaves one for every ledger that comes to something and then one for
all of them, whose numbers are the sums of the others (`Tally.append`); what is built of both adds up
(`Invoicer.build_trails`). A step that fails leaves only the records of the steps before.
-/

namespace Invoicing

open Log (Record withMessage)

/-- The messages that tell how a call for an invoice went. -/
def trailMessages : List String :=
  ["invoice_generation_started", "invoice_target_date_adjusted", "invoice_items_generated",
   "subscription_reconciled", "reconciliation_completed", "invoice_generation_skipped",
   "invoice_generation_completed"]

/-! ## Numbers in records -/

/-- The whole number that a record holds under a name. -/
def Log.Record.number? (r : Record) (name : String) : Option Int :=
  match r.field? name with
  | some (.int n) => some n
  | _ => none

/-- The sum of the whole numbers that records hold under a name; `none` if one of them holds none. -/
def total? (name : String) : List Record → Option Int
  | [] => some 0
  | r :: rest => (r.number? name).bind fun n => (total? name rest).map (n + ·)

theorem total?_append {name : String} {xs ys : List Record} {n m : Int} (hx : total? name xs = some n)
    (hy : total? name ys = some m) : total? name (xs ++ ys) = some (n + m) := by
  induction xs generalizing n with
  | nil =>
    obtain rfl : 0 = n := by simpa [total?] using hx
    simpa using hy
  | cons r rest ih =>
    unfold total? at hx
    obtain ⟨k, hk, hrest⟩ := Option.bind_eq_some_iff.1 hx
    obtain ⟨l, hl, rfl⟩ := Option.map_eq_some_iff.1 hrest
    rw [List.cons_append, total?, hk, ih hl]
    simp [add_assoc]

theorem total?_singleton {name : String} {r : Record} {n : Int} (h : r.number? name = some n) :
    total? name [r] = some n := by
  rw [total?, h]
  simp [total?]

theorem Log.Record.number?_entry (c : Log.Context) (level : Log.Level) (logger message : String)
    {extra : List (String × Value)} {name : String} {n : Int}
    (hname : Log.Record.isOwnName name = true) (hown : extra.lookup name = some (.int n)) :
    (entry c level logger message extra).number? name = some n := by
  rw [number?, (entry_writtenIn c level logger message extra).field?_own hname]
  change (match extra.lookup name with | some (.int n) => some n | _ => none) = _
  rw [hown]

/-! ## Proposals -/

/-- The items that a trace lists under its events. -/
def Value.tracedItems : Value → List Value
  | .list steps => steps.flatMap fun step =>
    match step with
    | .mapping entries =>
      match Value.find? entries (.text "items") with
      | some (.list items) => items
      | _ => []
    | _ => []
  | _ => []

theorem Value.tracedItems_steps (charges : List (BillingEvent × List Item)) :
    (Value.list (charges.map fun (e, items) =>
      .fields [("event", e.trace), ("items", .list (items.map Item.trace))])).tracedItems =
      (charges.flatMap (·.2)).map Item.trace := by
  simp only [tracedItems, List.flatMap_map, List.map_flatMap]
  refine List.flatMap_congr fun x _ => ?_
  rfl

/-- What the record of a proposal says of it: how many items there are, and all of them in its trace. -/
structure ItemsRecord (items : List Item) (g : Record) : Prop where
  message : g.message = "invoice_items_generated"
  count : g.number? "item_count" = some (items.length : Int)
  trace : (g.field? "trace").map Value.tracedItems = some (items.map Item.trace)

/-- The trail of a proposal is one record, if it does not fail. -/
def Trail.OfProposal : Except Fault (List Item) → List Record → Prop
  | .error _, t => t = []
  | .ok items, t => ∃ g, t = [g] ∧ ItemsRecord items g

theorem Billing.itemsRecord (b : Billing) (t : Timeline) (charges : List (BillingEvent × List Item))
    (c : Log.Context) (level : Log.Level) (logger : String) :
    ItemsRecord (charges.flatMap (·.2))
      (.entry c level logger "invoice_items_generated" (b.trace t charges)) where
  message := rfl
  count := Log.Record.number?_entry c level logger _ (by decide) rfl
  trace := by
    rw [(Log.Record.entry_writtenIn c level logger _ _).field?_own (by decide)]
    exact congrArg some (Value.tracedItems_steps charges)

theorem BillingRules.propose_trails [TimeZones] {rules : BillingRules}
    (hmodes : rules.modes.Keep (Session.Aside trailMessages)) {t : Timeline} (ht : t.length ≠ 0)
    (account : Id) (target : Date) (currency : Value) (invoice : Option Id) :
    (rules.propose account t target currency invoice).Trails trailMessages Trail.OfProposal := by
  have hI := Session.aside_isFrame trailMessages
  unfold propose
  refine .traced _ _ (by decide) ?_
  unfold Billing.items
  rw [if_neg ht]
  refine .bind_of_keeps (.lift hI _) (fun _ => rfl) fun b => ?_
  refine .bind_of_keeps (.lift hI _) (fun _ => rfl) fun calendar => ?_
  refine .bind_of_keeps (.mapM hI _ fun x _ => b.keeps_subscriptionItems hI hmodes calendar x.2)
    (fun _ => rfl) fun charges => ?_
  exact .log_pure (by decide) fun c => ⟨_, rfl, b.itemsRecord t charges.flatten c _ _⟩

/-! ## Reconciliations -/

/-- What the records of ledgers say of a difference: how many items and repairs it has altogether. -/
structure Tally (d : Difference) (records : List Record) : Prop where
  message : ∀ rec ∈ records, rec.message = "subscription_reconciled"
  newItems : total? "new_items" records = some (d.newItems.length : Int)
  repairs : total? "repair_items" records = some (d.repairs.length : Int)

/-- What the record of a reconciliation says of it. -/
structure DifferenceRecord (proposed : Nat) (d : Difference) (rec : Record) : Prop where
  message : rec.message = "reconciliation_completed"
  proposed : rec.number? "proposed_count" = some (proposed : Int)
  newItems : rec.number? "new_count" = some (d.newItems.length : Int)
  repairs : rec.number? "repair_count" = some (d.repairs.length : Int)

theorem Tally.append {d e : Difference} {xs ys : List Record} (hx : Tally d xs) (hy : Tally e ys) :
    Tally ⟨d.newItems ++ e.newItems, d.repairs ++ e.repairs⟩ (xs ++ ys) where
  message rec hrec := (List.mem_append.1 hrec).elim (hx.message rec) (hy.message rec)
  newItems := by
    rw [List.length_append, Nat.cast_add, total?_append hx.newItems hy.newItems]
  repairs := by
    rw [List.length_append, Nat.cast_add, total?_append hx.repairs hy.repairs]

/-- The trail of ledgers, also if one of them fails. -/
def Trail.OfLedgers : Except Fault Difference → List Record → Prop
  | .error _, t => ∀ rec ∈ t, rec.message = "subscription_reconciled"
  | .ok d, t => Tally d t

/-- The trail of a reconciliation: the records of the ledgers, then one for all. -/
def Trail.OfReconciliation (proposed : Nat) : Except Fault Reconciliation → List Record → Prop
  | .error _, t => ∀ rec ∈ t, rec.message = "subscription_reconciled"
  | .ok r, t => ∃ records d, t = records ++ [d] ∧ Tally r.difference records ∧
      DifferenceRecord proposed r.difference d

theorem Trail.OfLedgers.nil (e : Fault) : OfLedgers (.error e) [] := by simp [OfLedgers]

theorem Trail.OfReconciliation.nil {proposed : Nat} (e : Fault) :
    OfReconciliation proposed (.error e) [] := by simp [OfReconciliation]

theorem reconcileLedger_trails (ids : Nat → Id) (subscription : Option Id) (l : Ledger) :
    (reconcileLedger ids subscription l).Trails trailMessages Trail.OfLedgers := by
  have hI := Session.aside_isFrame trailMessages
  unfold reconcileLedger
  refine .bind_of_keeps (.lift hI _) Trail.OfLedgers.nil fun d => ?_
  split
  case isTrue =>
    refine .log_pure (by decide) fun c => ⟨by simp [Log.Record.entry], ?_, ?_⟩
    · exact total?_singleton (Log.Record.number?_entry c _ _ _ (by decide) rfl)
    · exact total?_singleton (Log.Record.number?_entry c _ _ _ (by decide) rfl)
  case isFalse h =>
    have hempty : d.newItems = [] ∧ d.repairs = [] := by simpa [Difference.items] using h
    refine .pure ⟨by simp, ?_, ?_⟩
    · rw [hempty.1]; rfl
    · rw [hempty.2]; rfl

/-- What differences come to together. -/
def Difference.joined (ds : List Difference) : Difference :=
  ⟨ds.flatMap (·.newItems), ds.flatMap (·.repairs)⟩

theorem reconcileLedgers_trails (ids : Nat → Id) (ls : List (Option Id × Ledger)) :
    (reconcileLedgers ids ls).Trails trailMessages Trail.OfLedgers := by
  have hall : Run.Trails trailMessages (fun x t => Trail.OfLedgers (x.map .joined) t)
      (ls.mapM fun x => reconcileLedger ids x.1 x.2) := by
    induction ls with
    | nil => exact .pure ⟨by simp, rfl, rfl⟩
    | cons x rest ih =>
      rw [List.mapM_cons]
      refine .bind (reconcileLedger_trails ids x.1 x.2) (fun d => .bind_pure ih
        (Q := fun y t => ∀ t', Tally d t' → Trail.OfLedgers (y.map .joined) (t' ++ t)) ?_)
        (fun _ _ h => h) fun d y t t' hd hy => hy t hd
      intro y t hrest t' htally
      cases y with
      | error e => exact fun rec hrec => (List.mem_append.1 hrec).elim (htally.message rec) (hrest rec)
      | ok ds => exact htally.append hrest
  exact .bind_pure hall fun _ _ h => h

theorem reconcile_trails (existing proposed : List Item) (pinned : List Id) :
    (reconcile existing proposed pinned).Trails trailMessages
      (Trail.OfReconciliation proposed.length) := by
  have hI := Session.aside_isFrame trailMessages
  have hnil : ∀ e, Trail.OfReconciliation proposed.length (.error e) [] := fun e => .nil e
  unfold reconcile
  refine .traced _ _ (by decide) ?_
  refine .bind_of_keeps (.forM hI _ fun _ _ => .log_aside (by decide)) hnil fun _ => ?_
  refine .bind_of_keeps (.lift hI _) hnil fun issued => ?_
  refine .bind_of_keeps (.mintMany hI _) hnil fun ids => ?_
  refine .bind (reconcileLedgers_trails ids _) (S := fun d x t => ∃ p rec,
    x = .ok ⟨d, p⟩ ∧ t = [rec] ∧ DifferenceRecord proposed.length d rec) (fun d => ?_)
    (fun _ _ h => h) ?_
  · refine .log_pure (by decide) fun c => ⟨_, _, rfl, rfl, rfl, ?_, ?_, ?_⟩
    all_goals exact Log.Record.number?_entry c _ _ _ (by decide) rfl
  · rintro d x t t' hd ⟨p, rec, rfl, rfl, hrec⟩
    exact ⟨t, rec, rfl, hd, hrec⟩

/-! ## Invoices -/

/-- The messages of the records between the opening of a call and its end. -/
def middleMessages : List String :=
  ["invoice_items_generated", "subscription_reconciled", "reconciliation_completed"]

/-- What the records of an invoice add up to: the items and repairs of all ledgers are those of the one
reconciliation and together as many as the invoice has, and what was reconciled is what was proposed, as
is the trace. -/
def AddsUp (i : Invoice) (records : List Record) : Prop :=
  ∃ d g, ∃ newItems repairs proposed : Int,
    withMessage "reconciliation_completed" records = [d] ∧
    withMessage "invoice_items_generated" records = [g] ∧
    d.number? "new_count" = some newItems ∧
    total? "new_items" (withMessage "subscription_reconciled" records) = some newItems ∧
    d.number? "repair_count" = some repairs ∧
    total? "repair_items" (withMessage "subscription_reconciled" records) = some repairs ∧
    newItems + repairs = i.items.length ∧
    d.number? "proposed_count" = some proposed ∧
    g.number? "item_count" = some proposed ∧
    (g.field? "trace").map (fun trace => (trace.tracedItems.length : Int)) = some proposed

/-- The trail of an invoice that is built. -/
def Trail.OfBuild (id : Id) : Except Fault (Option Invoice) → List Record → Prop
  | .error _, t => ∀ rec ∈ t, rec.message ∈ middleMessages
  | .ok none, t => ∃ t' rec, t = t' ++ [rec] ∧ (∀ rec ∈ t', rec.message ∈ middleMessages) ∧
      rec.message = "invoice_generation_skipped"
  | .ok (some i), t => i.id = id ∧ AddsUp i t ∧ ∀ rec ∈ t, rec.message ∈ middleMessages

/-- What follows a reconciliation in the trail of an invoice: that nothing is left, or no record at all and
an invoice of what is left. -/
def Trail.OfRest (id : Id) (result : Reconciliation) (x : Except Fault (Option Invoice))
    (t : List Record) : Prop :=
  (x = .ok none ∧ ∃ rec, t = [rec] ∧ rec.message = "invoice_generation_skipped") ∨
  ∃ i, x = .ok (some i) ∧ t = [] ∧ i.id = id ∧
    i.items.length = result.difference.newItems.length + result.difference.repairs.length

theorem addsUp_of_parts {i : Invoice} {g d : Record} {records : List Record} {items : List Item}
    {difference : Difference} (hg : ItemsRecord items g) (hrecords : Tally difference records)
    (hd : DifferenceRecord items.length difference d)
    (hi : i.items.length = difference.newItems.length + difference.repairs.length) :
    AddsUp i (g :: (records ++ [d])) := by
  have hother : ∀ m, m ≠ "subscription_reconciled" → withMessage m records = [] := fun m hm =>
    Log.withMessage_eq_nil fun rec hrec heq => hm (heq.symm.trans (hrecords.message rec hrec))
  have hsame : withMessage "subscription_reconciled" records = records :=
    List.filter_eq_self.2 fun rec hrec => by simpa using hrecords.message rec hrec
  -- Only the first record is that of the proposal, and only the last one that of the reconciliation.
  have hparts : ∀ m, withMessage m (g :: (records ++ [d])) =
      (if g.message = m then [g] else []) ++
        (withMessage m records ++ if d.message = m then [d] else []) := by
    intro m
    rw [Log.withMessage_cons, Log.withMessage_append, Log.withMessage_cons]
    split <;> rfl
  have hledgers : withMessage "subscription_reconciled" (g :: (records ++ [d])) = records := by
    rw [hparts, hsame, hg.message, hd.message]
    simp
  refine ⟨d, g, _, _, _, ?_, ?_, hd.newItems, ?_, hd.repairs, ?_, ?_, hd.proposed, hg.count, ?_⟩
  · rw [hparts, hother _ (by decide), hg.message, hd.message]
    simp
  · rw [hparts, hother _ (by decide), hg.message, hd.message]
    simp
  · rw [hledgers, hrecords.newItems]
  · rw [hledgers, hrecords.repairs]
  · rw [hi, Nat.cast_add]
  · obtain ⟨trace, htrace, hitems⟩ := Option.map_eq_some_iff.1 hg.trace
    rw [htrace, Option.map_some, hitems, List.length_map]

namespace Invoicer

variable {v : Invoicer} (hmodes : v.rules.modes.Keep (Session.Aside trailMessages)) (r : InvoiceRequest)
  {t : Timeline} (ht : t.length ≠ 0)

theorem skipped_trails (reason : String) (fields : List (String × Value)) :
    (do skipped reason fields; return none : Run (Option Invoice)).Trails trailMessages
      fun x t => x = .ok none ∧ ∃ rec, t = [rec] ∧ rec.message = "invoice_generation_skipped" :=
  .log_pure (by decide) fun _ => ⟨rfl, _, rfl, rfl⟩

variable [TimeZones]
include hmodes ht

theorem build_trails (today target : Date) (currency : Currency) (id : Id) :
    (v.build r t today target currency id).Trails trailMessages (Trail.OfBuild id) := by
  unfold build
  refine .bind (BillingRules.propose_trails hmodes ht _ _ _ _)
    (S := fun items x t => ∀ g, ItemsRecord items g → Trail.OfBuild id x (g :: t))
    (fun items => .bind (reconcile_trails _ items _) (S := Trail.OfRest id) (fun result => ?_) ?_ ?_)
    ?_ ?_
  · split
    case isTrue => exact (skipped_trails _ _).mono fun _ _ => .inl
    case isFalse =>
      refine .log_bind_aside (by decide) (.pure (.inr ⟨_, rfl, rfl, rfl, ?_⟩))
      simp [Invoice.assemble, Reconciliation.delta, Difference.items]
  · intro e t ht g hg
    refine List.forall_mem_cons.2 ⟨by simp [hg.message, middleMessages], fun rec hrec => ?_⟩
    simp [ht rec hrec, middleMessages]
  · rintro result x t t' ⟨records, d, rfl, hrecords, hd⟩ hends g hg
    have hmiddle : ∀ rec ∈ g :: (records ++ [d]), rec.message ∈ middleMessages := by
      simp only [List.forall_mem_cons, List.forall_mem_append]
      refine ⟨by simp [hg.message, middleMessages], fun rec hrec => ?_, by simp [hd.message, middleMessages]⟩
      simp [hrecords.message rec hrec, middleMessages]
    rcases hends with ⟨rfl, rec, rfl, hrec⟩ | ⟨i, rfl, rfl, hid, hi⟩
    · exact ⟨g :: (records ++ [d]), rec, rfl, hmiddle, hrec⟩
    · rw [List.append_nil]
      exact ⟨hid, addsUp_of_parts hg hrecords hd hi, hmiddle⟩
  · rintro e t rfl
    simp [Trail.OfBuild]
  · rintro items x t t' ⟨g, rfl, hg⟩ h
    exact h g hg

end Invoicer

end Invoicing
