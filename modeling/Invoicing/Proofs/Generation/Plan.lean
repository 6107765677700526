import Invoicing.Generation
import Invoicing.Proofs.Calendar.WholeMonths
import Invoicing.Proofs.Proposal.Charges
import Invoicing.Proofs.Reconciliation.Lines

/-!
# What a call comes to

`Invoicer.plan` is what a call for an invoice sets out to invoice: the target date, raised to the
latest one so far, and the drafts of all charges due by then. `InvoicePlan.settled` is what is left
of a plan after a reconciliation with all items invoiced. `Invoicer.generate_from` shows that this
is what a call comes to, and that it depends on its session only by the number of ids minted.
-/

namespace Invoicing

/-- What a call sets out to invoice. -/
structure InvoicePlan where
  account : Id
  today : Date
  target : Date
  currency : Currency
  drafts : List Item
  off : List Id

namespace InvoicePlan

/-- The proposals of a plan, if `n` ids are minted before. -/
def proposed (p : InvoicePlan) (n : Nat) : List Item := numbered (some (.minted n)) (n + 1) p.drafts

/-- The ids of the repairs that a plan calls for. -/
def repairIds (p : InvoicePlan) (n : Nat) (i : Nat) : Id := .minted (n + 1 + p.drafts.length + i)

/-- The invoice of the items of a plan that are left. -/
def invoice (p : InvoicePlan) (n : Nat) (items : List Item) : Invoice :=
  .assemble (.minted n) p.account p.today p.target p.currency items

/-- The invoice for a plan, given all items invoiced so far. -/
def settled (p : InvoicePlan) (n : Nat) (items : List Item) : Except Fault (Option Invoice) := do
  let result ← reconciled (p.repairIds n) items (p.proposed n) p.off
  if result.isEmpty then .ok none
  else do
    let _ ← (p.invoice n result.delta).charged
    .ok (some (p.invoice n result.delta))

end InvoicePlan

namespace Invoicer

section Plans

variable [TimeZones]

/-- The plan of a call for a timeline that has events, unless the account is marked off. -/
def planFrom (v : Invoicer) (r : InvoiceRequest) (t : Timeline) (currency : Currency) :
    Except Fault (Option InvoicePlan) :=
  if t.accountOff then .ok none
  else do
    let today ← v.clock.today
    if v.config.maxMonths < today.monthsBetween r.target then
      .error (.targetTooFar r.target v.config.maxMonths)
    else do
      let target := latestTarget r.target r.issued
      let drafts ← Billing.due ⟨r.account, target, .currency currency, none⟩ v.rules.rounding t
      .ok (some ⟨r.account, today, target, currency, drafts, t.off⟩)

/-- The plan of a call. -/
def plan (v : Invoicer) (r : InvoiceRequest) : Except Fault (Option InvoicePlan) := do
  let currency ← v.currencyOf r.currency
  match r.timeline.filter fun t => t.length ≠ 0 with
  | none => .ok none
  | some t => v.planFrom r t currency

end Plans

/-- What a call comes to whose plan is known, if `n` ids are minted before. -/
def outcome (r : InvoiceRequest) (n : Nat) : Option InvoicePlan → Except Fault (Option Invoice)
  | none => .ok none
  | some p => p.settled n (r.issued.flatMap (·.items))

/-! ## Latest targets -/

theorem latestTarget_eq (target : Date) (issued : List Invoice) :
    latestTarget target issued = (issued.map (·.target)).foldl max target := by
  induction issued generalizing target with
  | nil => rfl
  | cons i rest ih =>
    rw [latestTarget, ih, List.map_cons, List.foldl_cons]
    congr 1
    rcases lt_or_ge target i.target with h | h
    · rw [if_pos h, max_eq_right h.le]
    · rw [if_neg (not_lt.2 h), max_eq_left h]

theorem le_latestTarget (target : Date) (issued : List Invoice) :
    target ≤ latestTarget target issued ∧ ∀ i ∈ issued, i.target ≤ latestTarget target issued := by
  induction issued generalizing target with
  | nil => exact ⟨le_rfl, by simp⟩
  | cons i rest ih =>
    rw [latestTarget]
    split
    case isTrue hlt =>
      obtain ⟨hle, hrest⟩ := ih i.target
      exact ⟨hlt.le.trans hle, List.forall_mem_cons.2 ⟨hle, hrest⟩⟩
    case isFalse hge =>
      obtain ⟨hle, hrest⟩ := ih target
      exact ⟨hle, List.forall_mem_cons.2 ⟨(not_lt.1 hge).trans hle, hrest⟩⟩

theorem latestTarget_mem (target : Date) (issued : List Invoice) :
    latestTarget target issued = target ∨ ∃ i ∈ issued, latestTarget target issued = i.target := by
  induction issued generalizing target with
  | nil => exact .inl rfl
  | cons i rest ih =>
    rw [latestTarget]
    split
    · rcases ih i.target with h | ⟨j, hj, h⟩
      · exact .inr ⟨i, by simp, h⟩
      · exact .inr ⟨j, by simp [hj], h⟩
    · rcases ih target with h | ⟨j, hj, h⟩
      · exact .inl h
      · exact .inr ⟨j, by simp [hj], h⟩

theorem latestTarget_le {target bound : Date} {issued : List Invoice} (ht : target ≤ bound)
    (hi : ∀ i ∈ issued, i.target ≤ bound) : latestTarget target issued ≤ bound := by
  rcases latestTarget_mem target issued with h | ⟨i, hmem, h⟩
  · rw [h]; exact ht
  · rw [h]; exact hi i hmem

/-! ## Calls come to their outcomes -/

variable {v : Invoicer} {r : InvoiceRequest} {t : Timeline} {today target : Date}
  {currency : Currency} {drafts : List Item}

/-- What is logged of an invoice that was built. -/
def completion (today target : Date) (invoice : Option Invoice) : Run (Option Invoice) := do
  if let some i := invoice then
    let charged ← i.charged
    Run.log .info logger "invoice_generation_completed"
      [("invoice_date", .text today.iso), ("target_date", .text target.iso),
       ("item_count", .int i.items.length), ("charged_amount", .text charged.amount.text)]
  return invoice

theorem quiet_completion (today target : Date) (invoice : Option Invoice) :
    Run.Quiet (completion today target invoice)
      (match invoice with
      | none => .ok none
      | some i => i.charged >>= fun _ => .ok (some i)) := by
  cases invoice with
  | none => exact Run.Quiet.pure none
  | some i =>
    refine (Run.Quiet.lift i.charged).bind fun charged _ => ?_
    exact (Run.Quiet.log _ _ _ _).bind (y := fun _ => .ok (some i)) fun _ _ => Run.Quiet.pure _

theorem quiet_validate (today target : Date) : Run.Quiet (v.validate today target)
    (if v.config.maxMonths < today.monthsBetween target then
      .error (.targetTooFar target v.config.maxMonths) else .ok ()) := by
  unfold validate
  rw [Date.monthsBetween?_eq]
  refine (Run.Quiet.liftCalendar _).bind (y := fun months : Int => if v.config.maxMonths < months then
    .error (.targetTooFar target v.config.maxMonths) else .ok ()) fun months _ => ?_
  split
  · exact (Run.Quiet.log _ _ _ _).bind (y := fun _ => .error _) fun _ _ => Run.Quiet.throw _
  · exact Run.Quiet.pure ()

theorem quiet_adjust (issued : List Invoice) (target : Date) :
    Run.Quiet (adjust issued target) (.ok (latestTarget target issued)) := by
  unfold adjust
  dsimp only
  split
  · exact (Run.Quiet.log _ _ _ _).bind (y := fun _ => .ok _) fun _ _ => Run.Quiet.pure _
  · exact Run.Quiet.pure _

variable [TimeZones]

theorem build_from (hmodes : v.rules.modes = .initial) (today : Date) {id : Id}
    (hdue : Billing.due ⟨r.account, target, .currency currency, some id⟩ v.rules.rounding t =
      .ok drafts) (s : Session) :
    ∃ s', (v.build r t today target currency id).from_ s =
      (reconciled (fun i => .minted (s.minted + drafts.length + i)) (r.issued.flatMap (·.items))
        (numbered (some id) s.minted drafts) t.off >>= fun result =>
          .ok (if result.isEmpty then none
            else some (.assemble id r.account today target currency result.delta)), s') ∧
      s.minted + drafts.length ≤ s'.minted := by
  have hrules : v.rules = ⟨v.rules.rounding, .initial⟩ := by rw [← hmodes]
  have hmade := BillingRules.propose_drafts v.rules.rounding r.account t target
    (.currency currency) (some id) s
  rw [hdue, ← hrules] at hmade
  obtain ⟨items, s₁, h₁, rfl, hm₁⟩ := hmade
  obtain ⟨s₂, h₂, hm₂⟩ := reconcile_from (r.issued.flatMap (·.items)) _ t.off s₁
  rw [hm₁] at h₂ hm₂
  unfold build
  rw [Run.from_bind_ok h₁]
  cases hresult : reconciled (fun i => .minted (s.minted + drafts.length + i))
      (r.issued.flatMap (·.items)) (numbered (some id) s.minted drafts) t.off with
  | error f =>
    rw [hresult] at h₂
    exact ⟨s₂, Run.from_bind_error h₂, hm₂⟩
  | ok result =>
    rw [hresult] at h₂
    rw [Run.from_bind_ok h₂]
    by_cases hempty : result.isEmpty
    · obtain ⟨s₃, h₃, hm₃⟩ := (Run.Quiet.log .info logger "invoice_generation_skipped"
        [("reason", .text "nothing_to_invoice"), ("target_date", .text target.iso)]) s₂
      refine ⟨s₃, ?_, by omega⟩
      rw [if_pos hempty]
      exact (Run.from_bind_ok h₃).trans (by simp [bind, Except.bind, hempty])
    · rw [if_neg hempty]
      obtain ⟨s₃, h₃, hm₃⟩ := Run.Quiet.log .debug logger "invoice_delta_computed"
        [("new_item_count", .int result.difference.newItems.length),
         ("repair_item_count", .int result.difference.repairs.length),
         ("pinned_item_count", .int result.pinned.length)] s₂
      exact ⟨s₃, (Run.from_bind_ok h₃).trans (by simp [bind, Except.bind, hempty]), by omega⟩

theorem complete_eq (id : Id) : v.complete r t today target currency id =
    Run.within [(.invoice, id.text)]
      (v.build r t today target currency id >>= completion today target) := rfl

theorem complete_from (hmodes : v.rules.modes = .initial) (today : Date)
    (hdue : Billing.due ⟨r.account, target, .currency currency, none⟩ v.rules.rounding t =
      .ok drafts)
    {s : Session} {n : Nat} (hs : s.minted = n + 1) :
    ∃ s', (v.complete r t today target currency (.minted n)).from_ s =
      ((⟨r.account, today, target, currency, drafts, t.off⟩ : InvoicePlan).settled n
        (r.issued.flatMap (·.items)), s') ∧ n + drafts.length < s'.minted := by
  have hdue : Billing.due ⟨r.account, target, .currency currency, some (.minted n)⟩
      v.rules.rounding t = .ok drafts := (Billing.due_invoice _ rfl).trans hdue
  set s₀ : Session := { s with context := (s.context.bind [(.invoice, (Id.minted n).text)]).1 }
  obtain ⟨s₁, h₁, hm₁⟩ := build_from hmodes today hdue s₀
  rw [show s₀.minted = n + 1 from hs] at h₁ hm₁
  rw [complete_eq]
  unfold InvoicePlan.settled InvoicePlan.repairIds InvoicePlan.proposed
  dsimp only
  cases hresult : reconciled (fun i => .minted (n + 1 + drafts.length + i))
      (r.issued.flatMap (·.items)) (numbered (some (.minted n)) (n + 1) drafts) t.off with
  | error f =>
    rw [hresult] at h₁
    obtain ⟨context, h⟩ := Run.from_within [(.invoice, (Id.minted n).text)] (Run.from_bind_error h₁)
    exact ⟨_, h, by change n + drafts.length < s₁.minted; omega⟩
  | ok result =>
    rw [hresult] at h₁
    obtain ⟨s₂, h₂, hm₂⟩ := quiet_completion today target
      (if result.isEmpty then none else some (.assemble (.minted n) r.account today target currency
        result.delta)) s₁
    obtain ⟨context, h⟩ := Run.from_within [(.invoice, (Id.minted n).text)]
      ((Run.from_bind_ok h₁).trans h₂)
    refine ⟨{ s₂ with context := context }, h.trans (Prod.ext ?_ rfl),
      by change n + drafts.length < s₂.minted; omega⟩
    by_cases hempty : result.isEmpty <;> simp [bind, Except.bind, hempty, InvoicePlan.invoice]

theorem complete_from_error (hmodes : v.rules.modes = .initial) (today : Date) {f : Fault}
    (hdue : Billing.due ⟨r.account, target, .currency currency, none⟩ v.rules.rounding t = .error f)
    (s : Session) (id : Id) :
    ∃ s', (v.complete r t today target currency id).from_ s = (.error f, s') ∧
      s.minted ≤ s'.minted := by
  have hrules : v.rules = ⟨v.rules.rounding, .initial⟩ := by rw [← hmodes]
  have hmade := BillingRules.propose_drafts v.rules.rounding r.account t target
    (.currency currency) (some id) { s with context := (s.context.bind [(.invoice, id.text)]).1 }
  have hdue : Billing.due ⟨r.account, target, .currency currency, some id⟩ v.rules.rounding t =
    .error f := (Billing.due_invoice _ rfl).trans hdue
  rw [hdue, ← hrules] at hmade
  obtain ⟨s₁, h₁, hm₁⟩ := hmade
  obtain ⟨context, h⟩ := Run.from_within [(.invoice, id.text)]
    (Run.from_bind_error (f := completion today target) (Run.from_bind_error h₁))
  exact ⟨{ s₁ with context := context }, h, hm₁⟩

theorem generateFrom_from (hmodes : v.rules.modes = .initial) (t : Timeline) (currency : Currency)
    (s : Session) :
    ∃ s', (v.generateFrom r t currency).from_ s =
      (v.planFrom r t currency >>= outcome r s.minted, s') ∧ s.minted ≤ s'.minted ∧
      ∀ p, v.planFrom r t currency = .ok (some p) → s.minted + p.drafts.length < s'.minted := by
  unfold generateFrom planFrom
  split
  case isTrue =>
    obtain ⟨s₁, h₁, hm₁⟩ := Run.Quiet.log .info logger "invoice_generation_skipped"
      [("reason", .text "account_auto_invoice_off")] s
    exact ⟨s₁, Run.from_bind_ok h₁, hm₁.ge, by simp⟩
  case isFalse =>
  cases htoday : v.clock.today with
  | error f => exact ⟨s, Run.from_bind_error (Run.from_lift _), le_rfl, by simp [bind, Except.bind]⟩
  | ok today =>
  rw [Run.from_bind_ok (Run.from_lift _)]
  obtain ⟨s₁, h₁, hm₁⟩ := quiet_validate (v := v) today r.target s
  by_cases hfar : v.config.maxMonths < today.monthsBetween r.target
  · rw [if_pos hfar] at h₁
    simp only [bind, Except.bind, if_pos hfar]
    exact ⟨s₁, Run.from_bind_error h₁, hm₁.ge, by simp⟩
  rw [if_neg hfar] at h₁
  obtain ⟨s₂, h₂, hm₂⟩ := quiet_adjust r.issued r.target s₁
  have hstart : s₂.minted = s.minted := hm₂.trans hm₁
  -- The id of the invoice is minted before those of its items.
  rw [Run.from_bind_ok h₁, Run.from_bind_ok h₂, Run.from_bind_ok Run.from_mint, hstart]
  set s₃ : Session := { s₂ with minted := s.minted + 1 }
  cases hdue : Billing.due ⟨r.account, latestTarget r.target r.issued, .currency currency, none⟩
      v.rules.rounding t with
  | error f =>
    obtain ⟨s₄, h₄, hm₄⟩ := complete_from_error hmodes today hdue s₃ (.minted s.minted)
    simp only [bind, Except.bind, if_neg hfar, hdue]
    exact ⟨s₄, h₄, (Nat.le_succ _).trans hm₄, by simp⟩
  | ok drafts =>
    obtain ⟨s₄, h₄, hm₄⟩ := complete_from hmodes today hdue (s := s₃) rfl
    simp only [bind, Except.bind, if_neg hfar, hdue]
    refine ⟨s₄, h₄, by omega, fun p hp => ?_⟩
    obtain rfl := Option.some.inj (Except.ok.inj hp)
    exact hm₄

/-- A call comes to the outcome of its plan, and mints an id for the invoice and for each charge. -/
theorem generate_from (hmodes : v.rules.modes = .initial) (s : Session) :
    ∃ s', (v.generate r).from_ s = (v.plan r >>= outcome r s.minted, s') ∧ s.minted ≤ s'.minted ∧
      ∀ p, v.plan r = .ok (some p) → s.minted + p.drafts.length < s'.minted := by
  unfold generate plan
  cases hcurrency : v.currencyOf r.currency with
  | error f => exact ⟨s, Run.from_bind_error (Run.from_lift _), le_rfl, by simp [bind, Except.bind]⟩
  | ok currency =>
  rw [Run.from_bind_ok (Run.from_lift _)]
  obtain ⟨s₁, h₁, hm₁⟩ := Run.Quiet.log .info logger "invoice_generation_started"
    [("target_date", .text r.target.iso), ("currency", .text currency.code),
     ("existing_invoice_count", .int r.issued.length)]
    { s with context := (s.context.bind (boundFields r)).1 }
  change s₁.minted = s.minted at hm₁
  refine Run.from_within_bind (P := fun m => s.minted ≤ m ∧
    ∀ p : InvoicePlan, _ = Except.ok (some p) → s.minted + p.drafts.length < m) h₁ ?_
  cases ht : r.timeline.filter fun t => t.length ≠ 0 with
  | none =>
    obtain ⟨s₂, h₂, hm₂⟩ := Run.Quiet.log .info logger "invoice_generation_skipped"
      [("reason", .text "no_billing_events")] s₁
    exact ⟨s₂, Run.from_bind_ok h₂, (hm₂.trans hm₁).ge, by simp [bind, Except.bind]⟩
  | some t =>
    obtain ⟨s₂, h₂, hm₂, hp⟩ := generateFrom_from (r := r) hmodes t currency s₁
    rw [hm₁] at h₂ hm₂ hp
    exact ⟨s₂, h₂, hm₂, hp⟩

/-! ## Plans taken apart -/

/-- What a call has to find for there to be a plan. -/
structure Planned (v : Invoicer) (r : InvoiceRequest) (t : Timeline) (p : InvoicePlan) : Prop where
  timeline : r.timeline = some t
  events : t.length ≠ 0
  accountOn : t.accountOff = false
  currency : v.currencyOf r.currency = .ok p.currency
  today : v.clock.today = .ok p.today
  near : p.today.monthsBetween r.target ≤ v.config.maxMonths
  target : p.target = latestTarget r.target r.issued
  account : p.account = r.account
  off : p.off = t.off
  drafts : Billing.due ⟨p.account, p.target, .currency p.currency, none⟩ v.rules.rounding t =
    .ok p.drafts

theorem Planned.plan_eq {p : InvoicePlan} (h : Planned v r t p) : v.plan r = .ok (some p) := by
  have hcurrency := h.currency
  have htoday := h.today
  have hdrafts := h.drafts
  obtain ⟨account, today, target, currency, drafts, off⟩ := p
  obtain rfl : account = r.account := h.account
  obtain rfl : off = t.off := h.off
  obtain rfl : target = latestTarget r.target r.issued := h.target
  have hfilter : (r.timeline.filter fun t => t.length ≠ 0) = some t := by
    simp [h.timeline, Option.filter, h.events]
  simp only [plan, hcurrency, bind, Except.bind, hfilter, planFrom, h.accountOn, htoday,
    if_neg (not_lt.2 h.near), hdrafts]
  simp

theorem planned_of_plan {p : InvoicePlan} (h : v.plan r = .ok (some p)) : ∃ t, Planned v r t p := by
  obtain ⟨currency, hcurrency, h⟩ := bind_eq_ok_iff.1 h
  split at h
  case h_1 => simp at h
  case h_2 t ht =>
  obtain ⟨htimeline, hlength⟩ := Option.filter_eq_some_iff.1 ht
  unfold planFrom at h
  split at h
  case isTrue => simp at h
  case isFalse hon =>
  obtain ⟨today, htoday, h⟩ := bind_eq_ok_iff.1 h
  split at h
  case isTrue => simp at h
  case isFalse hnear =>
  obtain ⟨drafts, hdrafts, h⟩ := bind_eq_ok_iff.1 h
  obtain rfl := Option.some.inj (Except.ok.inj h)
  exact ⟨t, htimeline, by simpa using hlength, by simpa using hon, hcurrency, htoday,
    not_lt.1 hnear, rfl, rfl, rfl, hdrafts⟩

end Invoicer

namespace InvoicePlan

variable {p : InvoicePlan} {n : Nat} {items : List Item} {o : Option Invoice}

theorem settled_eq_ok (h : p.settled n items = .ok o) : ∃ result,
    reconciled (p.repairIds n) items (p.proposed n) p.off = .ok result ∧
    (o = none ∧ result.delta = [] ∨ o = some (p.invoice n result.delta)) := by
  obtain ⟨result, hresult, h⟩ := bind_eq_ok_iff.1 h
  refine ⟨result, hresult, ?_⟩
  split at h
  case isTrue hempty => exact .inl ⟨(Except.ok.inj h).symm, List.isEmpty_iff.1 hempty⟩
  case isFalse =>
    obtain ⟨m, -, h⟩ := bind_eq_ok_iff.1 h
    exact .inr (Except.ok.inj h).symm

theorem unbound_invoice (result : Reconciliation)
    (h : o = none ∧ result.delta = [] ∨ o = some (p.invoice n result.delta)) :
    (o.toList.flatMap (·.items)).map Item.unbound = result.delta.map Item.unbound := by
  rcases h with ⟨rfl, hempty⟩ | rfl
  · rw [hempty]; rfl
  · simpa [invoice, Invoice.assemble] using unbound_lines result.delta (.minted n)

theorem map_proposed {β : Type} (g : Item → β) (hg : ∀ i id v, g (i.issuedAs id v) = g i) :
    (p.proposed n).map g = p.drafts.map g := map_numbered _ _ g hg p.drafts

theorem forall_proposed {Q : Item → Prop} (h : ∀ d ∈ p.drafts, ∀ id v, Q (d.issuedAs id v)) :
    ∀ i ∈ p.proposed n, Q i := by
  intro i hi
  obtain ⟨⟨d, k⟩, hd, rfl⟩ := List.mem_map.1 hi
  exact h d (List.fst_mem_of_mem_zipIdx hd) _ _

end InvoicePlan

end Invoicing
