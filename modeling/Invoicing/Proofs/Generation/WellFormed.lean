import Invoicing.Proofs.Generation.Pinned

/-!
# Invoices are well formed

Whatever a call is given, an invoice that it is answered with has items, all of them its own and all
of one currency (`Invoice.WellFormed`). Nothing checks currencies where a difference is computed: a
repair in another currency is stopped by the sum of the invoice, and by nothing else
(`Invoicer.generate_wellFormed`).
-/

namespace Invoicing

/-! ## Sums in one currency -/

namespace Invoice

theorem currency_of_sum {m s : Money} {items : List Item} (h : sum m items = .ok s) :
    ∀ x ∈ items, x.amount.currency = m.currency := by
  induction items generalizing m with
  | nil => simp
  | cons x items ih =>
    rw [sum] at h
    split at h
    case h_2 => cases h
    case h_1 m' hm =>
      have hx : x.amount.currency = m.currency := by
        by_contra hne
        rw [Money.add, if_neg (Ne.symm hne)] at hm
        cases hm
      refine List.forall_mem_cons.2 ⟨hx, fun y hy => ?_⟩
      rw [ih h y hy, Money.currency_of_add hm]

theorem sum_fails (m : Money) (items : List Item) :
    FailsOnly (fun f => (∃ s, f = .decimal s) ∨ ∃ x ∈ items, x.amount.currency ≠ m.currency ∧
      f = .currencyMismatch m.currency x.amount.currency) (sum m items) := by
  induction items generalizing m with
  | nil => exact .ok m
  | cons x items ih =>
    intro f hf
    rw [sum] at hf
    split at hf
    case h_1 m' hm =>
      rcases ih m' f hf with hs | ⟨y, hy, hne, rfl⟩
      · exact .inl hs
      · rw [Money.currency_of_add hm] at hne ⊢
        exact .inr ⟨y, by simp [hy], hne, rfl⟩
    case h_2 g hg =>
      obtain rfl := Except.error.inj hf
      rw [Money.add] at hg
      split at hg
      case isTrue =>
        cases hadd : Decimal.add working m.amount x.amount.amount with
        | ok d => simp [hadd, Except.mapError, Except.map] at hg
        | error s =>
          simp only [hadd, Except.mapError, Except.map] at hg
          exact .inl ⟨s, (Except.error.inj hg).symm⟩
      case isFalse hne =>
        exact .inr ⟨x, by simp, Ne.symm hne, (Except.error.inj hg).symm⟩

end Invoice

namespace Invoicer

variable [TimeZones] {v : Invoicer} {r : InvoiceRequest} {t : Timeline} {s s' : Session}
  {i : Invoice}

theorem build_some {today target : Date} {currency : Currency} {id : Id}
    (h : (v.build r t today target currency id).from_ s = (.ok (some i), s')) :
    ∃ items, items ≠ [] ∧ i = .assemble id r.account today target currency items := by
  unfold build at h
  obtain ⟨proposed, s₁, -, h⟩ := Run.from_bind_eq_ok h
  obtain ⟨result, s₂, -, h⟩ := Run.from_bind_eq_ok h
  split at h
  case isTrue =>
    obtain ⟨_, s₃, -, h⟩ := Run.from_bind_eq_ok h
    cases Except.ok.inj (congrArg Prod.fst h)
  case isFalse hempty =>
    obtain ⟨_, s₃, -, h⟩ := Run.from_bind_eq_ok h
    refine ⟨result.delta, fun hnil => hempty ?_, ?_⟩
    · rw [Reconciliation.isEmpty, hnil]; rfl
    · exact (Option.some.inj (Except.ok.inj (congrArg Prod.fst h))).symm

theorem complete_some {today target : Date} {currency : Currency} {id : Id}
    (h : (v.complete r t today target currency id).from_ s = (.ok (some i), s')) :
    (∃ items, items ≠ [] ∧ i = .assemble id r.account today target currency items) ∧
      ∃ m, i.charged = .ok m := by
  rw [complete_eq] at h
  obtain ⟨s₁, h⟩ := Run.from_within_eq h
  obtain ⟨o, s₂, hbuild, h⟩ := Run.from_bind_eq_ok h
  have hdone := (quiet_completion today target o).eq_ok h
  cases o with
  | none => cases Except.ok.inj hdone
  | some j =>
    obtain ⟨m, hm, hj⟩ := bind_eq_ok_iff.1 hdone
    obtain rfl : j = i := Option.some.inj (Except.ok.inj hj)
    exact ⟨build_some hbuild, m, hm⟩

theorem generate_some (h : (v.generate r).from_ s = (.ok (some i), s')) :
    v.currencyOf r.currency = .ok i.currency ∧ v.clock.today = .ok i.invoiceDate ∧
    (∃ items, items ≠ [] ∧ i = .assemble i.id r.account i.invoiceDate
      (latestTarget r.target r.issued) i.currency items) ∧ ∃ m, i.charged = .ok m := by
  unfold generate at h
  obtain ⟨currency, s₁, hcurrency, h⟩ := Run.from_bind_eq_ok h
  obtain ⟨s₂, h⟩ := Run.from_within_eq h
  obtain ⟨_, s₃, -, h⟩ := Run.from_bind_eq_ok h
  split at h
  case h_1 =>
    obtain ⟨_, s₄, -, h⟩ := Run.from_bind_eq_ok h
    cases Except.ok.inj (congrArg Prod.fst h)
  case h_2 t ht =>
  unfold generateFrom at h
  split at h
  case isTrue =>
    obtain ⟨_, s₄, -, h⟩ := Run.from_bind_eq_ok h
    cases Except.ok.inj (congrArg Prod.fst h)
  case isFalse =>
  obtain ⟨today, s₄, htoday, h⟩ := Run.from_bind_eq_ok h
  obtain ⟨_, s₅, -, h⟩ := Run.from_bind_eq_ok h
  obtain ⟨target, s₆, htarget, h⟩ := Run.from_bind_eq_ok h
  obtain ⟨id, s₇, -, h⟩ := Run.from_bind_eq_ok h
  obtain ⟨⟨items, hitems, rfl⟩, hsum⟩ := complete_some h
  obtain rfl := Except.ok.inj ((quiet_adjust _ _).eq_ok htarget)
  exact ⟨Run.from_lift_eq_ok hcurrency, Run.from_lift_eq_ok htoday, ⟨items, hitems, rfl⟩, hsum⟩

end Invoicer

/-- What is promised of an invoice that a call is answered with. -/
structure Invoice.WellFormed (v : Invoicer) (r : InvoiceRequest) (i : Invoice) : Prop where
  nonempty : i.items ≠ []
  own : ∀ x ∈ i.items, x.invoice = some i.id
  currency : v.currencyOf r.currency = .ok i.currency
  oneCurrency : ∀ x ∈ i.items, x.amount.currency = i.currency
  invoiceDate : v.clock.today = .ok i.invoiceDate
  target : i.target = (r.issued.map (·.target)).foldl max r.target

namespace Invoicer

variable {v : Invoicer} {r : InvoiceRequest} {t : Timeline} {p : InvoicePlan}

theorem wellFormed_of_answer [TimeZones] {s s' : Session} {i : Invoice}
    (h : (v.generate r).from_ s = (.ok (some i), s')) : i.WellFormed v r := by
  obtain ⟨hcurrency, htoday, ⟨items, hitems, hi⟩, m, hm⟩ := generate_some h
  refine ⟨?_, ?_, hcurrency, Invoice.currency_of_sum hm, htoday, ?_⟩
  · rw [hi]
    simpa [Invoice.assemble] using hitems
  · rw [hi]
    intro x hx
    obtain ⟨y, -, rfl⟩ := List.mem_map.1 hx
    rfl
  · rw [hi]
    exact latestTarget_eq r.target r.issued

theorem settled_mismatch {n : Nat} {items : List Item} {result : Reconciliation}
    (h : reconciled (p.repairIds n) items (p.proposed n) p.off = .ok result) {x : Item}
    (hx : x ∈ result.delta) (hne : x.amount.currency ≠ p.currency) :
    ∃ f, p.settled n items = .error f ∧ ((∃ s, f = .decimal s) ∨ ∃ y ∈ result.delta,
      y.amount.currency ≠ p.currency ∧ f = .currencyMismatch p.currency y.amount.currency) := by
  have hempty : ¬ result.isEmpty := by
    rw [Reconciliation.isEmpty, List.isEmpty_iff]
    exact List.ne_nil_of_mem hx
  rw [InvoicePlan.settled, h]
  change ∃ f, (if result.isEmpty then _ else _) = _ ∧ _
  rw [if_neg hempty]
  have hmem : ∀ y ∈ result.delta, y.withInvoice (.minted n) ∈ (p.invoice n result.delta).items :=
    fun y hy => List.mem_map_of_mem hy
  cases hsum : (p.invoice n result.delta).charged with
  | ok m => exact absurd (Invoice.currency_of_sum hsum _ (hmem x hx)) hne
  | error f =>
    refine ⟨f, rfl, (Invoice.sum_fails _ _ f hsum).imp_right ?_⟩
    rintro ⟨z, hz, hzne, rfl⟩
    obtain ⟨y, hy, rfl⟩ := List.mem_map.1 hz
    exact ⟨y, hy, hzne, rfl⟩

/-- An invoice that a call is answered with is well formed. If something is left to repair in another
currency, the call fails instead: with a signal, or for the currencies. -/
theorem generate_wellFormed [TimeZones] (v : Invoicer) (r : InvoiceRequest) (s : Session) :
    (∀ i s', (v.generate r).from_ s = (.ok (some i), s') → i.WellFormed v r) ∧
    (v.rules.modes = .initial → ∀ t p result, Planned v r t p →
      reconciled (p.repairIds s.minted) (r.issued.flatMap (·.items)) (p.proposed s.minted) p.off =
        .ok result →
      (∃ x ∈ result.delta, x.kind = .repair ∧ x.amount.currency ≠ p.currency) →
      ∃ f s', (v.generate r).from_ s = (.error f, s') ∧
        ((∃ d, f = .decimal d) ∨ ∃ y ∈ result.delta, y.amount.currency ≠ p.currency ∧
          f = .currencyMismatch p.currency y.amount.currency)) := by
  refine ⟨fun i s' h => wellFormed_of_answer h, ?_⟩
  rintro hmodes t p result hp hresult ⟨x, hx, -, hne⟩
  obtain ⟨f, hf, hcases⟩ := settled_mismatch hresult hx hne
  obtain ⟨s', hrun, -⟩ := generate_from (r := r) hmodes s
  refine ⟨f, s', ?_, hcases⟩
  rw [hrun, hp.plan_eq]
  exact Prod.ext hf rfl

/-! ## A charge in another currency -/

open TimeZones.UtcOnly

/-- The first month, invoiced in euros. -/
def euroCall : Call := .made firstInvoicer { firstRequest with currency := .text "EUR" } .start

def euroSession : Session :=
  ((firstInvoicer.generate { firstRequest with currency := .text "EUR" }).from_ .start).2

/-- The request for the first month at twice the price, in the currency of the configuration. -/
def doubledRequest : InvoiceRequest :=
  requestFor [monthlyFrom 1 Clock.firstDay (some (.ofInt 62))] euroCall.invoices Clock.firstDay

/-- Whether a plan leaves a repair of another currency. -/
def leavesForeign (v : Invoicer) (r : InvoiceRequest) (n : Nat) : Bool :=
  match v.plan r with
  | .ok (some p) =>
    match reconciled (p.repairIds n) (r.issued.flatMap (·.items)) (p.proposed n) p.off with
    | .ok result => result.delta.any fun x => x.kind = .repair && x.amount.currency ≠ p.currency
    | .error _ => false
  | _ => false

theorem doubledRequest_foreign :
    leavesForeign firstInvoicer doubledRequest euroSession.minted = true := by decide +kernel

/-- The first month is invoiced; a charge in euros cannot be repaired in dollars. -/
theorem generate_wellFormed_foreign :
    (∃ i s', (firstInvoicer.generate cancelledRequest).from_ firstSession = (.ok (some i), s') ∧
      i.WellFormed firstInvoicer cancelledRequest) ∧
    ∃ t p result, Planned firstInvoicer doubledRequest t p ∧
      reconciled (p.repairIds euroSession.minted) (doubledRequest.issued.flatMap (·.items))
        (p.proposed euroSession.minted) p.off = .ok result ∧
      (∃ x ∈ result.delta, x.kind = .repair ∧ x.amount.currency ≠ p.currency) ∧
      ∃ f s', (firstInvoicer.generate doubledRequest).from_ euroSession = (.error f, s') ∧
        ((∃ d, f = .decimal d) ∨ ∃ y ∈ result.delta, y.amount.currency ≠ p.currency ∧
          f = .currencyMismatch p.currency y.amount.currency) := by
  obtain ⟨i, s', hrun⟩ := cancelledRequest_invoiced
  refine ⟨⟨i, s', hrun, (generate_wellFormed _ _ _).1 i s' hrun⟩, ?_⟩
  have hforeign := doubledRequest_foreign
  unfold leavesForeign at hforeign
  split at hforeign
  case h_2 => cases hforeign
  case h_1 p hplan =>
  split at hforeign
  case h_2 => cases hforeign
  case h_1 result hresult =>
  obtain ⟨t, hp⟩ := planned_of_plan hplan
  simp only [List.any_eq_true, Bool.and_eq_true, decide_eq_true_eq] at hforeign
  exact ⟨t, p, result, hp, hresult, hforeign,
    (generate_wellFormed _ _ _).2 rfl t p result hp hresult hforeign⟩

end Invoicer

end Invoicing
