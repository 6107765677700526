import Invoicing.Proofs.Generation.History
import Invoicing.Proofs.Reconciliation.Owned

/-!
# Pinned items are inert

A call neither invoices anything to a subscription that is marked off, nor repairs anything but
charges of the others; and what it comes to is the same whatever pinned items there are among those
invoiced (`Invoicer.generate_inert`).
-/

namespace Invoicing

/-- The invoice without the ids that were minted for it. -/
def Invoice.draft (i : Invoice) : Invoice :=
  { i with id := .minted 0, items := i.items.map Item.draft }

namespace InvoicePlan

variable {p : InvoicePlan} {items items' : List Item}

theorem map_draft_lines (p : InvoicePlan) (n : Nat) (items : List Item) :
    (p.invoice n items).items.map Item.draft = items.map Item.draft := by
  rw [invoice, Invoice.assemble, List.map_map]
  rfl

theorem draft_invoice (p : InvoicePlan) (n : Nat) (items : List Item) :
    (p.invoice n items).draft =
      ⟨.minted 0, p.account, p.today, p.target, p.currency, items.map Item.draft⟩ := by
  rw [Invoice.draft, map_draft_lines]
  rfl

theorem map_draft_proposed (p : InvoicePlan) (n : Nat) :
    (p.proposed n).map Item.draft = p.drafts.map Item.draft := map_proposed _ fun _ _ _ => rfl

theorem charged_eq (p : InvoicePlan) (n : Nat) {xs ys : List Item}
    (h : xs.map Item.draft = ys.map Item.draft) :
    (p.invoice n xs).charged = Invoice.sum (.zeroIn p.currency) ys := by
  have hamount := congrArg (List.map Item.amount) ((map_draft_lines p n xs).trans h)
  rw [List.map_map, List.map_map] at hamount
  exact Charge.sum_congr hamount

theorem settled_alike (howned : owned items p.off = owned items' p.off) (n m : Nat) :
    Alongside (fun o o' => o.map Invoice.draft = o'.map Invoice.draft) (p.settled n items)
      (p.settled m items') := by
  have hproposed : (p.proposed n).map Item.draft = (p.proposed m).map Item.draft := by
    rw [map_draft_proposed, map_draft_proposed]
  refine (reconciled_alike howned hproposed (p.repairIds n) (p.repairIds m)).bind fun r r' h => ?_
  have hdelta : r.delta.map Item.draft = r'.delta.map Item.draft := map_draft_eq_iff.2 h.items
  have hempty : r.isEmpty = r'.isEmpty := by
    rw [Reconciliation.isEmpty, Reconciliation.isEmpty, ← List.isEmpty_map (f := Item.draft), hdelta,
      List.isEmpty_map]
  rw [hempty]
  split
  · exact .ok rfl
  · rw [p.charged_eq n hdelta, p.charged_eq m rfl]
    refine (Alongside.refl (R := (· = ·)) (fun _ => rfl) _).bind fun _ _ _ => .ok ?_
    rw [Option.map_some, Option.map_some, draft_invoice, draft_invoice, hdelta]

end InvoicePlan

namespace Invoicer

variable {v : Invoicer} {r : InvoiceRequest} {t : Timeline} {p : InvoicePlan} {s s' : Session}

section Calls

variable [TimeZones]

theorem invoice_of_answer (hmodes : v.rules.modes = .initial) {i : Invoice}
    (h : (v.generate r).from_ s = (.ok (some i), s')) : ∃ t p result, Planned v r t p ∧
      reconciled (p.repairIds s.minted) (r.issued.flatMap (·.items)) (p.proposed s.minted) p.off =
        .ok result ∧ i = p.invoice s.minted result.delta := by
  obtain ⟨-, ⟨f, hf⟩ | ⟨-, hnone⟩ | ⟨t, p, o, hp, ho, hanswer, -⟩⟩ := generate_cases hmodes h
  · simp at hf
  · simp at hnone
  obtain rfl : some i = o := Except.ok.inj hanswer
  obtain ⟨result, hresult, ⟨hno, -⟩ | hsome⟩ := InvoicePlan.settled_eq_ok ho
  · simp at hno
  · exact ⟨t, p, result, hp, hresult, Option.some.inj hsome⟩

theorem Planned.mem_delta (hp : Planned v r t p) {n : Nat} {items : List Item}
    {result : Reconciliation}
    (h : reconciled (p.repairIds n) items (p.proposed n) p.off = .ok result) {x : Item}
    (hx : x ∈ result.delta) : x.isOf t.off = false ∧
      (x.kind = .repair → ∃ j ∈ items, x.linked = some j.id ∧
        (j.kind = .fixed ∨ j.kind = .recurring) ∧ ∃ s ∉ t.off, j.subscription = some s) := by
  obtain ⟨issued, rest, post⟩ := posting_owned h
  rcases post.mem_delta hx with ⟨q, hq, rfl⟩ | hx
  · have hdraft : ∀ d ∈ p.drafts, ∀ id v, (d.issuedAs id v).isOf t.off = false ∧
        (d.issuedAs id v).kind ≠ .repair := by
      intro d hd id v
      obtain ⟨e, -, hoff, hof⟩ := hp.mem_drafts hd
      refine ⟨by simp [Item.isOf, Item.issuedAs, hof.subscription, hoff], ?_⟩
      rcases hof.kind with hk | hk <;> simp [Item.issuedAs, hk]
    obtain ⟨hof, hk⟩ := p.forall_proposed (Q := fun i => i.isOf t.off = false ∧ i.kind ≠ .repair)
      hdraft _ (post.mem_rest hq).1
    exact ⟨hof, fun hrepair => absurd hrepair hk⟩
  · obtain ⟨y, hy, hxy⟩ := post.mem_repairs hx
    obtain ⟨-, hlinked, hsub⟩ := repair_parts_of_mem hxy
    obtain ⟨hmem, hk⟩ := mem_chargesOf.1 (post.mem_charges (post.mem_issued hy).1).1
    obtain ⟨hmem, hpinned, hof⟩ := mem_owned.1 hmem
    rw [hp.off] at hof
    refine ⟨by rw [Item.isOf, hsub]; exact hof, fun _ => ⟨_, hmem, hlinked,
      Item.kind_of_not_isPinned hpinned hk, ?_⟩⟩
    cases hs : y.1.item.subscription with
    | none => simp [Item.isPinned, hs] at hpinned
    | some s => exact ⟨s, by simpa [Item.isOf, hs] using hof, rfl⟩

theorem plan_congr {issued : List Invoice}
    (h : issued.map (·.target) = r.issued.map (·.target)) :
    v.plan { r with issued := issued } = v.plan r := by
  unfold plan planFrom
  simp only [latestTarget_eq, h]

/-- Nothing is invoiced to a subscription that is marked off, and repairs are for charges of the others.
A call that differs in pinned items only comes to the same, but for the ids minted. -/
theorem generate_inert (hmodes : v.rules.modes = .initial) {issued : List Invoice}
    (htarget : issued.map (·.target) = r.issued.map (·.target))
    (howned : ∀ t ∈ r.timeline, owned (issued.flatMap (·.items)) t.off =
      owned (r.issued.flatMap (·.items)) t.off) (s₁ s₂ : Session) :
    (∀ i, ((v.generate r).from_ s₁).1 = .ok (some i) → ∃ t ∈ r.timeline, ∀ x ∈ i.items,
      x.isOf t.off = false ∧
      (x.kind = .repair → ∃ j ∈ r.issued.flatMap (·.items), x.linked = some j.id ∧
        (j.kind = .fixed ∨ j.kind = .recurring) ∧ ∃ s ∉ t.off, j.subscription = some s)) ∧
    ((v.generate { r with issued := issued }).from_ s₂).1.map (Option.map Invoice.draft) =
      ((v.generate r).from_ s₁).1.map (Option.map Invoice.draft) := by
  constructor
  · intro i hi
    rcases hrun : (v.generate r).from_ s₁ with ⟨answer, s'⟩
    rw [hrun] at hi
    obtain rfl : answer = .ok (some i) := hi
    obtain ⟨t, p, result, hp, hresult, rfl⟩ := invoice_of_answer hmodes hrun
    refine ⟨t, hp.timeline, fun x hx => ?_⟩
    obtain ⟨y, hy, rfl⟩ := List.mem_map.1 hx
    exact hp.mem_delta (x := y) hresult hy
  · obtain ⟨s₁', h₁, -⟩ := generate_from (r := r) hmodes s₁
    obtain ⟨s₂', h₂, -⟩ := generate_from (r := { r with issued := issued }) hmodes s₂
    rw [h₁, h₂, plan_congr htarget]
    cases hplan : v.plan r with
    | error f => rfl
    | ok plan =>
      cases plan with
      | none => rfl
      | some p =>
        obtain ⟨t, hp⟩ := planned_of_plan hplan
        have halike := InvoicePlan.settled_alike (p := p) (hp.off ▸ howned t hp.timeline)
          s₂.minted s₁.minted
        exact (halike.map fun o o' h => h).eq

end Calls

open TimeZones.UtcOnly

/-- The cancelled request, with another subscription marked off. -/
def markedRequest : InvoiceRequest :=
  { cancelledRequest with
    timeline := some ((timelineOf [firstEvent, cancellation]).markOff (.known 3)) }

/-- The invoices of that request, with a charge of the subscription marked off on each. -/
def withMarked : List Invoice :=
  markedRequest.issued.map fun i => { i with items := i.items ++ [setupCharge 16 3 (.ofInt 9)] }

theorem markedRequest_repaired :
    ((firstInvoicer.generate markedRequest).from_ firstSession).1.toOption.join.any
      (fun i => i.items.any (·.kind = .repair)) = true := by decide +kernel

/-- The repair of the cancelled charge is made whether or not the other subscription was charged. -/
theorem generate_inert_marked : ∃ i s,
    (firstInvoicer.generate markedRequest).from_ firstSession = (.ok (some i), s) ∧
    (∃ x ∈ i.items, x.kind = .repair) ∧
    (∃ t ∈ markedRequest.timeline, t.off = [.known 3] ∧ ∀ x ∈ i.items, x.isOf t.off = false) ∧
    ((firstInvoicer.generate { markedRequest with issued := withMarked }).from_ .start).1.map
      (Option.map Invoice.draft) = .ok (some i.draft) := by
  have htarget : withMarked.map (·.target) = markedRequest.issued.map (·.target) := by
    simp [withMarked, List.map_map]
  have howned : ∀ t ∈ markedRequest.timeline, owned (withMarked.flatMap (·.items)) t.off =
      owned (markedRequest.issued.flatMap (·.items)) t.off := by
    rintro t ⟨⟩
    decide +kernel
  have hrepaired := markedRequest_repaired
  obtain ⟨hoff, hsame⟩ := generate_inert (v := firstInvoicer) rfl htarget howned firstSession .start
  rcases hrun : (firstInvoicer.generate markedRequest).from_ firstSession with ⟨f | _ | i, s⟩
  · simp [hrun, Except.toOption] at hrepaired
  · simp [hrun, Except.toOption] at hrepaired
  rw [hrun] at hoff hsame hrepaired
  obtain ⟨t, ht, hitems⟩ := hoff i rfl
  refine ⟨i, s, rfl, ?_, ⟨t, ht, ?_, fun x hx => (hitems x hx).1⟩, hsame⟩
  · simpa [Except.toOption] using hrepaired
  · obtain rfl : (timelineOf [firstEvent, cancellation]).markOff (.known 3) = t := Option.some.inj ht
    decide +kernel

end Invoicer

end Invoicing
