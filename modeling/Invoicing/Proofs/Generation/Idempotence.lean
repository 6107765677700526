import Invoicing.Proofs.Generation.History

/-!
# Nothing is invoiced twice

After a call the terms in force are those of its plan (`Proper.settled`). The same call again, with
the new invoice among those so far, has the same plan: its target is raised to that of the invoice
(`Planned.again`). So all terms in force are proposed again, every charge is kept and nothing is
left (`Issued.settled_again`).
-/

namespace Invoicing

variable {Good : List Item → Charge → Prop} {currency : Currency} {items : List Item} {n : Nat}
  {p : InvoicePlan}

theorem InvoicePlan.Sound.terms_outside (hp : p.Sound Good) :
    ∀ t ∈ p.drafts.map Item.terms, t.isOf p.off = false := by
  intro t ht
  obtain ⟨d, hd, rfl⟩ := List.mem_map.1 ht
  exact hp.outside d hd

theorem InvoicePlan.Sound.filter_terms {terms old : List Terms} (hp : p.Sound Good)
    (h : terms.Perm (old.filter (·.isOf p.off) ++ p.drafts.map Item.terms)) :
    (terms.filter (!·.isOf p.off)).Perm (p.drafts.map Item.terms) := by
  refine (h.filter _).trans (List.Perm.of_eq ?_)
  rw [List.filter_append, List.filter_filter, List.filter_eq_nil_iff.2 (by simp), List.nil_append]
  exact List.filter_eq_self.2 fun t ht => by simp [hp.terms_outside t ht]

/-- A plan whose terms are those in force already leaves nothing to invoice. -/
theorem Issued.settled_again (h : Issued (Priced currency) n items) (hp : p.Sound (Priced currency))
    (hterms : ((termsInForce items).filter (!·.isOf p.off)).Perm (p.drafts.map Item.terms))
    (m : Nat) : p.settled m items = .ok none := by
  have hproposed : (p.proposed m).map Item.terms = p.drafts.map Item.terms :=
    InvoicePlan.map_proposed Item.terms fun _ _ _ => rfl
  obtain ⟨result, issued, rest, vs, hresult, hnone, post⟩ :=
    h.kept hp (fun _ _ hc => ⟨hc.fair.comparable, hc.rate⟩) hterms.subperm m
  -- All proposals are in force, so none of them is new.
  have hnew := post.new_perm hnone (fun _ => true)
    (by rw [List.filter_true, hproposed]; exact hterms)
  have hrest : rest = [] := by simpa using hnew
  have hempty : result.isEmpty = true := by
    rw [Reconciliation.isEmpty, post.delta_eq, hrest, hnone]
    rfl
  simp [InvoicePlan.settled, hresult, bind, Except.bind, hempty]

namespace Invoicer

variable {v : Invoicer} {r : InvoiceRequest} {t : Timeline}

/-- The same call with the invoice of its plan, and with an earlier target if any, has the same
plan. -/
theorem Planned.again [TimeZones] (h : Planned v r t p) {i : Invoice} (hi : i.target = p.target) {target : Date}
    (ht : target ≤ r.target) :
    Planned v { r with issued := r.issued ++ [i], target := target } t p where
  timeline := h.timeline
  events := h.events
  accountOn := h.accountOn
  currency := h.currency
  today := h.today
  near := (Date.monthsBetween_le _ ht).trans h.near
  target := by
    have hle := le_latestTarget r.target r.issued
    refine le_antisymm ?_ (latestTarget_le ?_ ?_)
    · rw [← hi]
      exact (le_latestTarget target (r.issued ++ [i])).2 i (by simp)
    · rw [h.target]
      exact ht.trans hle.1
    · intro j hj
      rcases List.mem_append.1 hj with hj | hj
      · rw [h.target]
        exact hle.2 j hj
      · rw [List.mem_singleton.1 hj, hi]
  account := h.account
  off := h.off
  drafts := h.drafts

variable {calls : List Call} {s s' : Session}

/-- A call that comes after a history and is answered with an invoice, made again with that invoice
and with the same target or an earlier one, finds nothing to invoice. -/
theorem generate_idempotent [TimeZones] (h : History calls s)
    (hcalls : ∀ c ∈ calls, c.invoicer.Proper currency c.request) (hproper : v.Proper currency r)
    (hissued : r.issued = invoicesOf calls) {i : Invoice}
    (hrun : (v.generate r).from_ s = (.ok (some i), s')) {target : Date} (ht : target ≤ r.target)
    (s₁ : Session) :
    ∃ s₂, (v.generate { r with issued := r.issued ++ [i], target := target }).from_ s₁ =
      (.ok none, s₂) := by
  have hbefore := h.issued hcalls
  rw [itemsOf, ← hissued] at hbefore
  obtain ⟨-, ⟨f, hf⟩ | ⟨-, hnone⟩ | ⟨t, p, o, hp, ho, hanswer, -⟩⟩ :=
    generate_cases hproper.modes hrun
  · simp at hf
  · simp at hnone
  obtain rfl : some i = o := Except.ok.inj hanswer
  obtain ⟨hafter, hterms⟩ := hproper.settled hp hbefore ho
  have htarget : i.target = p.target := by
    obtain ⟨result, -, ⟨hno, -⟩ | hsome⟩ := InvoicePlan.settled_eq_ok ho
    · simp at hno
    · rw [Option.some.inj hsome]; rfl
  obtain ⟨s₂, h₂, -⟩ := generate_from (v := v)
    (r := { r with issued := r.issued ++ [i], target := target }) hproper.modes s₁
  refine ⟨s₂, h₂.trans (Prod.ext ?_ rfl)⟩
  have hitems : (r.issued ++ [i]).flatMap (·.items) =
      r.issued.flatMap (·.items) ++ (some i).toList.flatMap (·.items) := List.flatMap_append
  have hsound := hproper.sound hp
  have hagain := hafter.settled_again hsound (hsound.filter_terms hterms) s₁.minted
  rw [← hitems] at hagain
  rw [(hp.again htarget ht).plan_eq]
  exact hagain

open TimeZones.UtcOnly

/-- The call that repairs the charge of a cancelled subscription, made again. -/
theorem generate_idempotent_cancelled :
    ∃ i s, (firstInvoicer.generate cancelledRequest).from_ firstSession = (.ok (some i), s) ∧
      ∃ s₂, (firstInvoicer.generate
        { cancelledRequest with issued := cancelledRequest.issued ++ [i] }).from_ s =
        (.ok none, s₂) := by
  obtain ⟨i, s, hrun⟩ := cancelledRequest_invoiced
  exact ⟨i, s, hrun, generate_idempotent firstCall_history firstCall_proper cancelledRequest_proper
    cancelledRequest_issued hrun le_rfl s⟩

end Invoicer

end Invoicing
