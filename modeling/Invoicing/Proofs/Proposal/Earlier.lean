import Invoicing.Proofs.Proposal.Amounts

/-!
# Proposals for an earlier target date

With the strategy that bills in advance, a proposal for an earlier target date is part of one for a
later date: it succeeds if the later one does, and makes the items that start up to the earlier date, in
the same order and the same but for their ids (`BillingRules.propose_earlier`).
-/

namespace Invoicing

variable {invoice : Option Id}

theorem filter_numbered_sameUpToId (n m : Nat) {q : Item → Bool}
    (hq : ∀ i id v, q (i.issuedAs id v) = q i) (drafts : List Item) :
    List.Forall₂ (fun x y => x = { y with id := x.id }) (numbered invoice n (drafts.filter q))
      ((numbered invoice m drafts).filter q) := by
  induction drafts generalizing n m with
  | nil => exact .nil
  | cons d drafts ih =>
    have hcons : numbered invoice m (d :: drafts) =
        d.issuedAs (.minted m) invoice :: numbered invoice (m + 1) drafts := rfl
    rw [hcons]
    by_cases hd : q d
    · rw [List.filter_cons_of_pos hd, List.filter_cons_of_pos ((hq ..).trans hd)]
      exact .cons rfl (ih (n + 1) (m + 1))
    · rw [List.filter_cons_of_neg hd, List.filter_cons_of_neg (by rwa [hq])]
      exact ih n (m + 1)

namespace Billing

variable [TimeZones] {b : Billing} {rules : BillingRules} {calendar : AccountCalendar}
  {e : BillingEvent}

/-! ## Events that are billed in advance -/

theorem recurringItems_inAdvance (hrules : rules.modes.find? .inAdvance = some .inAdvance)
    (he : e.mode = .inAdvance) (next : Option BillingEvent) (start : Date) :
    b.recurringItems rules calendar e next start =
      b.recurringItems ⟨rules.rounding, .initial⟩ calendar e next start := by
  have hget : rules.modes.get e.mode.name = BillingModes.initial.get e.mode.name := by
    have hname : BillingMode.ofName? BillingMode.inAdvance.name = some .inAdvance := rfl
    rw [he, BillingModes.get, BillingModes.get, hname, Option.bind_some, Option.bind_some, hrules]
    rfl
  unfold recurringItems
  rw [hget]

theorem subscriptionItems_inAdvance (hrules : rules.modes.find? .inAdvance = some .inAdvance)
    {events : List BillingEvent} (hevents : ∀ e ∈ events, e.mode = .inAdvance) :
    b.subscriptionItems rules calendar events =
      b.subscriptionItems ⟨rules.rounding, .initial⟩ calendar events := by
  induction events with
  | nil => rfl
  | cons e rest ih =>
    have hitems : b.eventItems rules calendar e rest.head? =
        b.eventItems ⟨rules.rounding, .initial⟩ calendar e rest.head? := by
      unfold eventItems
      simp only [recurringItems_inAdvance hrules (hevents e (by simp))]
    rw [subscriptionItems, subscriptionItems, hitems, ih fun x hx => hevents x (by simp [hx])]

theorem items_inAdvance (hrules : rules.modes.find? .inAdvance = some .inAdvance) {t : Timeline}
    (ht : ∀ e ∈ t.events, e.mode = .inAdvance) :
    b.items rules t = b.items ⟨rules.rounding, .initial⟩ t := by
  have hbilled : ∀ (b : Billing) (calendar : AccountCalendar) (l : List (Id × List BillingEvent)),
      l ⊆ t.bySubscription →
      l.mapM (fun s => b.subscriptionItems rules calendar s.2) =
        l.mapM fun s => b.subscriptionItems ⟨rules.rounding, .initial⟩ calendar s.2 := by
    intro b calendar l hl
    induction l with
    | nil => rfl
    | cons s l ih =>
      obtain ⟨hs, hrest⟩ := List.cons_subset.1 hl
      rw [Timeline.bySubscription_eq] at hs
      obtain ⟨id, -, rfl⟩ := List.mem_map.1 hs
      have hevents : ∀ e ∈ t.eventsOf id, e.mode = .inAdvance := fun e he =>
        ht e (List.mem_of_mem_filter he)
      rw [List.mapM_cons, List.mapM_cons, ih hrest, subscriptionItems_inAdvance hrules hevents]
  unfold items
  simp only [hbilled _ _ _ List.filter_sublist.subset]

end Billing

namespace BillingRules

/-- A proposal for an earlier target date succeeds if one for a later date does, in whatever sessions
they are made. It makes the items of the later one that start up to the earlier date, in the same order,
and they differ by their ids only. -/
theorem propose_earlier [TimeZones] {rules : BillingRules} {account : Id} {t : Timeline}
    {target target' : Date} {currency : Value} {s s' : Session} {ys : List Item}
    (hrules : rules.modes.find? .inAdvance = some .inAdvance)
    (hmode : ∀ e ∈ t.events, e.mode = .inAdvance) (ht : target ≤ target')
    (h : (rules.propose account t target' currency invoice).from_ s = (.ok ys, s')) (r : Session) :
    ∃ xs r', (rules.propose account t target currency invoice).from_ r = (.ok xs, r') ∧
      List.Forall₂ (fun x y => x = { y with id := x.id }) xs (ys.filter (·.start ≤ target)) := by
  have hinitial : ∀ target, rules.propose account t target currency invoice =
      propose ⟨rules.rounding, .initial⟩ account t target currency invoice := fun target => by
    unfold propose
    rw [Billing.items_inAdvance hrules hmode]
  rw [hinitial] at h ⊢
  have hlate := propose_drafts rules.rounding account t target' currency invoice s
  have hearly := propose_drafts rules.rounding account t target currency invoice r
  cases hdue : Billing.due ⟨account, target', currency, invoice⟩ rules.rounding t with
  | error f =>
    rw [hdue, h] at hlate
    obtain ⟨_, hrun, -⟩ := hlate
    cases hrun
  | ok drafts =>
    rw [hdue, h] at hlate
    rw [Billing.due_target (b := ⟨account, target', currency, invoice⟩) ht hdue] at hearly
    obtain ⟨_, _, hrun, hys, -⟩ := hlate
    obtain ⟨xs, r', hrun', hxs, -⟩ := hearly
    cases hrun
    refine ⟨xs, r', hrun', ?_⟩
    rw [show xs = _ from hxs, show ys = _ from hys]
    exact filter_numbered_sameUpToId _ _ (fun _ _ _ => rfl) drafts

open TimeZones.UtcOnly

/-- A start with a fixed charge of its own. -/
def feeEvent : BillingEvent := { lateEvent with fixedPrice := some (.ofInt 5) }

/-- On the last day of June the fee and the charge for that day are proposed, but not the one for July,
which is proposed a day later. -/
theorem propose_earlier_fee : ∃ xs ys s r,
    (propose ⟨some .halfUp, .initial⟩ (.known 0) (timelineOf [feeEvent]) july (.currency .usd)
      none).from_ .start = (.ok ys, s) ∧ ys.length = 3 ∧
    (propose ⟨some .halfUp, .initial⟩ (.known 0) (timelineOf [feeEvent]) juneEnd (.currency .usd)
      none).from_ s = (.ok xs, r) ∧ xs.length = 2 ∧
    List.Forall₂ (fun x y => x = { y with id := x.id }) xs (ys.filter (·.start ≤ juneEnd)) := by
  have hmode : ∀ e ∈ (timelineOf [feeEvent]).events, e.mode = .inAdvance := by
    intro e he
    obtain rfl := List.mem_singleton.1 (mem_timelineOf he)
    rfl
  have hstarts : ((propose ⟨some .halfUp, .initial⟩ (.known 0) (timelineOf [feeEvent]) july
      (.currency .usd) none).from_ .start).1.toOption.map (·.map (·.start)) =
      some [juneEnd, juneEnd, july] := by decide +kernel
  rcases hrun : (propose ⟨some .halfUp, .initial⟩ (.known 0) (timelineOf [feeEvent]) july
      (.currency .usd) none).from_ .start with ⟨f | ys, s⟩
  · rw [hrun] at hstarts
    cases hstarts
  · rw [hrun] at hstarts
    have hstarts : ys.map (·.start) = [juneEnd, juneEnd, july] := Option.some.inj hstarts
    obtain ⟨xs, r, hearly, hsame⟩ := propose_earlier rfl hmode
      (by decide : juneEnd ≤ july) hrun s
    have hdue : ((ys.map (·.start)).filter (· ≤ juneEnd)).length = 2 := by
      rw [hstarts]
      decide
    rw [List.filter_map, List.length_map] at hdue
    exact ⟨xs, ys, s, r, rfl, by simpa using congrArg List.length hstarts, hearly,
      hsame.length_eq.trans hdue, hsame⟩

end BillingRules

end Invoicing
