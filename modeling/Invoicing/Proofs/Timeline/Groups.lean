import Invoicing.Timeline
import Mathlib.Data.List.Induction
import Mathlib.Data.List.Nodup

/-!
# The events of each subscription

The subscriptions of a timeline are listed once each, in the order of their first events
(`Timeline.mem_subscriptions`, `Timeline.nodup_subscriptions`). Grouping the events one after the other
comes to the events of each of them (`Timeline.bySubscription_eq`), so every event is in one group
(`Timeline.existsUnique_group`).
-/

namespace Invoicing.Timeline

variable {t : Timeline} {s : Id} {e : BillingEvent} {es : List BillingEvent}

/-! ## The list of subscriptions -/

theorem mem_addOnce {xs : List Id} {x y : Id} : y ∈ addOnce xs x ↔ y ∈ xs ∨ y = x := by
  unfold addOnce
  split
  case isTrue h => exact ⟨.inl, fun hy => hy.elim id fun heq => heq ▸ h⟩
  case isFalse => simp

theorem nodup_addOnce {xs : List Id} (h : xs.Nodup) (x : Id) : (addOnce xs x).Nodup := by
  unfold addOnce
  split
  case isTrue => exact h
  case isFalse hx =>
    exact List.nodup_append.2 ⟨h, by simp, fun a ha b hb => by
      rw [List.mem_singleton.1 hb]
      exact fun heq => hx (heq ▸ ha)⟩

/-- The subscriptions of some events, in the order of their first ones. -/
def subscriptionsOf (es : List BillingEvent) : List Id :=
  es.foldl (fun ids e => addOnce ids e.subscription) []

theorem subscriptionsOf_append (es : List BillingEvent) (e : BillingEvent) :
    subscriptionsOf (es ++ [e]) = addOnce (subscriptionsOf es) e.subscription := by
  rw [subscriptionsOf, List.foldl_append]
  rfl

theorem mem_subscriptionsOf : s ∈ subscriptionsOf es ↔ ∃ e ∈ es, e.subscription = s := by
  induction es using List.reverseRecOn with
  | nil => simp [subscriptionsOf]
  | append_singleton es e ih =>
    rw [subscriptionsOf_append, mem_addOnce, ih]
    simp [or_and_right, exists_or, eq_comm]

theorem nodup_subscriptions (t : Timeline) : t.subscriptions.Nodup := by
  change (subscriptionsOf t.events).Nodup
  induction t.events using List.reverseRecOn with
  | nil => exact .nil
  | append_singleton es e ih =>
    rw [subscriptionsOf_append]
    exact nodup_addOnce ih e.subscription

theorem mem_subscriptions : s ∈ t.subscriptions ↔ ∃ e ∈ t.events, e.subscription = s :=
  mem_subscriptionsOf

/-! ## Groups -/

theorem mem_eventsOf (he : e ∈ t.eventsOf s) : e.subscription = s := by
  simpa using (List.mem_filter.1 he).2

theorem foldl_putEvent (es : List BillingEvent) : es.foldl putEvent [] =
    (subscriptionsOf es).map fun i => (i, es.filter (·.subscription = i)) := by
  induction es using List.reverseRecOn with
  | nil => rfl
  | append_singleton es e ih =>
    have hmem : (((subscriptionsOf es).map fun i => (i, es.filter (·.subscription = i))).any
        (·.1 = e.subscription)) = true ↔ e.subscription ∈ subscriptionsOf es := by
      simp
    rw [List.foldl_append, ih, subscriptionsOf_append]
    change putEvent _ e = _
    unfold putEvent addOnce
    by_cases h : e.subscription ∈ subscriptionsOf es
    · rw [if_pos (hmem.2 h), if_pos h, List.map_map]
      apply List.map_congr_left
      intro i _
      by_cases hi : i = e.subscription
      · simp [hi]
      · simp [hi, Ne.symm hi]
    · rw [if_neg (mt hmem.1 h), if_neg h, List.map_append]
      have hnone : es.filter (·.subscription = e.subscription) = [] := by
        rw [List.filter_eq_nil_iff]
        intro x hx hsub
        exact h (mem_subscriptionsOf.2 ⟨x, hx, by simpa using hsub⟩)
      congr 1
      · apply List.map_congr_left
        intro i hi
        have hne : e.subscription ≠ i := fun heq => h (heq ▸ hi)
        simp [hne]
      · simp [hnone]

theorem bySubscription_eq (t : Timeline) :
    t.bySubscription = t.subscriptions.map fun i => (i, t.eventsOf i) := foldl_putEvent t.events

/-- Every event is in one group only, that of its subscription. -/
theorem existsUnique_group (he : e ∈ t.events) : ∃! g, g ∈ t.bySubscription ∧ e ∈ g.2 := by
  rw [bySubscription_eq]
  refine ⟨(e.subscription, t.eventsOf e.subscription), ⟨?_, ?_⟩, ?_⟩
  · exact List.mem_map.2 ⟨_, mem_subscriptions.2 ⟨e, he, rfl⟩, rfl⟩
  · exact List.mem_filter.2 ⟨he, by simp⟩
  · rintro g ⟨hg, hmem⟩
    obtain ⟨i, -, rfl⟩ := List.mem_map.1 hg
    rw [mem_eventsOf hmem]

end Invoicing.Timeline
