import Invoicing.Clock
import Invoicing.Proofs.Calendar.Instant
import Invoicing.Timeline
import Mathlib.Data.Prod.Lex

/-!
# The order of a timeline

A timeline is made by taking in events, one after the other. The keys of its events stay in step with
them (`Made.columns`). Events whose clocks keep one offset are kept in the order of their instants: the
bisection finds the place of a new key (`place_spec`), and a key put there leaves the keys in order
(`Made.sorted`). So the days of an account go back from
one event to a later one only where the clocks of its zone are set back over midnight
(`Made.dates_le`), which UTC's are not (`Made.localDate_le`).
-/

namespace Invoicing

namespace TimelineKey

/-- What keys are ordered by. -/
def rank (a : TimelineKey) : Int ×ₗ Int ×ₗ Nat :=
  toLex (a.effective.micros, toLex (a.ordering, a.serial))

theorem before_iff {a b : TimelineKey} (ha : a.effective.Steady) (hb : b.effective.Steady) :
    a.before b ↔ a.rank < b.rank := by
  have hsame := Timestamp.same_iff ha hb
  simp only [rank, Prod.Lex.toLex_lt_toLex]
  unfold before
  split
  case isTrue hs =>
    rw [hsame] at hs
    split
    case isTrue ho => simp [hs, ho]
    case isFalse ho => simp [hs, ho]
  case isFalse hs =>
    rw [hsame] at hs
    rw [Timestamp.before?_eq ha hb]
    simp [hs]

end TimelineKey

namespace Timeline

/-- Whether keys are in order. -/
def Sorted (keys : List TimelineKey) : Prop := keys.Pairwise fun a b => a.rank < b.rank

/-- Whether a place parts the keys that come before a key from those behind it. -/
def Parts (keys : List TimelineKey) (k : TimelineKey) (low high : Nat) : Prop :=
  (∀ x ∈ keys.take low, x.rank < k.rank) ∧ ∀ x ∈ keys.drop high, k.rank < x.rank

variable {keys : List TimelineKey} {k : TimelineKey} {low high : Nat}

theorem place_spec (hs : Sorted keys) (ho : ∀ x ∈ keys, x.effective.Steady)
    (hk : k.effective.Steady) (hnew : ∀ x ∈ keys, x.rank ≠ k.rank) (hle : low ≤ high)
    (hhigh : high ≤ keys.length) (h : Parts keys k low high) :
    Parts keys k (place keys k low high) (place keys k low high) := by
  fun_induction place keys k low high with
  | case1 low high hlt middle hbefore ih =>
    have hmiddle : middle < keys.length := by omega
    refine ih (by omega) (by omega) ⟨h.1, fun x hx => ?_⟩
    rw [List.getElem?_eq_getElem hmiddle, Option.map_some, Option.getD_some,
      TimelineKey.before_iff hk (ho _ (List.getElem_mem hmiddle))] at hbefore
    rw [List.drop_eq_getElem_cons hmiddle] at hx
    rcases List.mem_cons.1 hx with rfl | hx
    · exact hbefore
    · have hs' := List.Pairwise.drop (i := middle) hs
      rw [List.drop_eq_getElem_cons hmiddle] at hs'
      exact hbefore.trans (List.rel_of_pairwise_cons hs' hx)
  | case2 low high hlt middle hbefore ih =>
    have hmiddle : middle < keys.length := by omega
    refine ih (by omega) (by omega) ⟨fun x hx => ?_, h.2⟩
    rw [List.getElem?_eq_getElem hmiddle, Option.map_some, Option.getD_some,
      TimelineKey.before_iff hk (ho _ (List.getElem_mem hmiddle)), not_lt] at hbefore
    -- no key has the number of the new one
    have hbefore := lt_of_le_of_ne hbefore (hnew _ (List.getElem_mem hmiddle))
    rw [List.take_succ_eq_append_getElem hmiddle] at hx
    rcases List.mem_append.1 hx with hx | hx
    · have hs' := hs
      rw [Sorted, ← List.take_append_drop middle keys, List.pairwise_append,
        List.drop_eq_getElem_cons hmiddle] at hs'
      exact (hs'.2.2 x hx keys[middle] List.mem_cons_self).trans hbefore
    · rw [List.mem_singleton.1 hx]
      exact hbefore
  | case3 low high hlt =>
    obtain rfl : low = high := by omega
    exact h

theorem Parts.sorted (hs : Sorted keys) {place : Nat} (h : Parts keys k place place) :
    Sorted (insertAt keys place k) := by
  rw [Sorted, ← List.take_append_drop place keys, List.pairwise_append] at hs
  refine List.pairwise_append.2 ⟨hs.1, List.pairwise_cons.2 ⟨h.2, hs.2.1⟩, ?_⟩
  intro x hx y hy
  rcases List.mem_cons.1 hy with rfl | hy
  · exact h.1 x hx
  · exact (h.1 x hx).trans (h.2 y hy)

/-- Timelines as they are made: from an empty one, by taking events in and marking subscriptions
off. -/
inductive Made : Timeline → Prop
  | empty (accountOff : Bool) (recurringMode : BillingMode) (zone : String) (off : List Id) :
      Made (.empty accountOff recurringMode zone off)
  | add {t t' : Timeline} {e : BillingEvent} {added : Bool} :
      Made t → t.add e = .ok (added, t') → Made t'
  | markOff {t : Timeline} (subscription : Id) : Made t → Made (t.markOff subscription)

/-! ## Taking events in -/

theorem insertAt_perm {α : Type} (xs : List α) (position : Nat) (x : α) :
    (insertAt xs position x).Perm (x :: xs) :=
  List.perm_middle.trans (List.Perm.of_eq (by rw [List.take_append_drop]))

theorem map_insertAt {α β : Type} (f : α → β) (xs : List α) (position : Nat) (x : α) :
    (insertAt xs position x).map f = insertAt (xs.map f) position (f x) := by
  simp [insertAt, List.map_take, List.map_drop]

end Timeline

/-- An event and the number of events that came in before it. -/
structure TimelineEntry where
  event : BillingEvent
  serial : Nat

namespace TimelineEntry

def key (x : TimelineEntry) : TimelineKey := ⟨x.event.effective, x.event.ordering, x.serial⟩

end TimelineEntry

namespace Timeline

variable {t t' : Timeline} {entries : List TimelineEntry} {e : BillingEvent} {added : Bool}

/-- The place of the next event that comes in. -/
def placeOf (t : Timeline) (e : BillingEvent) : Nat :=
  place t.keys (TimelineEntry.key ⟨e, t.inserted⟩) 0 t.keys.length

theorem add_cases (h : t.add e = .ok (added, t')) :
    (added = false ∧ t' = t ∧ t.contains? e = .ok true) ∨
    (added = true ∧ t.contains? e = .ok false ∧
      t'.keys = insertAt t.keys (t.placeOf e) (TimelineEntry.key ⟨e, t.inserted⟩) ∧
      t'.events = insertAt t.events (t.placeOf e) e ∧ t'.inserted = t.inserted + 1 ∧
      t'.zone = t.zone ∧ t'.calendar = some (t.calendar.getD ⟨e.effective, t.zone⟩)) := by
  unfold add at h
  split at h
  case h_1 => simp at h
  case h_2 hthere =>
    obtain ⟨hadded, ht⟩ := Prod.ext_iff.1 (Except.ok.inj h)
    exact .inl ⟨hadded.symm, ht.symm, hthere⟩
  case h_3 hnew =>
    obtain ⟨hadded, rfl⟩ := Prod.ext_iff.1 (Except.ok.inj h)
    exact .inr ⟨hadded.symm, hnew, rfl, rfl, rfl, rfl, rfl⟩

/-- Whether the keys and the events of a timeline are those of some entries, whose numbers all came
before the next one. -/
structure Columns (t : Timeline) (entries : List TimelineEntry) : Prop where
  keys : t.keys = entries.map TimelineEntry.key
  events : t.events = entries.map (·.event)
  serial_lt : ∀ x ∈ entries, x.serial < t.inserted

theorem Columns.add (h : t.Columns entries) (hkeys : t'.keys =
      insertAt t.keys (t.placeOf e) (TimelineEntry.key ⟨e, t.inserted⟩))
    (hevents : t'.events = insertAt t.events (t.placeOf e) e)
    (hinserted : t'.inserted = t.inserted + 1) :
    t'.Columns (insertAt entries (t.placeOf e) ⟨e, t.inserted⟩) where
  keys := by rw [hkeys, h.keys, map_insertAt]
  events := by rw [hevents, h.events, map_insertAt]
  serial_lt x hx := by
    rw [hinserted]
    rcases List.mem_cons.1 ((insertAt_perm ..).mem_iff.1 hx) with rfl | hx
    · exact Nat.lt_succ_self _
    · exact (h.serial_lt x hx).trans (Nat.lt_succ_self _)

theorem mem_events_add {x : BillingEvent} (h : t.add e = .ok (added, t')) (hx : x ∈ t'.events) :
    x ∈ t.events ∨ x = e := by
  rcases add_cases h with ⟨-, rfl, -⟩ | ⟨-, -, -, hevents, -⟩
  · exact .inl hx
  · rw [hevents, (insertAt_perm ..).mem_iff, List.mem_cons] at hx
    exact hx.symm

theorem mem_events_addAll {events : List BillingEvent} {x : BillingEvent}
    (hx : x ∈ (t.addAll events).2.events) : x ∈ t.events ∨ x ∈ events := by
  induction events generalizing t with
  | nil => exact .inl hx
  | cons e rest ih =>
    unfold addAll at hx
    split at hx
    case h_1 => exact .inl hx
    case h_2 added t' ht =>
      rcases ih hx with hmem | hmem
      · exact (mem_events_add ht hmem).imp_right fun heq => by simp [heq]
      · exact .inr (by simp [hmem])

theorem mem_events_addAll_empty {accountOff : Bool} {mode : BillingMode} {zone : String}
    {off : List Id} {events : List BillingEvent} {x : BillingEvent}
    (hx : x ∈ ((empty accountOff mode zone off).addAll events).2.events) : x ∈ events := by
  simpa [empty] using mem_events_addAll hx

/-- All events of a timeline have fixed offsets. -/
def HasOffsets (t : Timeline) : Prop := ∀ e ∈ t.events, e.effective.HasOffset

/-- The clocks of all events of a timeline keep one offset each. -/
def Steady (t : Timeline) : Prop := ∀ e ∈ t.events, e.effective.Steady

theorem HasOffsets.steady (h : t.HasOffsets) : t.Steady := fun e he => (h e he).steady

namespace Made

theorem addAll (h : t.Made) (events : List BillingEvent) : (t.addAll events).2.Made := by
  induction events generalizing t with
  | nil => exact h
  | cons e rest ih =>
    unfold Timeline.addAll
    split
    case h_1 => exact h
    case h_2 added t' ht => exact ih (h.add ht)

/-- The keys of a timeline are those of its events, with the numbers under which they came in. -/
theorem columns (h : t.Made) : ∃ entries, t.Columns entries := by
  induction h with
  | empty => exact ⟨[], rfl, rfl, by simp⟩
  | add hmade hadd ih =>
    obtain ⟨entries, hcolumns⟩ := ih
    rcases add_cases hadd with ⟨-, rfl, -⟩ | ⟨-, -, hkeys, hevents, hinserted, -⟩
    · exact ⟨entries, hcolumns⟩
    · exact ⟨_, hcolumns.add hkeys hevents hinserted⟩
  | markOff subscription hmade ih =>
    obtain ⟨entries, hcolumns⟩ := ih
    exact ⟨entries, hcolumns.keys, hcolumns.events, hcolumns.serial_lt⟩

theorem sorted (h : t.Made) (ho : t.Steady) : Sorted t.keys := by
  induction h with
  | empty => exact List.Pairwise.nil
  | @add t t' e added hmade hadd ih =>
    rcases add_cases hadd with ⟨-, rfl, -⟩ | ⟨-, -, hkeys, hevents, -⟩
    · exact ih ho
    · obtain ⟨entries, hcolumns⟩ := hmade.columns
      rw [Steady, hevents] at ho
      have hold : t.Steady := fun x hx =>
        ho x ((insertAt_perm ..).mem_iff.2 (List.mem_cons_of_mem e hx))
      have hnew : e.effective.Steady := ho e ((insertAt_perm ..).mem_iff.2 List.mem_cons_self)
      have hsteady : ∀ k ∈ t.keys, k.effective.Steady := by
        intro k hk
        rw [hcolumns.keys] at hk
        obtain ⟨x, hx, rfl⟩ := List.mem_map.1 hk
        exact hold x.event (by rw [hcolumns.events]; exact List.mem_map_of_mem hx)
      have hnumber : ∀ k ∈ t.keys, k.rank ≠ (TimelineEntry.key ⟨e, t.inserted⟩).rank := by
        intro k hk heq
        rw [hcolumns.keys] at hk
        obtain ⟨x, hx, rfl⟩ := List.mem_map.1 hk
        have hserial : x.serial = t.inserted := congrArg (fun r => (ofLex (ofLex r).2).2) heq
        exact (hcolumns.serial_lt x hx).ne hserial
      rw [hkeys]
      exact (place_spec (ih hold) hsteady hnew hnumber (Nat.zero_le _) le_rfl
        ⟨by simp, by simp⟩).sorted (ih hold)
  | markOff subscription hmade ih => exact ih ho

theorem calendar_zone (h : t.Made) : ∀ c ∈ t.calendar, c.zone = t.zone := by
  induction h with
  | empty => simp [Timeline.empty]
  | @add t t' e added hmade hadd ih =>
    rcases add_cases hadd with ⟨-, rfl, -⟩ | ⟨-, -, -, -, -, hzone, hcalendar⟩
    · exact ih
    · rw [hcalendar, hzone]
      rintro c ⟨⟩
      cases hc : t.calendar with
      | none => rfl
      | some c => exact ih c hc
  | markOff subscription hmade ih => exact ih

theorem micros_le (h : t.Made) (ho : t.Steady) :
    t.events.Pairwise fun a b => a.effective.micros ≤ b.effective.micros := by
  obtain ⟨entries, hcolumns⟩ := h.columns
  have hsorted := h.sorted ho
  rw [Sorted, hcolumns.keys, List.pairwise_map] at hsorted
  rw [hcolumns.events, List.pairwise_map]
  refine hsorted.imp fun {a b} hab => ?_
  exact (Prod.Lex.toLex_lt_toLex.1 hab).elim le_of_lt fun h => h.1.le

variable [TimeZones]

/-- The days of an account go back from one event to a later one only if its clocks are set back over
midnight in between. -/
theorem dates_le (h : t.Made) (ho : t.Steady) {z : Zone} (hz : TimeZones.named? t.zone = some z)
    {c : AccountCalendar} (hc : t.calendar = some c) : t.events.Pairwise fun a b =>
      ∀ d e, c.dateOf a.effective = .ok d → c.dateOf b.effective = .ok e → e < d →
        z.SetBackBetween (a.effective.micros / 1000000) (b.effective.micros / 1000000) := by
  have hzone := h.calendar_zone c hc
  refine (h.micros_le ho).imp_of_mem fun {a b} ha hb hab d e hd he hlt => ?_
  rw [AccountCalendar.dateOf, hzone] at hd he
  by_contra hback
  exact absurd hlt (not_lt.2 (Timestamp.localDate_le (ho a ha) (ho b hb) hab hz
    hback hd he))

theorem localDate_le (h : t.Made) (ho : t.HasOffsets) (hz : t.zone = "UTC") {c : AccountCalendar}
    (hc : t.calendar = some c) : t.events.Pairwise fun a b =>
      ∀ d e, c.dateOf a.effective = .ok d → c.dateOf b.effective = .ok e → d ≤ e := by
  have hzone : TimeZones.named? t.zone = some .utc := hz ▸ TimeZones.utc
  refine (h.dates_le ho.steady hzone hc).imp fun {a b} hback d e hd he => not_lt.1 fun hlt => ?_
  obtain ⟨x, hx, -⟩ := hback d e hd he hlt
  exact absurd hx (by simp [Zone.utc, Zone.setBacks, Zone.setBacks.go])

end Made

end Timeline

/-! ## Timelines in UTC -/

/-- An event at noon of a day, from which on a subscription is billed monthly if it has a price. -/
def monthlyFrom (subscription : Nat) (day : Date) (price : Option Decimal) : BillingEvent where
  subscription := .known subscription
  bundle := .known 0
  plan := "standard"
  phase := "evergreen"
  effective := (Clock.noonOf day).fixed
  zone := "UTC"
  cycleDay := 1
  period := .monthly
  transition := .create
  fixedPrice := none
  recurringPrice := price
  mode := .inAdvance
  usages := []
  ordering := 0
  description := ""
  placed := (Clock.noonOf day).placed
  cycleDay_mem := by decide

namespace TimeZones.UtcOnly

/-- No zone but that of UTC. -/
scoped instance utcOnly : TimeZones where
  named? name := if name = "UTC" then some .utc else none
  utc := rfl

end TimeZones.UtcOnly

/-- A timeline in UTC that events come in one after the other. -/
def timelineOf (events : List BillingEvent) : Timeline :=
  ((Timeline.empty false .inAdvance "UTC" []).addAll events).2

theorem mem_timelineOf {events : List BillingEvent} {e : BillingEvent}
    (h : e ∈ (timelineOf events).events) : e ∈ events :=
  Timeline.mem_events_addAll_empty h

end Invoicing
