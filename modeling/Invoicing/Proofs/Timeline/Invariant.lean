import Invoicing.Proofs.Timeline.Groups
import Invoicing.Proofs.Timeline.Sameness

/-!
# The state of a timeline

Whatever calls are made on a timeline that starts empty, it holds the first of the events offered that
are the same, under the numbers in which they came first, and is tied to the very first of them
(`Timeline.Holds`). One more event keeps it so (`Timeline.Holds.add`), and by induction so does every
sequence of calls (`Timeline.Holds.after`). With the order of the keys this is all there is to know
about its state (`Timeline.Consistent`), which `Timeline.calls_consistent` says together with what the
answers of the next calls tell.
-/

namespace Invoicing

namespace Timeline

/-- What a caller can do with a timeline. -/
inductive Call where
  | add (e : BillingEvent)
  | addAll (es : List BillingEvent)
  | markOff (subscription : Id)

namespace Call

/-- The events that come with a call. -/
def offered : Call → List BillingEvent
  | add e => [e]
  | addAll es => es
  | markOff _ => []

/-- What becomes of a timeline. A call that breaks off leaves what it has taken in so far. -/
def perform (t : Timeline) : Call → Timeline
  | add e => match t.add e with
    | .ok (_, t') => t'
    | .error _ => t
  | addAll es => (t.addAll es).2
  | markOff subscription => t.markOff subscription

end Call

/-- A timeline after some calls. -/
def after (t : Timeline) (calls : List Call) : Timeline := calls.foldl Call.perform t

/-- Some events, each with the number of events before it. -/
def numbered (es : List BillingEvent) : List TimelineEntry := es.zipIdx.map fun x => ⟨x.1, x.2⟩

theorem numbered_append (es : List BillingEvent) (e : BillingEvent) :
    numbered (es ++ [e]) = numbered es ++ [⟨e, es.length⟩] := by
  simp [numbered, List.zipIdx_append]

theorem map_event_numbered (es : List BillingEvent) :
    (numbered es).map TimelineEntry.event = es := by
  rw [numbered, List.map_map]
  exact List.zipIdx_map_fst 0 es

theorem getElem?_of_mem_numbered {es : List BillingEvent} {x : TimelineEntry}
    (h : x ∈ numbered es) : es[x.serial]? = some x.event := by
  obtain ⟨⟨e, i⟩, hx, rfl⟩ := List.mem_map.1 h
  exact List.mk_mem_zipIdx_iff_getElem?.1 hx

/-! ## What a timeline holds -/

/-- Whether a timeline holds what there is in a zone after some events have been offered. -/
structure Holds (t : Timeline) (zone : String) (es : List BillingEvent) : Prop where
  made : t.Made
  entries : ∃ entries, t.Columns entries ∧ entries.Perm (numbered (firsts es))
  inserted : t.inserted = (firsts es).length
  calendar : t.calendar = es.head?.map fun e => ⟨e.effective, zone⟩
  zone : t.zone = zone

variable {t : Timeline} {zone : String} {es fs : List BillingEvent} {e : BillingEvent}

namespace Holds

theorem empty (accountOff : Bool) (mode : BillingMode) (zone : String) (off : List Id) :
    (empty accountOff mode zone off).Holds zone [] where
  made := .empty ..
  entries := ⟨[], empty_columns .., .refl _⟩
  inserted := rfl
  calendar := rfl
  zone := rfl

theorem markOff (h : t.Holds zone es) (subscription : Id) :
    (t.markOff subscription).Holds zone es where
  made := h.made.markOff subscription
  entries := h.entries.imp fun _ ⟨hcolumns, hperm⟩ =>
    ⟨⟨hcolumns.keys, hcolumns.events, hcolumns.serial_lt⟩, hperm⟩
  inserted := h.inserted
  calendar := h.calendar
  zone := h.zone

theorem events (h : t.Holds zone es) : t.events.Perm (firsts es) := by
  obtain ⟨entries, hcolumns, hperm⟩ := h.entries
  rw [hcolumns.events]
  exact (hperm.map _).trans (.of_eq (map_event_numbered _))

theorem comparable (h : t.Holds zone es) (hes : ∀ x ∈ es, x.Comparable) :
    ∀ x ∈ t.events, x.Comparable := fun x hx => hes x (mem_of_mem_firsts (h.events.subset hx))

theorem contains?_eq (h : t.Holds zone es) (hes : ∀ x ∈ es, x.Comparable) (he : e.Comparable) :
    t.contains? e = .ok (decide (∃ x ∈ es, x.SameAs e)) := by
  rw [Timeline.contains?_eq (h.comparable hes) he]
  simp only [h.events.mem_iff, exists_first_sameAs hes he]

theorem append_same (h : t.Holds zone es) (hsame : ∃ x ∈ es, x.SameAs e) :
    t.Holds zone (es ++ [e]) where
  made := h.made
  entries := by rw [firsts_append, if_pos hsame, List.append_nil]; exact h.entries
  inserted := by rw [firsts_append, if_pos hsame, List.append_nil]; exact h.inserted
  calendar := by
    obtain ⟨x, hx, -⟩ := hsame
    rw [List.head?_append_of_ne_nil _ (List.ne_nil_of_mem hx)]
    exact h.calendar
  zone := h.zone

theorem add (h : t.Holds zone es) (hes : ∀ x ∈ es, x.Comparable) (he : e.Comparable) :
    ∃ added t', t.add e = .ok (added, t') ∧ t'.Holds zone (es ++ [e]) ∧
      (added = false ↔ ∃ x ∈ t.events, x.SameAs e) ∧ (added = false → t' = t) ∧
      t'.length = t.length + added.toNat := by
  have hmem : (∃ x ∈ t.events, x.SameAs e) ↔ ∃ x ∈ es, x.SameAs e := by
    simp only [h.events.mem_iff, exists_first_sameAs hes he]
  have hcontains := h.contains?_eq hes he
  by_cases hsame : ∃ x ∈ es, x.SameAs e
  · refine ⟨false, t, by rw [Timeline.add, hcontains, decide_eq_true hsame], h.append_same hsame,
      by simpa [hmem] using hsame, fun _ => rfl, rfl⟩
  · rw [decide_eq_false hsame] at hcontains
    obtain ⟨t', hadd, -⟩ := add_different (contains?_eq_false.1 hcontains)
    rcases add_cases hadd with ⟨hfalse, -⟩ | ⟨-, -, hkeys, hevents, hinserted, hzone, hcalendar⟩
    · cases hfalse
    obtain ⟨entries, hcolumns, hperm⟩ := h.entries
    refine ⟨true, t', hadd, ⟨h.made.add hadd, ⟨_, hcolumns.add hkeys hevents hinserted, ?_⟩, ?_, ?_,
      hzone.trans h.zone⟩, by simpa [hmem] using hsame, fun h => absurd h (by simp), ?_⟩
    · rw [firsts_append, if_neg hsame, numbered_append, h.inserted]
      refine (insertAt_perm ..).trans ((hperm.cons _).trans ?_)
      exact (List.perm_append_singleton _ _).symm
    · rw [hinserted, firsts_append, if_neg hsame, List.length_append, h.inserted,
        List.length_singleton]
    · rw [hcalendar, h.calendar, h.zone]
      cases es <;> rfl
    · rw [length, hevents, (insertAt_perm ..).length_eq]
      rfl

theorem addAll (h : t.Holds zone es) (hes : ∀ x ∈ es, x.Comparable)
    (hfs : ∀ x ∈ fs, x.Comparable) : ∃ added t', t.addAll fs = (.ok added, t') ∧ t'.Holds zone (es ++ fs) ∧
      (added = false → t' = t) ∧ t.length + added.toNat ≤ t'.length := by
  induction fs generalizing t es with
  | nil => exact ⟨false, t, rfl, by rwa [List.append_nil], fun _ => rfl, le_rfl⟩
  | cons f fs ih =>
    obtain ⟨hf, hfs⟩ := List.forall_mem_cons.1 hfs
    obtain ⟨first, t₁, hadd, h₁, -, hleft, hlength⟩ := h.add hes hf
    have hes₁ : ∀ x ∈ es ++ [f], x.Comparable :=
      List.forall_mem_append.2 ⟨hes, List.forall_mem_singleton.2 hf⟩
    obtain ⟨later, t₂, hall, h₂, hleft', hlength'⟩ := ih h₁ hes₁ hfs
    refine ⟨first || later, t₂, ?_, by rwa [← List.append_cons] at h₂, ?_, ?_⟩
    · rw [Timeline.addAll, hadd]
      simp only [hall]
      rfl
    · intro hnone
      obtain ⟨hfirst, hlater⟩ := Bool.or_eq_false_iff.1 hnone
      exact (hleft' hlater).trans (hleft hfirst)
    · cases first <;> cases later <;> simp at hlength hlength' ⊢ <;> omega

theorem perform (h : t.Holds zone es) (hes : ∀ x ∈ es, x.Comparable) (call : Call)
    (hcall : ∀ x ∈ call.offered, x.Comparable) :
    (call.perform t).Holds zone (es ++ call.offered) := by
  cases call with
  | add e =>
    obtain ⟨added, t', hadd, h', -⟩ := h.add hes (hcall e (by simp [Call.offered]))
    rw [Call.perform, hadd]
    exact h'
  | addAll fs =>
    have hfs : ∀ x ∈ fs, x.Comparable := hcall
    obtain ⟨added, t', hall, h', -⟩ := h.addAll hes hfs
    rw [Call.perform, hall]
    exact h'
  | markOff subscription =>
    rw [Call.offered, List.append_nil]
    exact h.markOff subscription

theorem after (h : t.Holds zone es) (hes : ∀ x ∈ es, x.Comparable) {calls : List Call}
    (hcalls : ∀ c ∈ calls, ∀ x ∈ c.offered, x.Comparable) :
    (t.after calls).Holds zone (es ++ calls.flatMap Call.offered) := by
  induction calls generalizing t es with
  | nil => simpa [Timeline.after] using h
  | cons call calls ih =>
    obtain ⟨hcall, hcalls⟩ := List.forall_mem_cons.1 hcalls
    have hnext := ih (h.perform hes call hcall) (List.forall_mem_append.2 ⟨hes, hcall⟩) hcalls
    rwa [List.append_assoc, ← List.flatMap_cons] at hnext

end Holds

/-! ## All there is to know -/

/-- Whether a timeline of a zone is what it has to be after some events have been offered to it. -/
structure Consistent (t : Timeline) (zone : String) (es : List BillingEvent) : Prop where
  /-- The keys belong to the events, one to one; the last part says when an event came first. -/
  parallel : List.Forall₂ (fun k e => k.effective = e.effective ∧ k.ordering = e.ordering ∧
    (firsts es)[k.serial]? = some e) t.keys t.events
  increasing : t.keys.Pairwise fun a b => a.before b
  different : Different t.events
  stored : t.events.Perm (firsts es)
  calendar : t.calendar = es.head?.map fun e => ⟨e.effective, zone⟩
  subscriptions : t.subscriptions.Nodup
  groups : t.bySubscription = t.subscriptions.map fun s => (s, t.eventsOf s)
  inOrder : ∀ g ∈ t.bySubscription, g.2.Sublist t.events
  grouped : ∀ e ∈ t.events, ∃! g, g ∈ t.bySubscription ∧ e ∈ g.2

theorem Holds.consistent (h : t.Holds zone es) (hes : ∀ x ∈ es, x.Comparable) :
    t.Consistent zone es := by
  have hsteady : t.Steady := fun x hx => (h.comparable hes x hx).steady
  obtain ⟨entries, hcolumns, hperm⟩ := h.entries
  have hkeys : ∀ k ∈ t.keys, k.effective.Steady := by
    intro k hk
    rw [hcolumns.keys] at hk
    obtain ⟨x, hx, rfl⟩ := List.mem_map.1 hk
    exact hsteady x.event (by rw [hcolumns.events]; exact List.mem_map_of_mem hx)
  refine ⟨?_, ?_, h.made.different, h.events, h.calendar, nodup_subscriptions t,
    bySubscription_eq t, ?_, fun e he => existsUnique_group he⟩
  · rw [hcolumns.keys, hcolumns.events, List.forall₂_map_left_iff, List.forall₂_map_right_iff,
      List.forall₂_same]
    exact fun x hx => ⟨rfl, rfl, getElem?_of_mem_numbered (hperm.subset hx)⟩
  · refine (h.made.sorted hsteady).imp_of_mem fun {a b} ha hb hab => ?_
    exact (TimelineKey.before_iff (hkeys a ha) (hkeys b hb)).2 hab
  · intro g hg
    rw [bySubscription_eq] at hg
    obtain ⟨s, -, rfl⟩ := List.mem_map.1 hg
    exact List.filter_sublist

/-- After any calls with events that can be compared, a timeline is what it has to be, and the answer
to the next call tells whether it changes anything. -/
theorem calls_consistent (accountOff : Bool) (mode : BillingMode) (zone : String) (off : List Id)
    (calls : List Call) (hcalls : ∀ c ∈ calls, ∀ x ∈ c.offered, x.Comparable) :
    let t := (empty accountOff mode zone off).after calls
    t.Consistent zone (calls.flatMap Call.offered) ∧
      (∀ e : BillingEvent, e.Comparable → ∃ added t', t.add e = .ok (added, t') ∧
        (added = false ↔ t' = t) ∧ (added = false ↔ ∃ x ∈ t.events, x.SameAs e)) ∧
      ∀ es : List BillingEvent, (∀ x ∈ es, x.Comparable) →
        ∃ added t', t.addAll es = (.ok added, t') ∧ (added = false ↔ t' = t) := by
  intro t
  have h : t.Holds zone _ := (Holds.empty accountOff mode zone off).after (by simp) hcalls
  have hoffered : ∀ x ∈ calls.flatMap Call.offered, x.Comparable := by
    intro x hx
    obtain ⟨c, hc, hx⟩ := List.mem_flatMap.1 hx
    exact hcalls c hc x hx
  refine ⟨h.consistent hoffered, fun e he => ?_, fun es hes => ?_⟩
  · obtain ⟨added, t', hadd, -, hsame, hleft, hlength⟩ := h.add hoffered he
    refine ⟨added, t', hadd, ⟨hleft, ?_⟩, hsame⟩
    rintro rfl
    cases added with
    | false => rfl
    | true => simp at hlength
  · obtain ⟨added, t', hall, -, hleft, hlength⟩ := h.addAll hoffered hes
    refine ⟨added, t', hall, hleft, ?_⟩
    rintro rfl
    cases added with
    | false => rfl
    | true => simp at hlength

/-! ## An event that comes in twice -/

/-- The day after the first one. -/
def secondDay : Date := { Clock.firstDay with day := 2, day_mem := by decide }

def onFirstDay : BillingEvent := monthlyFrom 1 Clock.firstDay (some (.ofInt 31))

def onSecondDay : BillingEvent := monthlyFrom 1 secondDay none

/-- The event of the first day with its instant and its price written in another way. -/
def restated : BillingEvent :=
  { onFirstDay with
    effective := ⟨⟨Clock.firstDay, 46800000000, by decide⟩, some (.offset 3600), false⟩
    recurringPrice := some (.finite false 310 (-1))
    description := "restated"
    placed := rfl }

/-- The later event comes in first, and the earlier one twice. -/
def repeatedCalls : List Call :=
  [.addAll [onSecondDay, onFirstDay], .markOff (.known 1), .add restated]

theorem comparable_onFirstDay : onFirstDay.Comparable :=
  ⟨Timestamp.steady_utc _, nofun, fun p hp => by cases hp; rfl⟩

theorem comparable_restated : restated.Comparable :=
  ⟨Timestamp.HasOffset.steady ⟨3600, rfl⟩, nofun, fun p hp => by cases hp; rfl⟩

theorem comparable_repeatedCalls : ∀ c ∈ repeatedCalls, ∀ x ∈ c.offered, x.Comparable := by
  have hsecond : onSecondDay.Comparable := ⟨Timestamp.steady_utc _, nofun, nofun⟩
  simp [repeatedCalls, Call.offered, comparable_onFirstDay, hsecond, comparable_restated]

theorem sameAs_restated : onFirstDay.SameAs restated := by
  refine (BillingEvent.equal?_eq_true_iff comparable_onFirstDay comparable_restated).2 ?_
  have hprice : Decimal.worth (.ofInt 31) = Decimal.worth (.finite false 310 (-1)) := by
    norm_num [Decimal.worth, Decimal.toRat, Decimal.ofInt, Decimal.magnitude]
  have hmicros : onFirstDay.effective.micros = restated.effective.micros := by rfl
  simp only [BillingEvent.content, hmicros]
  simp [restated, onFirstDay, monthlyFrom, hprice]

theorem firsts_repeatedCalls :
    firsts (repeatedCalls.flatMap Call.offered) = [onSecondDay, onFirstDay] := by
  have hnew : ¬ onSecondDay.SameAs onFirstDay := by
    rw [BillingEvent.SameAs, show onSecondDay.equal? onFirstDay = .ok false from rfl]
    simp
  have htwo : firsts [onSecondDay, onFirstDay] = [onSecondDay, onFirstDay] := by
    rw [← List.singleton_append, firsts_append, if_neg (by simpa using hnew)]
    rfl
  have hall : repeatedCalls.flatMap Call.offered = [onSecondDay, onFirstDay] ++ [restated] := rfl
  rw [hall, firsts_append, if_pos ⟨onFirstDay, by simp, sameAs_restated⟩, htwo, List.append_nil]

theorem calls_consistent_repeated :
    let t := (empty false .inAdvance "UTC" []).after repeatedCalls
    t.events.Perm [onSecondDay, onFirstDay] ∧
      t.calendar = some ⟨onSecondDay.effective, "UTC"⟩ ∧ t.add restated = .ok (false, t) := by
  intro t
  obtain ⟨hconsistent, hadds, -⟩ :=
    calls_consistent false .inAdvance "UTC" [] repeatedCalls comparable_repeatedCalls
  have hstored : t.events.Perm [onSecondDay, onFirstDay] := by
    rw [← firsts_repeatedCalls]
    exact hconsistent.stored
  obtain ⟨added, t', hadd, hleft, hthere⟩ := hadds restated comparable_restated
  obtain rfl : added = false :=
    hthere.2 ⟨onFirstDay, hstored.symm.subset (by simp), sameAs_restated⟩
  obtain rfl := hleft.1 rfl
  exact ⟨hstored, hconsistent.calendar, hadd⟩

end Timeline

end Invoicing
