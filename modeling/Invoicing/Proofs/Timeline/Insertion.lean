import Invoicing.Proofs.Decimal.Congruence
import Invoicing.Proofs.Timeline.Order

/-!
# The order in which events come in

If no two events are the same, all of them are taken in, and the entries are the events with the
numbers under which they came (`addAll_entries`). Since entries are in order, events that come in the
order of a timeline stay as they are (`addAll_sorted`), and events that differ in instant or ordering
make the same timeline in whatever order they come in (`addAll_perm`).
-/

namespace Invoicing

theorem Timestamp.same_comm (a b : Timestamp) : a.same b = b.same a := by
  unfold same
  by_cases h : a.place = b.place
  · rw [if_pos h, if_pos h.symm]
    exact decide_eq_decide.2 eq_comm
  · rw [if_neg h, if_neg (Ne.symm h)]
    match a.instant?, b.instant? with
    | none, none | none, some _ | some _, none => rfl
    | some x, some y =>
      simp only [@eq_comm _ y x, Bool.and_assoc, Bool.and_comm (!b.isAmbiguous)]

theorem BillingEvent.equal?_comm (a b : BillingEvent) : a.equal? b = b.equal? a := by
  unfold equal?
  rw [Timestamp.same_comm b.effective a.effective, equalPrices?_comm b.fixedPrice a.fixedPrice,
    equalPrices?_comm b.recurringPrice a.recurringPrice]
  simp only [@eq_comm _ b.subscription a.subscription, @eq_comm _ b.bundle a.bundle,
    @eq_comm _ b.plan a.plan, @eq_comm _ b.phase a.phase, @eq_comm _ b.zone a.zone,
    @eq_comm _ b.cycleDay a.cycleDay, @eq_comm _ b.period a.period,
    @eq_comm _ b.transition a.transition, @eq_comm _ b.mode a.mode, @eq_comm _ b.usages a.usages,
    @eq_comm _ b.ordering a.ordering]

/-- What events are ordered by, before the order in which they come in. -/
def BillingEvent.key (e : BillingEvent) : Int ×ₗ Int := toLex (e.effective.micros, e.ordering)

theorem BillingEvent.key_eq_of_equal? {a b : BillingEvent} (ha : a.effective.Steady)
    (hb : b.effective.Steady) (h : a.equal? b = .ok true) : a.key = b.key := by
  unfold equal? at h
  split at h
  case isFalse => cases h
  case isTrue hparts =>
  have hsame : a.effective.micros = b.effective.micros :=
    (Timestamp.same_iff ha hb).1 hparts.2.2.2.2.1
  split at h
  case h_2 hne => exact absurd h hne
  case h_1 =>
  split at h
  case h_2 hne => exact absurd h hne
  case h_1 =>
  have hordering : a.ordering = b.ordering := (of_decide_eq_true (Except.ok.inj h)).2.2
  rw [key, key, hsame, hordering]

namespace TimelineEntry

variable {a b : TimelineEntry}

theorem event_key_le (h : a.key.rank < b.key.rank) : a.event.key ≤ b.event.key := by
  rw [TimelineKey.rank, TimelineKey.rank, Prod.Lex.toLex_lt_toLex, Prod.Lex.toLex_lt_toLex] at h
  rw [BillingEvent.key, BillingEvent.key, Prod.Lex.toLex_le_toLex]
  exact h.imp_right fun h => ⟨h.1, h.2.elim le_of_lt fun h => h.1.le⟩

theorem key_lt (h : a.event.key ≤ b.event.key) (hs : a.serial < b.serial) :
    a.key.rank < b.key.rank := by
  rw [BillingEvent.key, BillingEvent.key, Prod.Lex.toLex_le_toLex] at h
  rw [TimelineKey.rank, TimelineKey.rank, Prod.Lex.toLex_lt_toLex, Prod.Lex.toLex_lt_toLex]
  exact h.imp_right fun h => ⟨h.1, h.2.lt_or_eq.imp_right fun h => ⟨h, hs⟩⟩

end TimelineEntry

namespace Timeline

/-- Whether no two of some events are the same. -/
def Different (es : List BillingEvent) : Prop := es.Pairwise fun a b => a.equal? b = .ok false

theorem Different.perm {xs ys : List BillingEvent} (h : Different xs) (hp : xs.Perm ys) :
    Different ys :=
  (hp.pairwise_iff fun {a b} hab => by rw [BillingEvent.equal?_comm]; exact hab).1 h

/-! ## Events that are all taken in -/

variable {t t' : Timeline} {e : BillingEvent} {es : List BillingEvent} {entries : List TimelineEntry}

theorem contains?_eq_false : t.contains? e = .ok false ↔ ∀ x ∈ t.events, x.equal? e = .ok false := by
  unfold contains?
  induction t.events with
  | nil => simp [contains?.go]
  | cons x rest ih =>
    rw [contains?.go, List.forall_mem_cons]
    split
    case h_1 hx => rw [ih]; simp [hx]
    case h_2 hne =>
      refine ⟨fun h => absurd h (hne), fun h => absurd h.1 hne⟩

theorem Made.calendar_eq (h : t.Made) (ht : t.events ≠ []) :
    ∃ c, t.calendar = some c ∧ c.zone = t.zone := by
  suffices hsome : t.calendar.isSome by
    obtain ⟨c, hc⟩ := Option.isSome_iff_exists.1 hsome
    exact ⟨c, hc, h.calendar_zone c hc⟩
  induction h with
  | empty => exact absurd rfl ht
  | add hmade hadd ih =>
    rcases add_cases hadd with ⟨-, rfl, -⟩ | ⟨-, -, -, -, -, -, hcalendar⟩
    · exact ih ht
    · rw [hcalendar]; rfl
  | markOff subscription hmade ih => exact ih ht

theorem contains?_eq_true (h : t.contains? e = .ok true) :
    ∃ x ∈ t.events, x.equal? e = .ok true := by
  unfold contains? at h
  revert h
  induction t.events with
  | nil => exact nofun
  | cons x rest ih =>
    intro h
    rw [contains?.go] at h
    split at h
    case h_1 hx =>
      obtain ⟨y, hy, heq⟩ := ih h
      exact ⟨y, by simp [hy], heq⟩
    case h_2 => exact ⟨x, by simp, h⟩

/-- Whether a timeline has the flags and the zone of another one. -/
structure SameFrame (t t' : Timeline) : Prop where
  accountOff : t'.accountOff = t.accountOff
  off : t'.off = t.off
  zone : t'.zone = t.zone

theorem add_different (h : ∀ x ∈ t.events, x.equal? e = .ok false) :
    ∃ t', t.add e = .ok (true, t') ∧ t'.events.Perm (e :: t.events) ∧
      t'.inserted = t.inserted + 1 ∧ SameFrame t t' ∧ ∀ entries, t.Columns entries →
        ∃ entries', t'.Columns entries' ∧ entries'.Perm (⟨e, t.inserted⟩ :: entries) := by
  rw [add, contains?_eq_false.2 h]
  refine ⟨_, rfl, insertAt_perm .., rfl, ⟨rfl, rfl, rfl⟩, fun entries hcolumns => ?_⟩
  exact ⟨_, hcolumns.add rfl rfl rfl, insertAt_perm ..⟩

theorem addAll_entries (hcolumns : t.Columns entries) (h : Different (t.events ++ es)) :
    ∃ b t' entries', t.addAll es = (.ok b, t') ∧ t'.Columns entries' ∧
      entries'.Perm (entries ++ (es.zipIdx t.inserted).map fun x => ⟨x.1, x.2⟩) ∧
      SameFrame t t' := by
  induction es generalizing t entries with
  | nil => exact ⟨false, t, entries, rfl, hcolumns, by simp, rfl, rfl, rfl⟩
  | cons e es ih =>
    have hnew : ∀ x ∈ t.events, x.equal? e = .ok false := fun x hx =>
      (List.pairwise_append.1 h).2.2 x hx e (by simp)
    obtain ⟨t₁, hadd, hevents, hinserted, hframe, hentries⟩ := add_different hnew
    obtain ⟨entries₁, hcolumns₁, hperm⟩ := hentries entries hcolumns
    have hevents : (t₁.events ++ es).Perm (t.events ++ e :: es) :=
      (hevents.append_right es).trans List.perm_middle.symm
    obtain ⟨b, t₂, entries₂, hall, hcolumns₂, hperm₂, hframe₂⟩ :=
      ih hcolumns₁ (h.perm hevents.symm)
    refine ⟨true || b, t₂, entries₂, ?_, hcolumns₂, ?_, hframe₂.accountOff.trans hframe.accountOff,
      hframe₂.off.trans hframe.off, hframe₂.zone.trans hframe.zone⟩
    · rw [addAll, hadd]
      simp only [hall]
      rfl
    · rw [List.zipIdx_cons, List.map_cons, ← hinserted]
      exact hperm₂.trans ((hperm.append_right _).trans List.perm_middle.symm)

theorem Made.different (h : t.Made) : Different t.events := by
  induction h with
  | empty => exact .nil
  | @add t t' e added hmade hadd ih =>
    rcases add_cases hadd with ⟨-, rfl, -⟩ | ⟨-, hnew, -, hevents, -⟩
    · exact ih
    · rw [hevents]
      refine Different.perm (List.pairwise_cons.2 ⟨fun x hx => ?_, ih⟩) (insertAt_perm ..).symm
      rw [BillingEvent.equal?_comm]
      exact contains?_eq_false.1 hnew x hx
  | markOff subscription hmade ih => exact ih

/-! ## Events in order -/

section Order

variable {b : Bool} {es' : List BillingEvent}

theorem numbered_sorted {n : Nat} (h : es.Pairwise fun a b => a.key ≤ b.key) :
    ((es.zipIdx n).map fun x => TimelineEntry.mk x.1 x.2).Pairwise fun a b =>
      a.key.rank < b.key.rank := by
  induction es generalizing n with
  | nil => exact .nil
  | cons e es ih =>
    rw [List.pairwise_cons] at h
    rw [List.zipIdx_cons, List.map_cons]
    refine List.pairwise_cons.2 ⟨fun x hx => ?_, ih h.2⟩
    obtain ⟨⟨y, k⟩, hy, rfl⟩ := List.mem_map.1 hx
    exact TimelineEntry.key_lt (h.1 y (List.fst_mem_of_mem_zipIdx hy))
      (Nat.lt_of_succ_le (List.le_snd_of_mem_zipIdx hy))

theorem Made.keys_le (h : t.Made) (ho : t.Steady) :
    t.events.Pairwise fun a b => a.key ≤ b.key := by
  obtain ⟨entries, hcolumns⟩ := h.columns
  have hsorted := h.sorted ho
  rw [Sorted, hcolumns.keys, List.pairwise_map] at hsorted
  rw [hcolumns.events, List.pairwise_map]
  exact hsorted.imp TimelineEntry.event_key_le

variable (accountOff : Bool) (mode : BillingMode) (zone : String) (off : List Id)

theorem empty_columns : (empty accountOff mode zone off).Columns [] := ⟨rfl, rfl, by simp⟩

theorem addAll_empty (hd : Different es) :
    ∃ b t entries, (empty accountOff mode zone off).addAll es = (.ok b, t) ∧ t.Columns entries ∧
      entries.Perm ((es.zipIdx 0).map fun x => ⟨x.1, x.2⟩) ∧ t.events.Perm es ∧ t.Made ∧
      SameFrame (empty accountOff mode zone off) t := by
  obtain ⟨b, t, entries, hall, hcolumns, hperm, hframe⟩ :=
    addAll_entries (t := empty accountOff mode zone off) (empty_columns ..) hd
  have hmade := (Made.empty accountOff mode zone off).addAll es
  rw [hall] at hmade
  refine ⟨b, t, entries, hall, hcolumns, hperm, ?_, hmade, hframe⟩
  rw [hcolumns.events]
  refine (hperm.map TimelineEntry.event).trans (List.Perm.of_eq ?_)
  rw [List.nil_append, List.map_map]
  exact List.zipIdx_map_fst 0 es

/-- Events that come in the order of a timeline stay as they are. -/
theorem addAll_sorted (hd : Different es) (ho : ∀ e ∈ es, e.effective.Steady)
    (hs : es.Pairwise fun a b => a.key ≤ b.key) :
    ∃ b t, (empty accountOff mode zone off).addAll es = (.ok b, t) ∧ t.events = es ∧ t.Made ∧
      SameFrame (empty accountOff mode zone off) t := by
  obtain ⟨b, t, entries, hall, hcolumns, hperm, hevents, hmade, hframe⟩ :=
    addAll_empty accountOff mode zone off hd
  have hnumbered := numbered_sorted (n := 0) hs
  have hsorted := hmade.sorted fun e he => ho e (hevents.subset he)
  rw [Sorted, hcolumns.keys, List.pairwise_map] at hsorted
  have hentries : entries = (es.zipIdx 0).map fun x => ⟨x.1, x.2⟩ :=
    hperm.eq_of_pairwise (fun a b _ _ hab hba => absurd hba hab.not_gt) hsorted hnumbered
  refine ⟨b, t, hall, ?_, hmade, hframe⟩
  rw [hcolumns.events, hentries, List.map_map]
  exact List.zipIdx_map_fst 0 es

variable {accountOff mode zone off}

theorem different_of_addAll (hd : Different t.events)
    (hkeys : ((t.events ++ es).map BillingEvent.key).Nodup)
    (ho : ∀ e ∈ t.events ++ es, e.effective.Steady) (h : t.addAll es = (.ok b, t')) :
    Different (t.events ++ es) := by
  induction es generalizing t b with
  | nil => simpa using hd
  | cons e es ih =>
    unfold addAll at h
    split at h
    case h_1 => cases h
    case h_2 added t₁ hadd =>
    have hnew : t.contains? e = .ok false := by
      unfold add at hadd
      split at hadd
      case h_1 => cases hadd
      case h_3 hnot => exact hnot
      case h_2 htrue =>
        obtain ⟨x, hx, heq⟩ := contains?_eq_true htrue
        have hkey := BillingEvent.key_eq_of_equal? (ho x (by simp [hx])) (ho e (by simp)) heq
        rw [List.map_append, List.nodup_append] at hkeys
        exact absurd hkey (hkeys.2.2 _ (List.mem_map_of_mem hx) _ (by simp))
    obtain ⟨t₂, hadd₂, hperm, -, -⟩ := add_different (contains?_eq_false.1 hnew)
    obtain rfl : t₂ = t₁ := (Prod.ext_iff.1 (Except.ok.inj (hadd₂.symm.trans hadd))).2
    have hevents : (t₂.events ++ es).Perm (t.events ++ e :: es) :=
      (hperm.append_right es).trans List.perm_middle.symm
    have hone : Different t₂.events := by
      refine Different.perm (List.pairwise_cons.2 ⟨fun x hx => ?_, hd⟩) hperm.symm
      rw [BillingEvent.equal?_comm]
      exact contains?_eq_false.1 hnew x hx
    obtain ⟨answer, hrest⟩ : ∃ b, t₂.addAll es = (.ok b, t') := by
      rcases hall : t₂.addAll es with ⟨answer, t₃⟩
      rw [hall] at h
      obtain ⟨hb, rfl⟩ := Prod.ext_iff.1 h
      cases answer with
      | error f => cases hb
      | ok b => exact ⟨b, rfl⟩
    exact (ih hone ((hevents.map _).nodup_iff.2 hkeys) (fun x hx => ho x (hevents.subset hx))
      hrest).perm hevents

/-- Events that differ in instant or ordering make one timeline, in whatever order they come in. -/
theorem addAll_perm (hp : es.Perm es') (ho : ∀ e ∈ es, e.effective.Steady)
    (hkeys : (es.map BillingEvent.key).Nodup)
    (h : (empty accountOff mode zone off).addAll es = (.ok b, t)) :
    ∃ b' t', (empty accountOff mode zone off).addAll es' = (.ok b', t') ∧ t'.events = t.events ∧
      t'.Made ∧ SameFrame t t' := by
  have hd : Different es := different_of_addAll (t := empty accountOff mode zone off) .nil hkeys ho h
  obtain ⟨_, t, _, hall, -, -, hevents, hmade, hframe⟩ := addAll_empty accountOff mode zone off hd
  obtain ⟨-, rfl⟩ := Prod.ext_iff.1 (h.symm.trans hall)
  obtain ⟨b', t', _, hall', -, -, hevents', hmade', hframe'⟩ :=
    addAll_empty accountOff mode zone off (hd.perm hp)
  refine ⟨b', t', hall', ?_, hmade', hframe'.accountOff.trans hframe.accountOff.symm,
    hframe'.off.trans hframe.off.symm, hframe'.zone.trans hframe.zone.symm⟩
  have hmem : ∀ x ∈ t'.events, x ∈ es := fun x hx => hp.symm.subset (hevents'.subset hx)
  refine (hevents'.trans (hp.symm.trans hevents.symm)).eq_of_pairwise (fun x y hx hy hxy hyx => ?_)
    (hmade'.keys_le fun x hx => ho x (hmem x hx))
    (hmade.keys_le fun x hx => ho x (hevents.subset hx))
  exact List.inj_on_of_nodup_map hkeys (hmem x hx) (hevents.subset hy) (le_antisymm hxy hyx)

end Order

/-! ## Events behind all others of their subscription -/

theorem sameFrame_add (hadd : t.add e = .ok (true, t')) : SameFrame t t' := by
  obtain ⟨hadded, -⟩ | ⟨-, hnew, -⟩ := add_cases hadd
  · cases hadded
  obtain ⟨t₁, hadd₁, -, -, hframe, -⟩ := add_different (contains?_eq_false.1 hnew)
  obtain rfl : t₁ = t' := (Prod.ext_iff.1 (Except.ok.inj (hadd₁.symm.trans hadd))).2
  exact hframe

theorem length_add (hadd : t.add e = .ok (true, t')) : t'.length ≠ 0 := by
  obtain ⟨hadded, -⟩ | ⟨-, -, -, hevents, -⟩ := add_cases hadd
  · cases hadded
  · rw [length, hevents]
    simp [insertAt]

theorem calendar_add {c : AccountCalendar} (hadd : t.add e = .ok (true, t'))
    (hc : t.calendar = some c) : t'.calendar = some c := by
  obtain ⟨hadded, -⟩ | ⟨-, -, -, -, -, -, hcalendar⟩ := add_cases hadd
  · cases hadded
  · rw [hcalendar, hc]
    rfl

theorem eventsOf_add_of_ne (hadd : t.add e = .ok (true, t')) {s : Id} (hs : e.subscription ≠ s) :
    t'.eventsOf s = t.eventsOf s := by
  obtain ⟨hadded, -⟩ | ⟨-, -, -, hevents, -⟩ := add_cases hadd
  · cases hadded
  rw [eventsOf, hevents, insertAt, List.filter_append, List.filter_cons_of_neg (by simpa using hs),
    ← List.filter_append, List.take_append_drop]
  rfl

theorem Made.eventsOf_add (h : t.Made) (ho : t.Steady) (he : e.effective.Steady)
    (hadd : t.add e = .ok (true, t')) (hlast : ∀ x ∈ t.eventsOf e.subscription, x.key ≤ e.key) :
    t'.eventsOf e.subscription = t.eventsOf e.subscription ++ [e] := by
  obtain ⟨hadded, -⟩ | ⟨-, -, hkeys, hevents, hinserted, -⟩ := add_cases hadd
  · cases hadded
  obtain ⟨entries, hcolumns⟩ := h.columns
  have hsorted := (h.add hadd).sorted fun x hx => by
    rcases mem_events_add hadd hx with hx | rfl
    · exact ho x hx
    · exact he
  rw [Sorted, (hcolumns.add hkeys hevents hinserted).keys, List.pairwise_map, insertAt,
    List.pairwise_append] at hsorted
  have hbehind := (List.pairwise_cons.1 hsorted.2.1).1
  have hnone : (t.events.drop (t.placeOf e)).filter (·.subscription = e.subscription) = [] := by
    refine List.filter_eq_nil_iff.2 fun x hx hsub => ?_
    have hmem := List.mem_of_mem_drop hx
    rw [hcolumns.events, ← List.map_drop] at hx
    obtain ⟨y, hy, rfl⟩ := List.mem_map.1 hx
    have hkey : y.event.key ≤ (TimelineEntry.mk e t.inserted).event.key :=
      hlast y.event (List.mem_filter.2 ⟨hmem, hsub⟩)
    have hserial := hcolumns.serial_lt y (List.mem_of_mem_drop hy)
    exact absurd (TimelineEntry.key_lt hkey hserial) (hbehind y hy).not_gt
  have hbefore : t.eventsOf e.subscription =
      (t.events.take (t.placeOf e)).filter (·.subscription = e.subscription) := by
    conv_lhs => rw [eventsOf, ← List.take_append_drop (t.placeOf e) t.events]
    rw [List.filter_append, hnone, List.append_nil]
  rw [eventsOf, hevents, insertAt, List.filter_append, List.filter_cons_of_pos (by simp), hnone,
    hbefore]

end Timeline

end Invoicing
