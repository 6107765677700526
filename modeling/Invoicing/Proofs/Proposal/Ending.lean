import Invoicing.Proofs.Cycle.Cutting
import Invoicing.Proofs.Money.Rounding
import Invoicing.Proofs.Proposal.Days
import Invoicing.Proofs.Timeline.Insertion

/-!
# Subscriptions that end

An event without prices that comes behind all others of its subscription ends it. The charges that run
beyond the day of the event and start on it or later are not due any more, and the one in progress on
that day is cut off: it is due on the same terms up to that day, for no more than before
(`Billing.subscriptionDue_end`). All other charges are due as before (`Billing.due_end`).
-/

namespace Invoicing

namespace Item

/-- Whether an item is a recurring charge of a subscription that runs beyond a day. -/
def runsBeyond (s : Id) (c : Date) (i : Item) : Bool :=
  i.kind = .recurring && i.subscription = some s && i.finish.any (c < ·)

theorem runsBeyond_parts {s : Id} {c : Date} {i : Item} (h : i.runsBeyond s c) :
    i.kind = .recurring ∧ i.subscription = some s ∧ ∃ e, i.finish = some e ∧ c < e := by
  simp only [runsBeyond, Bool.and_eq_true, decide_eq_true_eq] at h
  obtain ⟨e, he, hlt⟩ := (Option.any_eq_true _ _).1 h.2
  exact ⟨h.1.1, h.1.2, e, he, of_decide_eq_true hlt⟩

/-- Whether a charge is another one cut off on a day: it is on the same terms up to that day, and
amounts to no more. -/
structure CutTo (c : Date) (i j : Item) : Prop where
  terms : j.terms = { i.terms with finish := some c, amount := j.terms.amount }
  start_lt : i.start < c
  amount_le : j.amount.amount.toRat ≤ i.amount.amount.toRat

/-- Whether charges are others of a subscription that ends on a day. -/
abbrev EndOn (s : Id) (c : Date) : List Item → List Item → Prop :=
  CutOff (·.runsBeyond s c = false) (fun i => i.runsBeyond s c ∧ c ≤ i.start)
    fun i j => i.runsBeyond s c ∧ i.CutTo c j

end Item

/-- Whether an event ends its subscription on a day: it comes in behind all other events of the
subscription, which is not marked off, and has no prices. -/
structure Timeline.EndedBy [TimeZones] (t : Timeline) (x : BillingEvent) (day : Date)
    (t' : Timeline) : Prop where
  add : t.add x = .ok (true, t')
  last : ∀ e ∈ t.eventsOf x.subscription, e.key ≤ x.key
  on : x.subscription ∉ t.off
  fixed : x.fixedPrice = none
  recurring : x.recurringPrice = none
  offset : x.effective.HasOffset
  day : ∀ c ∈ t.calendar, c.dateOf x.effective = .ok day

namespace Billing

variable {b : Billing} {rounding : Option RoundingMode} {calendar : AccountCalendar}
  {e x : BillingEvent} {next : Option BillingEvent} {events : List BillingEvent} {start c : Date}
  {drafts drafts' : List Item} {currency : Currency} {rate : Decimal}

/-! ## Amounts -/

theorem cycleAmount_mono (hc : b.currency = .currency currency) (hf : rate.isFinite)
    (h0 : 0 ≤ rate.toRat) {n m : Nat} {u v : Int} {a a' : Money}
    (hle : Decimal.toRat (.finite false m v) ≤ Decimal.toRat (.finite false n u))
    (h : b.cycleAmount rounding (.finite false n u) rate = .ok a)
    (h' : b.cycleAmount rounding (.finite false m v) rate = .ok a') :
    a'.amount.toRat ≤ a.amount.toRat := by
  obtain ⟨exact, hexact, h⟩ := bind_eq_ok_iff.1 h
  obtain ⟨amount, hamount, h⟩ := bind_eq_ok_iff.1 h
  obtain ⟨exact', hexact', h'⟩ := bind_eq_ok_iff.1 h'
  obtain ⟨amount', hamount', h'⟩ := bind_eq_ok_iff.1 h'
  rw [hc] at hamount hamount'
  obtain rfl := of_eq_ok hamount
  obtain rfl := of_eq_ok hamount'
  have hexact := mapError_eq_ok_iff.1 hexact
  have hexact' := mapError_eq_ok_iff.1 hexact'
  have hnonneg : 0 ≤ Decimal.toRat (.finite false m v) := by
    simpa [Decimal.toRat] using Decimal.magnitude_nonneg m v
  have hproducts : exact'.toRat ≤ exact.toRat :=
    Decimal.mul_mono (by decide) rfl rfl hf hnonneg hle h0 hexact' hexact
  have hfinite := (Decimal.mul_nonneg hf hexact).1
  have hfinite' := (Decimal.mul_nonneg hf hexact').1
  cases rounding with
  | none => cases h
  | some mode =>
    refine Money.round_mono ?_ ?_ ?_ ?_ h' h
    · exact hfinite'
    · exact hfinite
    · rfl
    · exact hproducts

theorem cycleDue_terms {cycle : BillingCycle} {i : Item}
    (h : b.cycleDue rounding e rate cycle = .ok i) :
    i.terms = ⟨some e.subscription, .recurring, some e.plan, some e.phase, some rate.worth,
      cycle.start, some cycle.finish, i.terms.amount, i.amount.currency⟩ := by
  obtain ⟨amount, -, h⟩ := bind_eq_ok_iff.1 h
  obtain ⟨_, rfl⟩ := Item.make_eq_ok_iff.1 h
  rfl

theorem cycleDue_shortened (hc : b.currency = .currency currency) (hf : rate.isFinite)
    (h0 : 0 ≤ rate.toRat) {cycle cycle' : BillingCycle} {i j : Item}
    (hcut : cycle.Shortens c cycle') (h : b.cycleDue rounding e rate cycle = .ok i)
    (h' : b.cycleDue rounding e rate cycle' = .ok j) :
    i.runsBeyond e.subscription c ∧ i.CutTo c j := by
  obtain ⟨hkind, hsub, hstart, hfinish, -, hamount⟩ := cycleDue_eq_ok h
  obtain ⟨-, -, -, -, -, hamount'⟩ := cycleDue_eq_ok h'
  obtain ⟨n, u, m, v, hcount, hcount'⟩ := hcut.counts
  have hle := hcut.count_le
  rw [hcount] at hamount hle
  rw [hcount'] at hamount' hle
  have hcurrency := (cycleAmount_eq_ok hc hf hamount).1
  have hcurrency' := (cycleAmount_eq_ok hc hf hamount').1
  refine ⟨by simp [Item.runsBeyond, hkind, hsub, hfinish, hcut.lt_finish], ?_,
    hstart ▸ hcut.start_lt, cycleAmount_mono hc hf h0 hle hamount hamount'⟩
  rw [cycleDue_terms h', cycleDue_terms h, hcut.start, hcut.finish, hcurrency, hcurrency']

/-! ## Events -/

theorem runsBeyond_of_fixed (h : b.fixedDue e start = .ok drafts) (s : Id) :
    ∀ i ∈ drafts, i.runsBeyond s c = false := by
  intro i hi
  have hkind := (mem_fixedDue none h hi).2.1
  simp [Item.runsBeyond, hkind]

variable [TimeZones]

theorem recurringDue_end (hc : b.currency = .currency currency)
    (hf : ∀ d ∈ e.recurringPrice, d.isFinite) (h0 : ∀ d ∈ e.recurringPrice, 0 ≤ d.toRat)
    (hx : calendar.dateOf x.effective = .ok c)
    (h : b.recurringDue rounding calendar e none start = .ok drafts)
    (h' : b.recurringDue rounding calendar e (some x) start = .ok drafts') :
    Item.EndOn e.subscription c drafts drafts' := by
  rcases recurringDue_cases h with
    ⟨rfl, hout⟩ | ⟨hrec, hdue, finish, cycles, rate, hfinish, hcycles, hrate, hmade⟩
  · rcases recurringDue_cases h' with ⟨rfl, -⟩ | ⟨hrec, hdue, -, -, rate, -, -, hrate, -⟩
    · exact .gone (by simp)
    · rcases hout with hout | hlt | hout
      · simp [hrec] at hout
      · exact absurd hdue (not_le.2 hlt)
      · simp [hout] at hrate
  rcases recurringDue_cases h' with
    ⟨-, hout⟩ | ⟨-, -, finish', cycles', rate', hfinish', hcycles', hrate', hmade'⟩
  · rcases hout with hout | hlt | hout
    · simp [hrec] at hout
    · exact absurd hdue (not_le.2 hlt)
    · simp [hout] at hrate
  obtain rfl : none = finish := Except.ok.inj hfinish
  obtain rfl : some c = finish' := by
    simp only [Option.mapM_some, hx] at hfinish'
    exact Except.ok.inj hfinish'
  obtain rfl : rate = rate' := Option.some.inj (hrate.symm.trans hrate')
  refine (BillingCycle.inAdvance_cut hcycles hcycles').mapM hmade hmade' ?_ ?_ ?_
  · intro cycle i hle hi
    obtain ⟨-, -, -, hfinish, -⟩ := cycleDue_eq_ok hi
    simp [Item.runsBeyond, hfinish, not_lt.2 hle]
  · intro cycle i hle hi
    obtain ⟨hkind, hsub, hstart, hfinish, -⟩ := cycleDue_eq_ok hi
    obtain ⟨f, hf, hlt⟩ := Item.finish_of_recurring hkind
    obtain rfl : cycle.finish = f := Option.some.inj (hfinish.symm.trans hf)
    rw [hstart] at hlt ⊢
    exact ⟨by simp [Item.runsBeyond, hkind, hsub, hfinish, hle.trans_lt hlt], hle⟩
  · intro cycle cycle' i j hcut hi hj
    exact cycleDue_shortened hc (hf rate hrate) (h0 rate hrate) hcut hi hj

theorem runsBeyond_of_next {n : BillingEvent} {f : Date}
    (h : b.eventDue rounding calendar e (some n) = .ok drafts)
    (hn : calendar.dateOf n.effective = .ok f) (hle : f ≤ c) (s : Id) :
    ∀ i ∈ drafts, i.runsBeyond s c = false := by
  obtain ⟨start, fixed, recurring, -, hfixed, hrecurring, rfl⟩ := eventDue_eq_ok h
  refine List.forall_mem_append.2 ⟨runsBeyond_of_fixed hfixed s, fun i hi => ?_⟩
  rcases recurringDue_cases hrecurring with ⟨rfl, -⟩ | ⟨-, -, finish, cycles, rate, hfinish, hcycles,
    -, hmade⟩
  · simp at hi
  obtain rfl : some f = finish := by
    simp only [Option.mapM_some, hn] at hfinish
    exact Except.ok.inj hfinish
  obtain ⟨cycle, hcycle, hi⟩ := mem_of_mapM hmade hi
  obtain ⟨-, -, -, hfinish, -⟩ := cycleDue_eq_ok hi
  have hend := (BillingCycle.finish_le_of_mem_inAdvance hcycles cycle hcycle).trans hle
  simp [Item.runsBeyond, hfinish, not_lt.2 hend]

theorem eventDue_unpriced (hfixed : x.fixedPrice = none) (hrecurring : x.recurringPrice = none)
    (h : b.eventDue rounding calendar x next = .ok drafts) : drafts = [] := by
  refine List.eq_nil_iff_forall_not_mem.2 fun i hi => ?_
  rcases (mem_eventDue h hi).amount with ⟨-, -, price, hprice, -⟩ | ⟨-, rate, hrate, -⟩
  · simp [hfixed] at hprice
  · simp [hrecurring] at hrate

theorem eventDue_end (hc : b.currency = .currency currency)
    (hf : ∀ d ∈ e.recurringPrice, d.isFinite) (h0 : ∀ d ∈ e.recurringPrice, 0 ≤ d.toRat)
    (hx : calendar.dateOf x.effective = .ok c)
    (h : b.eventDue rounding calendar e none = .ok drafts)
    (h' : b.eventDue rounding calendar e (some x) = .ok drafts') :
    Item.EndOn e.subscription c drafts drafts' := by
  obtain ⟨start, fixed, recurring, hstart, hfixed, hrecurring, rfl⟩ := eventDue_eq_ok h
  obtain ⟨start', fixed', recurring', hstart', hfixed', hrecurring', rfl⟩ := eventDue_eq_ok h'
  obtain rfl : start = start' := Except.ok.inj (hstart.symm.trans hstart')
  obtain rfl : fixed = fixed' := Except.ok.inj (hfixed.symm.trans hfixed')
  exact (recurringDue_end hc hf h0 hx hrecurring hrecurring').append_left
    (runsBeyond_of_fixed hfixed _)

/-! ## Subscriptions -/

/-- The charges of a subscription that an event without prices ends. The induction is on its other
events, of which only the last is cut off. -/
theorem subscriptionDue_end {s : Id} (hc : b.currency = .currency currency)
    (hf : ∀ e ∈ events, ∀ d ∈ e.recurringPrice, d.isFinite)
    (h0 : ∀ e ∈ events, ∀ d ∈ e.recurringPrice, 0 ≤ d.toRat)
    (hsub : ∀ e ∈ events, e.subscription = s) (ho : InOrder calendar (events ++ [x]))
    (hfixed : x.fixedPrice = none) (hrecurring : x.recurringPrice = none)
    (hx : calendar.dateOf x.effective = .ok c)
    (h : b.subscriptionDue rounding calendar events = .ok drafts)
    (h' : b.subscriptionDue rounding calendar (events ++ [x]) = .ok drafts') :
    Item.EndOn s c drafts drafts' := by
  have hend : ∀ {ds}, b.subscriptionDue rounding calendar [x] = .ok ds → ds = [] := by
    intro ds h
    obtain ⟨items, others, hitems, hothers, rfl⟩ := subscriptionDue_cons_eq_ok h
    obtain rfl := eventDue_unpriced hfixed hrecurring hitems
    exact (Except.ok.inj hothers).symm
  induction events generalizing drafts drafts' with
  | nil =>
    obtain rfl := Except.ok.inj h
    rw [hend h']
    exact .gone (by simp)
  | cons e rest ih =>
    obtain ⟨items, others, hitems, hothers, rfl⟩ := subscriptionDue_cons_eq_ok h
    obtain ⟨items', others', hitems', hothers', rfl⟩ := subscriptionDue_cons_eq_ok h'
    have hrest := (List.pairwise_cons.1 ho).2
    cases rest with
    | nil =>
      obtain rfl : [] = others := Except.ok.inj hothers
      rw [hend hothers', List.append_nil, List.append_nil, ← hsub e (by simp)]
      exact eventDue_end hc (hf e (by simp)) (h0 e (by simp)) hx hitems hitems'
    | cons n rest =>
      -- Another event comes next with the end as without.
      obtain rfl : items = items' := Except.ok.inj (hitems.symm.trans hitems')
      obtain ⟨_, _, hn, -, -⟩ := subscriptionDue_cons_eq_ok hothers
      obtain ⟨f, -, -, hdate, -⟩ := eventDue_eq_ok hn
      have hle := (List.pairwise_cons.1 hrest).1 x (by simp) f c hdate hx
      exact (ih (fun e he => hf e (by simp [he])) (fun e he => h0 e (by simp [he]))
        (fun e he => hsub e (by simp [he])) hrest hothers hothers').append_left
        (runsBeyond_of_next hitems hdate hle s)

/-! ## All subscriptions -/

section

variable {t t' : Timeline}

theorem filter_due_add (hc : b.currency = .currency currency) (ht : t.length ≠ 0)
    (hadd : t.add x = .ok (true, t')) (h : b.due rounding t = .ok drafts)
    (h' : b.due rounding t' = .ok drafts') {k : Option Id} (hk : some x.subscription ≠ k) :
    drafts.filter (·.subscription = k) = drafts'.filter (·.subscription = k) := by
  have hframe := Timeline.sameFrame_add hadd
  have hnone : ∀ {t : Timeline} {ds : List Item}, b.due rounding t = .ok ds →
      (∀ s ∈ k, s ∈ t.off) → ds.filter (·.subscription = k) = [] := by
    intro t ds h hoff
    refine List.filter_eq_nil_iff.2 fun i hi hik => ?_
    obtain ⟨e, -, hon, hof⟩ := mem_due hc h hi
    exact hon (hoff _ (by rw [← of_decide_eq_true hik, hof.subscription]; rfl))
  cases k with
  | none => rw [hnone h (by simp), hnone h' (by simp)]
  | some s =>
    by_cases hs : s ∈ t.off
    · rw [hnone h (by rintro _ ⟨⟩; exact hs), hnone h' (by rintro _ ⟨⟩; rw [hframe.off]; exact hs)]
    obtain ⟨calendar, hcalendar, hdue⟩ := filter_due hc ht h hs
    obtain ⟨calendar', hcalendar', hdue'⟩ := filter_due hc (Timeline.length_add hadd) h'
      (hframe.off ▸ hs)
    obtain rfl : calendar = calendar' := Option.some.inj
      ((Timeline.calendar_add hadd hcalendar).symm.trans hcalendar')
    rw [Timeline.eventsOf_add_of_ne hadd fun heq => hk (congrArg some heq), hdue] at hdue'
    exact Except.ok.inj hdue'

/-- What is due when an event has ended its subscription: what was due, up to the end. -/
theorem due_end (hc : b.currency = .currency currency) (ht : t.length ≠ 0) (hmade : t.Made)
    (ho : t.HasOffsets) (hz : t.zone = "UTC")
    (hf : ∀ e ∈ t.events, ∀ d ∈ e.recurringPrice, d.isFinite)
    (h0 : ∀ e ∈ t.events, ∀ d ∈ e.recurringPrice, 0 ≤ d.toRat) (hx : t.EndedBy x c t')
    (h : b.due rounding t = .ok drafts) (h' : b.due rounding t' = .ok drafts') :
    Item.EndOn x.subscription c (drafts.filter (·.subscription = some x.subscription))
      (drafts'.filter (·.subscription = some x.subscription)) ∧
    (drafts.filter (·.subscription ≠ some x.subscription)).Perm
      (drafts'.filter (·.subscription ≠ some x.subscription)) := by
  have hframe := Timeline.sameFrame_add hx.add
  constructor
  · obtain ⟨calendar, hcalendar, hdue⟩ := filter_due hc ht h hx.on
    have hcalendar' := Timeline.calendar_add hx.add hcalendar
    obtain ⟨c₂, hc₂, hdue'⟩ := filter_due hc (Timeline.length_add hx.add) h' (hframe.off ▸ hx.on)
    obtain rfl : calendar = c₂ := Option.some.inj (hcalendar'.symm.trans hc₂)
    have hevents := hmade.eventsOf_add ho.steady hx.offset.steady hx.add hx.last
    have hmem : ∀ e ∈ t.eventsOf x.subscription, e ∈ t.events := fun e he =>
      List.mem_of_mem_filter he
    have ho' : t'.HasOffsets := fun e he => by
      rcases Timeline.mem_events_add hx.add he with he | rfl
      · exact ho e he
      · exact hx.offset
    have horder : InOrder calendar (t'.eventsOf x.subscription) :=
      ((hmade.add hx.add).localDate_le ho' (hframe.zone.trans hz) hcalendar').sublist
        List.filter_sublist
    rw [hevents] at hdue' horder
    exact subscriptionDue_end hc (fun e he => hf e (hmem e he)) (fun e he => h0 e (hmem e he))
      (fun e he => Timeline.mem_eventsOf he) horder hx.fixed hx.recurring (hx.day calendar hcalendar)
      hdue hdue'
  · refine List.perm_iff_count.2 fun i => ?_
    by_cases hi : i.subscription = some x.subscription
    · rw [List.count_eq_zero.2 (by simp [hi]), List.count_eq_zero.2 (by simp [hi])]
    · have hown : ∀ ds : List Item, (ds.filter (·.subscription ≠ some x.subscription)).count i =
          (ds.filter (·.subscription = i.subscription)).count i := fun ds => by
        rw [List.count_filter (by simpa using hi), List.count_filter (by simp)]
      rw [hown, hown, filter_due_add hc ht hx.add h h' (Ne.symm hi)]

end

end Billing

end Invoicing
