import Invoicing.Proofs.Reconciliation.Terms
import Invoicing.Proofs.Timeline.Insertion

/-!
# Events that are the same

`BillingEvent.content` is all that counts about an event when it is compared with others: instants
only by what they denote, prices only by what they are worth, descriptions not at all. Events whose
prices are numbers can always be compared, and are the same if their contents are
(`BillingEvent.equal?_eq`). The events of a list before which no other is the same are its `firsts`
(`Timeline.firsts_append`); each event of the list is the same as one of them
(`Timeline.exists_first`).
-/

namespace Invoicing

/-- What counts about an event: whose it is, what changes when, and what is charged from then on. -/
structure EventContent where
  subscription : Id
  bundle : Id
  plan : String
  phase : String
  instant : Int
  zone : String
  cycleDay : Int
  period : BillingPeriod
  transition : TransitionType
  fixedPrice : Option (ℚ ⊕ Decimal)
  recurringPrice : Option (ℚ ⊕ Decimal)
  mode : BillingMode
  usages : List Usage
  ordering : Int
  deriving DecidableEq

theorem Decimal.isSignaling_of_equalsItself {d : Decimal} (h : d.equalsItself) :
    d.isSignaling = false := by
  match d, h with
  | .finite .., _ | .infinite _, _ => rfl

theorem equalPrices?_eq {x y : Option Decimal} (hx : ∀ a ∈ x, a.equalsItself)
    (hy : ∀ b ∈ y, b.equalsItself) :
    equalPrices? x y = .ok (decide (x.map Decimal.worth = y.map Decimal.worth)) := by
  obtain ⟨r, hr⟩ := equalPrices?_isOk (fun a ha => Decimal.isSignaling_of_equalsItself (hx a ha))
    fun b hb => Decimal.isSignaling_of_equalsItself (hy b hb)
  by_cases h : x.map Decimal.worth = y.map Decimal.worth
  · rw [equalPrices?_of_worth_eq hx h, decide_eq_true h]
  · cases r with
    | false => rw [hr, decide_eq_false h]
    | true => exact absurd (worth_of_equalPrices? hr) h

namespace BillingEvent

variable {a b c : BillingEvent}

/-- Whether an event can be compared with any other: its clock keeps one offset, and its prices are
numbers or infinite. -/
structure Comparable (e : BillingEvent) : Prop where
  steady : e.effective.Steady
  fixedPrice : ∀ p ∈ e.fixedPrice, p.equalsItself
  recurringPrice : ∀ p ∈ e.recurringPrice, p.equalsItself

def content (e : BillingEvent) : EventContent :=
  ⟨e.subscription, e.bundle, e.plan, e.phase, e.effective.micros, e.zone, e.cycleDay, e.period,
    e.transition, e.fixedPrice.map Decimal.worth, e.recurringPrice.map Decimal.worth, e.mode,
    e.usages, e.ordering⟩

theorem equal?_eq (ha : a.Comparable) (hb : b.Comparable) :
    a.equal? b = .ok (decide (a.content = b.content)) := by
  unfold equal?
  rw [equalPrices?_eq ha.fixedPrice hb.fixedPrice, equalPrices?_eq ha.recurringPrice hb.recurringPrice]
  simp only [Timestamp.same_iff ha.steady hb.steady, content, EventContent.mk.injEq]
  split
  case isFalse h =>
    rw [decide_eq_false]
    rintro ⟨hs, hbundle, hplan, hphase, htime, hzone, hday, hperiod, htransition, -⟩
    exact h ⟨hs, hbundle, hplan, hphase, htime, hzone, hday, hperiod, htransition⟩
  case isTrue h =>
    by_cases hfixed : a.fixedPrice.map Decimal.worth = b.fixedPrice.map Decimal.worth
    · by_cases hrecurring : a.recurringPrice.map Decimal.worth = b.recurringPrice.map Decimal.worth
      · simp [h, hfixed, hrecurring]
      · simp [hfixed, hrecurring]
    · simp [hfixed]

theorem equal?_eq_true_iff (ha : a.Comparable) (hb : b.Comparable) :
    a.equal? b = .ok true ↔ a.content = b.content := by
  rw [equal?_eq ha hb, Except.ok.injEq, decide_eq_true_iff]

/-- Whether two events say the same, their descriptions aside. -/
def SameAs (a b : BillingEvent) : Prop := a.equal? b = .ok true

instance (a b : BillingEvent) : Decidable (a.SameAs b) :=
  match h : a.equal? b with
  | .ok true => isTrue h
  | .ok false => isFalse (by rw [SameAs, h]; nofun)
  | .error _ => isFalse (by rw [SameAs, h]; nofun)

end BillingEvent

namespace Timeline

variable {t : Timeline} {es : List BillingEvent} {e : BillingEvent}

theorem contains?_eq (ht : ∀ x ∈ t.events, x.Comparable) (he : e.Comparable) :
    t.contains? e = .ok (decide (∃ x ∈ t.events, x.SameAs e)) := by
  unfold contains?
  revert ht
  induction t.events with
  | nil => intro _; rfl
  | cons x rest ih =>
    intro ht
    obtain ⟨hx, hrest⟩ := List.forall_mem_cons.1 ht
    rw [contains?.go, BillingEvent.equal?_eq hx he]
    by_cases hsame : x.content = e.content
    · have hthere : x.SameAs e := (BillingEvent.equal?_eq_true_iff hx he).2 hsame
      simp [hsame, hthere]
    · have hnot : ¬ x.SameAs e := mt (BillingEvent.equal?_eq_true_iff hx he).1 hsame
      simp [hsame, hnot, ih hrest]

/-! ## First events -/

/-- The events before which no other is the same. -/
def firsts (es : List BillingEvent) : List BillingEvent :=
  (es.zipIdx.filter fun (e, i) => ∀ x ∈ es.take i, ¬ x.SameAs e).map (·.1)

theorem firsts_append (es : List BillingEvent) (e : BillingEvent) :
    firsts (es ++ [e]) = firsts es ++ if ∃ x ∈ es, x.SameAs e then [] else [e] := by
  have hold : ∀ x ∈ es.zipIdx, (es ++ [e]).take x.2 = es.take x.2 := fun x hx =>
    List.take_append_of_le_length (Nat.le_of_lt (List.snd_lt_of_mem_zipIdx hx))
  have hnew : (es ++ [e]).take es.length = es := List.take_left
  rw [firsts, List.zipIdx_append, List.filter_append, List.map_append, firsts]
  congr 1
  · refine congrArg _ (List.filter_congr fun x hx => ?_)
    simp only [hold x hx]
  · simp only [Nat.zero_add, List.zipIdx_singleton, List.filter_singleton, hnew]
    by_cases h : ∀ x ∈ es, ¬ x.SameAs e
    · rw [decide_eq_true h, if_neg fun ⟨x, hx, hsame⟩ => h x hx hsame]
      rfl
    · rw [decide_eq_false h, if_pos (by simpa using h)]
      rfl

theorem mem_of_mem_firsts (h : e ∈ firsts es) : e ∈ es := by
  obtain ⟨x, hx, rfl⟩ := List.mem_map.1 h
  exact List.fst_mem_of_mem_zipIdx (List.mem_filter.1 hx).1

/-- Each event is the same as one that comes first. -/
theorem exists_first (hes : ∀ x ∈ es, x.Comparable) (he : e ∈ es) :
    ∃ x ∈ firsts es, x.content = e.content := by
  induction es using List.reverseRecOn generalizing e with
  | nil => exact absurd he (by simp)
  | append_singleton es last ih =>
    have hes' : ∀ x ∈ es, x.Comparable := fun x hx => hes x (by simp [hx])
    have hlast : last.Comparable := hes last (by simp)
    rw [firsts_append]
    rcases List.mem_append.1 he with he | he
    · obtain ⟨x, hx, hsame⟩ := ih hes' he
      exact ⟨x, List.mem_append_left _ hx, hsame⟩
    · rw [List.mem_singleton.1 he]
      split
      case isTrue h =>
        obtain ⟨x, hx, hsame⟩ := h
        obtain ⟨y, hy, hfirst⟩ := ih hes' hx
        rw [List.append_nil]
        exact ⟨y, hy, hfirst.trans ((BillingEvent.equal?_eq_true_iff (hes' x hx) hlast).1 hsame)⟩
      case isFalse => exact ⟨last, by simp, rfl⟩

theorem exists_first_sameAs (hes : ∀ x ∈ es, x.Comparable) (he : e.Comparable) :
    (∃ x ∈ firsts es, x.SameAs e) ↔ ∃ x ∈ es, x.SameAs e := by
  constructor
  · rintro ⟨x, hx, hsame⟩
    exact ⟨x, mem_of_mem_firsts hx, hsame⟩
  · rintro ⟨x, hx, hsame⟩
    obtain ⟨y, hy, hcontent⟩ := exists_first hes hx
    refine ⟨y, hy, (BillingEvent.equal?_eq_true_iff (hes y (mem_of_mem_firsts hy)) he).2 ?_⟩
    exact hcontent.trans ((BillingEvent.equal?_eq_true_iff (hes x hx) he).1 hsame)

end Timeline

end Invoicing
