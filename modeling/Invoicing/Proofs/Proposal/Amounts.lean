import Invoicing.Proofs.Decimal.Nearest
import Invoicing.Proofs.Proposal.Charges
import Invoicing.Proofs.Timeline.Order

/-!
# Prorated amounts

The charge for part of a period is the rate times a quotient of days, rounded to minor units. Quotient
and product are rounded before that, to the digits of the working precision. For rates of fifteen digits
this does not show, with one exception: a charge that ends in exactly half a minor unit may be rounded
down, if the quotient is no decimal fraction (`Billing.cycleAmount_prorates`). So it is for all items of
a proposal, each in a period of its event (`BillingRules.propose_prorates`).
-/

namespace Invoicing

/-- The minor units, exactly, that some days of a period come to at a rate. -/
def exactUnits (rate : Decimal) (days period : Nat) (currency : Currency) : ℚ :=
  rate.toRat * (days / period) * 10 ^ currency.places

/-- Whether an amount is what some days of a period come to at a rate, rounded once to minor units, a
half upwards; unless the days are no decimal fraction of the period, then a half may go down. -/
def Money.Prorates (m : Money) (rate : Decimal) (days period : Nat) : Prop :=
  ∃ n : Nat, m.Counts (-m.currency.places) n ∧
    (n = ⌊exactUnits rate days period m.currency + 1 / 2⌋₊ ∨
      ¬ period ∣ days * 10 ^ 9 ∧ exactUnits rate days period m.currency = n + 1 / 2)

/-- Whether a number is not negative and written with fifteen digits at most, followed by five zeros
before the point at most. -/
def Decimal.HasFifteenDigits (d : Decimal) : Prop :=
  ∃ (c : Nat) (x : Int), d.Counts x c ∧ c < 10 ^ 15 ∧ x ≤ 5

theorem Decimal.HasFifteenDigits.finite {d : Decimal} (h : d.HasFifteenDigits) :
    d.isFinite ∧ 0 ≤ d.toRat := by
  obtain ⟨c, x, hcounts, -⟩ := h
  refine ⟨hcounts.1, ?_⟩
  rw [hcounts.2]
  positivity

theorem Money.of_amount {d : Decimal} {currency : Value} {m : Money}
    (h : Money.of (.decimal d) currency = .ok m) : m.amount = d := by
  unfold Money.of at h
  obtain ⟨a, ha, h⟩ := bind_eq_ok_iff.1 h
  obtain rfl : Value.decimal d = a := Except.ok.inj ha
  have hmake : ∀ {c : Value}, Money.make (.decimal d) c = .ok m → m.amount = d := by
    intro c hm
    obtain ⟨a, ha, hm⟩ := bind_eq_ok_iff.1 hm
    obtain ⟨c', -, hm⟩ := bind_eq_ok_iff.1 hm
    obtain rfl := Except.ok.inj ha
    obtain rfl := Except.ok.inj hm
    rfl
  dsimp only at h
  split at h
  · obtain ⟨c, -, h⟩ := bind_eq_ok_iff.1 h
    exact hmake h
  · exact hmake h

/-! ## How far the exact product is off -/

theorem product_near {rate exact : Decimal} {days period : Nat} (hrate : rate.isFinite)
    (hnonneg : 0 ≤ rate.toRat) (hperiod : 0 < period) (hle : days ≤ period)
    (h : Decimal.mul working (Decimal.ratio working days period) rate = .ok exact) :
    |exact.toRat - rate.toRat * (days / period)| ≤
      3 / 10 ^ 27 * (rate.toRat * (days / period)) + 1 / 10 ^ 200 := by
  have hround : working.roundoff = 1 / 10 ^ 27 := by
    unfold Precision.roundoff
    norm_num [Precision.working]
  have hunder : working.underflow ≤ 1 / 10 ^ 200 := by
    have hpow : (1 : ℚ) / 10 ^ 200 = 10 ^ (-200 : Int) := by norm_num
    rw [hpow]
    exact zpow_le_zpow_right₀ (by norm_num) (by decide)
  have hshare := Decimal.ratio_near (p := working) (by decide) hperiod hle
  obtain ⟨c, e, hratio⟩ := Decimal.ratio_eq working days period
  have hshare0 : 0 ≤ (Decimal.ratio working days period).toRat := by
    rw [hratio]
    exact Decimal.magnitude_nonneg c e
  have hproduct := Decimal.mul_near (by rw [hratio]; rfl) hrate (by decide) h
  rw [hround] at hshare hproduct
  generalize (Decimal.ratio working days period).toRat = share at hshare hshare0 hproduct
  have hq : (0 : ℚ) ≤ days / period := by positivity
  generalize (days : ℚ) / period = q at hshare hq ⊢
  generalize rate.toRat = r at hnonneg hproduct ⊢
  rw [abs_of_nonneg (mul_nonneg hshare0 hnonneg)] at hproduct
  have hstep : |share * r - r * q| ≤ 1 / 10 ^ 27 * (r * q) := by
    rw [show share * r - r * q = r * (share - q) by ring, abs_mul, abs_of_nonneg hnonneg]
    calc r * |share - q| ≤ r * (1 / 10 ^ 27 * q) := mul_le_mul_of_nonneg_left hshare hnonneg
      _ = 1 / 10 ^ 27 * (r * q) := by ring
  have hrq : 0 ≤ r * q := mul_nonneg hnonneg hq
  have hbound : share * r ≤ 2 * (r * q) := by
    have := (abs_le.1 hstep).2
    linarith
  have := abs_sub_le exact.toRat (share * r) (r * q)
  linarith

theorem units_near {rate exact : Decimal} {days period : Nat} (currency : Currency)
    (hrate : rate.isFinite) (hnonneg : 0 ≤ rate.toRat) (hperiod : 0 < period) (hle : days ≤ period)
    (h : Decimal.mul working (Decimal.ratio working days period) rate = .ok exact) :
    |exact.toRat * 10 ^ currency.places - exactUnits rate days period currency| ≤
      3 / 10 ^ 27 * exactUnits rate days period currency + 1 / 10 ^ 190 := by
  have hnear := product_near hrate hnonneg hperiod hle h
  have hpow : (0 : ℚ) < 10 ^ currency.places := by positivity
  have hplaces : (10 : ℚ) ^ currency.places ≤ 10 ^ 3 :=
    pow_le_pow_right₀ (by norm_num) currency.places_le
  have hscaled := mul_le_mul_of_nonneg_right hnear hpow.le
  rw [exactUnits, ← sub_mul, abs_mul, abs_of_pos hpow]
  refine hscaled.trans ?_
  linarith

/-! ## Rounding -/

theorem floor_half_of_close {a b : Nat} {w : ℚ} (hb : 0 < b) (hw : 0 ≤ w) (ha : a < 10 ^ 26)
    (h : |w - a / b| ≤ 3 / 10 ^ 27 * (a / b) + 1 / 10 ^ 190) :
    ⌊w + 1 / 2⌋₊ = ⌊(a : ℚ) / b + 1 / 2⌋₊ ∨ (a : ℚ) / b = ⌊w + 1 / 2⌋₊ + 1 / 2 := by
  have hb' : (0 : ℚ) < b := by exact_mod_cast hb
  have ha' : (a : ℚ) < 10 ^ 26 := by exact_mod_cast ha
  by_cases hsmall : (a : ℚ) / b < 1 / 4
  · -- Both are nearer to zero than half a unit.
    left
    have hw' : w < 1 / 2 := by
      have := (abs_le.1 h).2
      linarith
    have hzero : ∀ y : ℚ, y < 1 / 2 → ⌊y + 1 / 2⌋₊ = 0 := by
      intro y hy
      rw [Nat.floor_eq_zero]
      linarith
    rw [hzero w hw', hzero _ (by linarith)]
  · -- The denominator is small enough to keep halves away.
    have hdenominator : (b : ℚ) ≤ 4 * a := by
      rw [not_lt, div_le_div_iff₀ (by norm_num) hb'] at hsmall
      linarith
    refine Decimal.floor_half_of_near hb hw (h.trans_lt ?_)
    rw [lt_div_iff₀ (by positivity)]
    have hfrac : (3 / 10 ^ 27 * ((a : ℚ) / b) + 1 / 10 ^ 190) * (2 * b) =
        6 / 10 ^ 27 * a + 2 / 10 ^ 190 * b := by
      field_simp
      ring
    rw [hfrac]
    linarith

variable {b : Billing} {rate : Decimal} {days period : Nat} {m : Money}

theorem exactUnits_eq (hrate : rate.HasFifteenDigits) (hperiod : 0 < period) (hle : days ≤ period)
    (hlt : period < 1000) (currency : Currency) : ∃ a b : Nat, 0 < b ∧ a < 10 ^ 26 ∧
      exactUnits rate days period currency = a / b := by
  obtain ⟨c, x, hcounts, hc, hx⟩ := hrate
  have hplaces := currency.places_le
  obtain ⟨k, hk⟩ : ∃ k : Int, k = x + currency.places := ⟨_, rfl⟩
  refine ⟨c * days * 10 ^ k.toNat, period * 10 ^ (-k).toNat, by positivity, ?_, ?_⟩
  · calc c * days * 10 ^ k.toNat < 10 ^ 15 * 1000 * 10 ^ 8 := by
          refine Nat.mul_lt_mul_of_lt_of_le ?_ (Nat.pow_le_pow_right (by decide) (by omega))
            (by positivity)
          exact Nat.mul_lt_mul_of_lt_of_le hc (by omega) (by decide)
      _ = 10 ^ 26 := by norm_num
  · have hpow : (10 : ℚ) ^ x * 10 ^ currency.places = 10 ^ k.toNat / 10 ^ (-k).toNat := by
      rw [← zpow_natCast, ← zpow_add₀ (by norm_num), ← hk, eq_div_iff (by positivity),
        ← zpow_natCast, ← zpow_natCast, ← zpow_add₀ (by norm_num)]
      congr 1
      omega
    have hperiod' : (0 : ℚ) < period := by exact_mod_cast hperiod
    rw [exactUnits, hcounts.2]
    push_cast
    calc (c : ℚ) * 10 ^ x * (days / period) * 10 ^ currency.places =
          c * days / period * (10 ^ x * 10 ^ currency.places) := by ring
      _ = c * days * 10 ^ k.toNat / (period * 10 ^ (-k).toNat) := by
          rw [hpow, div_mul_div_comm]

theorem product_eq_of_half {exact : Decimal} {n : Nat} (currency : Currency) (hrate : rate.isFinite)
    (hperiod : 0 < period) (hle : days ≤ period) (hdvd : period ∣ days * 10 ^ 9)
    (h : Decimal.mul working (Decimal.ratio working days period) rate = .ok exact)
    (hunits : exactUnits rate days period currency = n + 1 / 2) (hn : n < 10 ^ 26) :
    exact.toRat * 10 ^ currency.places = exactUnits rate days period currency := by
  have hplaces := currency.places_le
  have hleast : working.least = -1000026 := rfl
  have hadmits : working.Admits (-currency.places - 1) :=
    ⟨by decide, by omega, by change -(currency.places : Int) - 1 + 28 - 1 ≤ 999999; omega⟩
  have hshare : (Decimal.ratio working days period).isFinite := by
    obtain ⟨c, e, hratio⟩ := Decimal.ratio_eq working days period
    rw [hratio]
    rfl
  have hpow : (10 : ℚ) ^ (-currency.places - 1 : Int) * 10 ^ currency.places = 1 / 10 := by
    rw [← zpow_natCast, ← zpow_add₀ (by norm_num)]
    have hexp : (-currency.places - 1 + currency.places : Int) = -1 := by omega
    rw [hexp]
    norm_num
  have hproduct : (Decimal.ratio working days period).toRat * rate.toRat =
      ((10 * n + 5 : Int) : ℚ) * 10 ^ (-currency.places - 1 : Int) := by
    rw [Decimal.ratio_exact (k := 9) hperiod hle (by decide) hdvd]
    refine mul_right_cancel₀ (by positivity : (10 : ℚ) ^ currency.places ≠ 0) ?_
    rw [mul_assoc (((10 * n + 5 : Int) : ℚ)), hpow]
    rw [exactUnits] at hunits
    push_cast
    linarith
  obtain ⟨d, hd, hcounts⟩ := Decimal.mul_counts hshare hrate hadmits hproduct (by
    change (10 * n + 5 : Int).natAbs < 10 ^ 28
    omega)
  obtain rfl : exact = d := Except.ok.inj (h.symm.trans hd)
  rw [hcounts.2, mul_assoc, hpow, hunits]
  push_cast
  ring

/-- The charge for part of a period at a rate of fifteen digits is prorated. -/
theorem Billing.cycleAmount_prorates (hrate : rate.HasFifteenDigits) (hperiod : 0 < period)
    (hle : days ≤ period) (hlt : period < 1000)
    (h : b.cycleAmount (some .halfUp) (Decimal.ratio working days period) rate = .ok m) :
    m.Prorates rate days period := by
  obtain ⟨exact, hexact, h⟩ := bind_eq_ok_iff.1 h
  obtain ⟨amount, hamount, h⟩ := bind_eq_ok_iff.1 h
  obtain ⟨d, hd, rfl⟩ := map_eq_ok_iff.1 h
  rw [Money.of_amount hamount] at hd
  generalize amount.currency = currency at hd ⊢
  obtain ⟨x, y, hshare⟩ := Decimal.ratio_eq working days period
  have hexact := mapError_eq_ok_iff.1 hexact
  obtain ⟨hfinite, hnonneg⟩ := hrate.finite
  obtain ⟨hfin, hsign⟩ := Decimal.mul_nonneg hfinite (hshare ▸ hexact)
  have hcounts := Decimal.quantize_halfUp hfin (by decide) (hsign hnonneg) (mapError_eq_ok_iff.1 hd)
  have hunit : exact.toRat / 10 ^ (-currency.places : Int) = exact.toRat * 10 ^ currency.places := by
    rw [zpow_neg, div_inv_eq_mul, zpow_natCast]
  rw [hunit] at hcounts
  refine ⟨_, hcounts, ?_⟩
  obtain ⟨a, b', hb', ha, hunits⟩ := exactUnits_eq hrate hperiod hle hlt currency
  have hnear : |exact.toRat * 10 ^ currency.places - a / b'| ≤
      3 / 10 ^ 27 * (a / b') + 1 / 10 ^ 190 :=
    hunits ▸ units_near currency hfinite hnonneg hperiod hle hexact
  have hw : 0 ≤ exact.toRat * 10 ^ currency.places := mul_nonneg (hsign hnonneg) (by positivity)
  rcases floor_half_of_close hb' hw ha hnear with heq | hhalf
  · exact .inl (by rw [hunits]; exact heq)
  rw [← hunits] at hhalf
  by_cases hdvd : period ∣ days * 10 ^ 9
  · left
    rw [product_eq_of_half currency hfinite hperiod hle hdvd hexact hhalf ?_]
    have hle : (a : ℚ) / b' ≤ a := div_le_self (by positivity) (by exact_mod_cast hb')
    have ha' : (a : ℚ) < 10 ^ 26 := by exact_mod_cast ha
    rw [hunits] at hhalf
    exact_mod_cast (by linarith : (⌊exact.toRat * 10 ^ currency.places + 1 / 2⌋₊ : ℚ) < 10 ^ 26)
  · exact .inr ⟨hdvd, hhalf⟩

/-! ## Items of a proposal -/

/-- Whether an item is for days of one of the periods of an event that begins on a day, and its amount
is what these days come to at the price of the event. -/
def Item.IsProrated (i : Item) (e : BillingEvent) (start : Date) : Prop :=
  ∃ rate ∈ e.recurringPrice, i.rate = some rate ∧
    ∃ finish ∈ i.finish, ∃ p q, BillingCycle.IsPeriod start e.cycleDay e.period p q ∧
      p ≤ i.start ∧ i.start < finish ∧ finish ≤ q ∧
      i.amount.Prorates rate (i.start.daysUntil finish).toNat (p.daysUntil q).toNat

namespace Billing

variable {calendar : AccountCalendar} {e : BillingEvent} {next : Option BillingEvent} {start : Date}
  {drafts : List Item} {i : Item}

variable [TimeZones]

theorem recurringDue_prorated (hrate : ∀ rate ∈ e.recurringPrice, rate.HasFifteenDigits)
    (h : b.recurringDue (some .halfUp) calendar e next start = .ok drafts) (hi : i ∈ drafts) :
    i.IsProrated e start := by
  rcases recurringDue_cases h with
    ⟨rfl, -⟩ | ⟨-, -, finish, cycles, rate, -, hcycles, hprice, hdrafts⟩
  · simp at hi
  obtain ⟨c, hc, hdraft⟩ := mem_of_mapM hdrafts hi
  obtain ⟨-, -, hstart, hfinish, hr, hamount⟩ := cycleDue_eq_ok hdraft
  obtain ⟨p, q, hperiod, hwithin⟩ := BillingCycle.mem_inAdvance hcycles c hc
  have hdays := Date.daysUntil_le hwithin.start_le hwithin.finish_le
  have hpos := Date.daysUntil_pos hwithin.start_lt
  rw [hwithin.count_eq] at hamount
  refine ⟨rate, hprice, hr, c.finish, hfinish, p, q, hperiod, ?_⟩
  rw [hstart]
  exact ⟨hwithin.start_le, hwithin.start_lt, hwithin.finish_le,
    cycleAmount_prorates (hrate rate hprice) (hpos.trans_le hdays) hdays hperiod.days_lt hamount⟩

theorem eventDue_prorated (hrate : ∀ rate ∈ e.recurringPrice, rate.HasFifteenDigits)
    (h : b.eventDue (some .halfUp) calendar e next = .ok drafts) (hi : i ∈ drafts)
    (hk : i.kind = .recurring) :
    ∃ start, calendar.dateOf e.effective = .ok start ∧ i.IsProrated e start := by
  obtain ⟨start, fixed, recurring, hstart, hfixed, hrecurring, rfl⟩ := eventDue_eq_ok h
  rcases List.mem_append.1 hi with hi | hi
  · have hkind := (mem_fixedDue none hfixed hi).2.1
    simp [hk] at hkind
  · exact ⟨start, hstart, recurringDue_prorated hrate hrecurring hi⟩

end Billing

namespace BillingRules

variable {t : Timeline} {account : Id} {target : Date} {currency : Value} {invoice : Option Id}
  {s : Session} {items : List Item}

/-- Every recurring item of a proposal is for days of a period of one of the events, and prorated. -/
theorem propose_prorates [TimeZones]
    (hrates : ∀ e ∈ t.events, ∀ rate ∈ e.recurringPrice, rate.HasFifteenDigits)
    (h : ((propose ⟨some .halfUp, .initial⟩ account t target currency invoice).from_ s).1 =
      .ok items) :
    ∀ i ∈ items, i.kind = .recurring → ∃ e ∈ t.events, i.subscription = some e.subscription ∧
      ∃ calendar ∈ t.calendar, ∃ start, calendar.dateOf e.effective = .ok start ∧
        i.IsProrated e start := by
  intro i hi hk
  have hmade := propose_drafts (some .halfUp) account t target currency invoice s
  cases hdue : Billing.due ⟨account, target, currency, invoice⟩ (some .halfUp) t with
  | error f =>
    rw [hdue] at hmade
    obtain ⟨s', hrun, -⟩ := hmade
    rw [hrun] at h
    cases h
  | ok drafts =>
  rw [hdue] at hmade
  obtain ⟨items', s', hrun, rfl, -⟩ := hmade
  rw [hrun] at h
  obtain rfl := Except.ok.inj h
  obtain ⟨x, hx, rfl⟩ := List.mem_map.1 hi
  have hd : x.1 ∈ drafts := List.fst_mem_of_mem_zipIdx hx
  obtain ⟨b, calendar, -, hcalendar, e, he, -, next, part, hpart, hd⟩ := Billing.mem_due_event hdue hd
  obtain ⟨start, hstart, hprorated⟩ := Billing.eventDue_prorated (hrates e he) hpart hd hk
  exact ⟨e, he, (Billing.mem_eventDue hpart hd).subscription, calendar, hcalendar, start, hstart,
    hprorated⟩

/-! ## The last day of a June -/

open TimeZones.UtcOnly

def june : Date := { Clock.firstDay with month := 6, month_mem := by decide, day_mem := by decide }

def july : Date := { Clock.firstDay with month := 7, month_mem := by decide, day_mem := by decide }

def juneEnd : Date := { june with day := 30, day_mem := by decide }

/-- 2.25, so that one of the 30 days of the month comes to 7.5 hundredths. -/
def lateRate : Decimal := .finite false 225 (-2)

/-- The start of a subscription on the last day of June. -/
def lateEvent : BillingEvent := monthlyFrom 1 juneEnd (some lateRate)

/-- What is proposed for that day. -/
def lateProposal : Except Fault (List Item) :=
  ((propose ⟨some .halfUp, .initial⟩ (.known 0) (timelineOf [lateEvent]) juneEnd (.currency .usd)
    none).from_ .start).1

theorem lateRate_hasFifteenDigits :
    ∀ e ∈ (timelineOf [lateEvent]).events, ∀ rate ∈ e.recurringPrice, rate.HasFifteenDigits := by
  intro e he rate hrate
  obtain rfl := List.mem_singleton.1 (mem_timelineOf he)
  obtain rfl : lateRate = rate := Option.some.inj hrate
  exact ⟨225, -2, ⟨rfl, by norm_num [lateRate, Decimal.toRat, Decimal.magnitude]⟩, by decide,
    by decide⟩

theorem lateProposal_eq : ∃ i, lateProposal = .ok [i] ∧ i.kind = .recurring ∧
    i.start = juneEnd ∧ i.finish = some july ∧ i.amount = ⟨.finite false 7 (-2), .usd⟩ := by
  have hparts : lateProposal.toOption.map
      (·.map fun i => (i.kind, i.start, i.finish, i.amount)) =
      some [(.recurring, juneEnd, some july, ⟨.finite false 7 (-2), .usd⟩)] := by decide +kernel
  cases hrun : lateProposal with
  | error f => simp [hrun, Except.toOption] at hparts
  | ok items =>
    simp only [hrun, Except.toOption, Option.map_some, Option.some.injEq,
      List.map_eq_singleton_iff, Prod.mk.injEq] at hparts
    obtain ⟨i, rfl, hi⟩ := hparts
    exact ⟨i, rfl, hi⟩

theorem june_isPeriod :
    BillingCycle.IsPeriod juneEnd lateEvent.cycleDay lateEvent.period june july :=
  ⟨july, by rfl, -1, le_rfl, by rfl, by rfl⟩

theorem exactUnits_late : exactUnits lateRate (juneEnd.daysUntil july).toNat
    (june.daysUntil july).toNat .usd = 15 / 2 := by
  have hdays : (juneEnd.daysUntil july).toNat = 1 := by decide
  have hperiod : (june.daysUntil july).toNat = 30 := by decide
  rw [hdays, hperiod]
  norm_num [exactUnits, lateRate, Decimal.toRat, Decimal.magnitude, Currency.places]

/-- Half a minor unit can be lost: the last day of June comes to 7.5 cents, and 7 are charged. -/
theorem propose_half_lost : ∃ i, lateProposal = .ok [i] ∧ i.kind = .recurring ∧
    i.start = juneEnd ∧ i.finish = some july ∧
    BillingCycle.IsPeriod juneEnd lateEvent.cycleDay lateEvent.period june july ∧
    ¬ i.amount.Counts (-i.amount.currency.places)
      ⌊exactUnits lateRate (juneEnd.daysUntil july).toNat (june.daysUntil july).toNat
        i.amount.currency + 1 / 2⌋₊ := by
  obtain ⟨i, hrun, hk, hstart, hfinish, hamount⟩ := lateProposal_eq
  refine ⟨i, hrun, hk, hstart, hfinish, june_isPeriod, ?_⟩
  rw [hamount, exactUnits_late]
  rintro ⟨-, hvalue⟩
  norm_num [Decimal.toRat, Decimal.magnitude, Currency.places] at hvalue

/-- The charge for the last day of June is prorated. -/
theorem propose_prorates_late :
    (∀ e ∈ (timelineOf [lateEvent]).events, ∀ rate ∈ e.recurringPrice, rate.HasFifteenDigits) ∧
    ∃ i, lateProposal = .ok [i] ∧ i.kind = .recurring ∧ ∃ start, i.IsProrated lateEvent start := by
  obtain ⟨i, hrun, hk, -⟩ := lateProposal_eq
  obtain ⟨e, he, -, -, -, start, -, hprorated⟩ :=
    propose_prorates lateRate_hasFifteenDigits hrun i (by simp) hk
  obtain rfl := List.mem_singleton.1 (mem_timelineOf he)
  exact ⟨lateRate_hasFifteenDigits, i, hrun, hk, start, hprorated⟩

end BillingRules

end Invoicing
