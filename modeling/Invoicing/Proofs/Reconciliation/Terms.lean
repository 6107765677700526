import Invoicing.Proofs.Decimal.Value
import Invoicing.Proofs.Outcome
import Invoicing.Reconciliation

/-!
# Terms of charges

`Charge.terms` is all that counts about a charge when issued and proposed charges are compared:
prices and amounts only by what they are worth. `Verdict.Fits` says what a verdict claims about a
charge and the proposal it names, and `Charge.fits_of_verdict?` that every verdict given is right.
Conversely a charge with a proposal of the same terms is kept (`Charge.kept_of_verdict?`).
-/

namespace Invoicing

namespace Decimal

/-- What a decimal is worth: a number its value, anything else only itself. -/
def worth : Decimal → ℚ ⊕ Decimal
  | .finite n c e => .inl (toRat (.finite n c e))
  | d => .inr d

theorem worth_eq_inl {d : Decimal} (h : d.isFinite) : d.worth = .inl d.toRat := by
  match d, h with
  | .finite .., _ => rfl

theorem finite_of_worth {d : Decimal} {q : ℚ} (h : d.worth = .inl q) :
    d.isFinite ∧ d.toRat = q := by
  match d, h with
  | .finite .., h => exact ⟨rfl, Sum.inl.inj h⟩

/-- Whether a decimal equals itself: a mark for what is not a number does not. -/
def equalsItself : Decimal → Bool
  | .nan .. => false
  | _ => true

theorem equalsItself_of_isFinite {d : Decimal} (h : d.isFinite) : d.equalsItself := by
  match d, h with
  | .finite .., _ => rfl

theorem order?_of_equal? {a b : Decimal} (h : a.equal? b = .ok true) : order? a b = some .eq := by
  unfold equal? at h
  split at h
  case h_1 o ho => simpa [ho] using h
  case h_2 => split at h <;> simp at h

theorem worth_of_equal? {a b : Decimal} (h : a.equal? b = .ok true) : a.worth = b.worth := by
  match a, b, order?_of_equal? h with
  | .finite .., .finite .., _ =>
    rw [equal?_eq rfl rfl] at h
    exact congrArg Sum.inl (by simpa using h)
  | .infinite n, .infinite m, h =>
    have hnm : n = m := by cases n <;> cases m <;> simp [order?] at h ⊢
    rw [hnm]
  | .infinite n, .finite .., h => cases n <;> simp [order?] at h
  | .finite .., .infinite m, h => cases m <;> simp [order?] at h
  | .nan .., _, h | .finite .., .nan .., h | .infinite _, .nan .., h => simp [order?] at h

theorem equal?_isOk {a b : Decimal} (ha : a.isSignaling = false) (hb : b.isSignaling = false) :
    ∃ r, a.equal? b = .ok r := by
  unfold equal?
  split
  · exact ⟨_, rfl⟩
  · exact ⟨false, by simp [ha, hb]⟩

theorem equal?_of_worth_eq {a b : Decimal} (ha : a.equalsItself) (h : a.worth = b.worth) :
    a.equal? b = .ok true := by
  match a, b, ha, h with
  | .finite .., .finite .., _, h =>
    rw [equal?_eq rfl rfl]
    simpa using Sum.inl.inj h
  | .infinite n, .infinite m, _, h =>
    obtain rfl : n = m := by simpa [worth] using h
    simp [equal?, order?]
  | .infinite _, .nan .., _, h => simp [worth] at h

theorem isSignaling_of_isFinite {d : Decimal} (h : d.isFinite) : d.isSignaling = false := by
  match d, h with
  | .finite .., _ => rfl

end Decimal

theorem worth_of_equalPrices? {x y : Option Decimal} (h : equalPrices? x y = .ok true) :
    x.map Decimal.worth = y.map Decimal.worth := by
  match x, y, h with
  | none, none, _ => rfl
  | some a, some b, h => exact congrArg some (Decimal.worth_of_equal? h)

theorem equalPrices?_isOk {x y : Option Decimal} (hx : ∀ a ∈ x, a.isSignaling = false)
    (hy : ∀ b ∈ y, b.isSignaling = false) : ∃ r, equalPrices? x y = .ok r := by
  match x, y with
  | none, none => exact ⟨true, rfl⟩
  | some a, some b => exact Decimal.equal?_isOk (hx a rfl) (hy b rfl)
  | none, some _ | some _, none => exact ⟨false, rfl⟩

theorem equalPrices?_of_worth_eq {x y : Option Decimal} (hx : ∀ a ∈ x, a.equalsItself)
    (h : x.map Decimal.worth = y.map Decimal.worth) : equalPrices? x y = .ok true := by
  match x, y, h with
  | none, none, _ => rfl
  | some a, some b, h => exact Decimal.equal?_of_worth_eq (hx a rfl) (Option.some.inj h)

/-- What counts about a charge: whose it is and what for, its price, its days and its amount. -/
structure Terms where
  subscription : Option Id
  kind : ItemKind
  plan : Option String
  phase : Option String
  rate : Option (ℚ ⊕ Decimal)
  start : Date
  finish : Option Date
  amount : ℚ ⊕ Decimal
  currency : Currency
  deriving DecidableEq

namespace Charge

def terms (c : Charge) : Terms :=
  ⟨c.item.subscription, c.item.kind, c.item.plan, c.item.phase, c.item.rate.map Decimal.worth,
    c.item.start, c.finish, c.amount.amount.worth, c.amount.currency⟩

/-- Whether two charges are for the same thing from the same day on: end and amount aside. -/
def SameCause (a b : Charge) : Prop :=
  a.item.subscription = b.item.subscription ∧ a.item.kind = b.item.kind ∧
    a.item.plan = b.item.plan ∧ a.item.phase = b.item.phase ∧
    a.item.rate.map Decimal.worth = b.item.rate.map Decimal.worth ∧ a.item.start = b.item.start

theorem SameCause.terms_eq {a b : Charge} (h : SameCause a b) (hf : a.finish = b.finish)
    (ha : a.amount.amount.worth = b.amount.amount.worth)
    (hc : a.amount.currency = b.amount.currency) : a.terms = b.terms := by
  obtain ⟨hs, hk, hp, hh, hr, hd⟩ := h
  simp [terms, hs, hk, hp, hh, hr, hd, hf, ha, hc]

end Charge

namespace Verdict

/-- The proposal that a verdict settles a charge with. -/
def proposal? : Verdict → Option Charge
  | .kept p | .shortened p => some p
  | .cancelled => none

/-- What a verdict says about a charge. -/
def Fits (c : Charge) : Verdict → Prop
  | .kept p => p.terms = c.terms
  | .shortened p => p.SameCause c ∧ c.item.kind = .recurring ∧
      p.amount.amount.le? c.amount.amount = .ok true ∧
      ∃ d e, p.finish = some d ∧ c.finish = some e ∧ d < e
  | .cancelled => True

end Verdict

namespace Charge

variable {c p : Charge} {proposals : List Charge} {v : Verdict}

theorem terms_eq_of_sameExtent? (hcause : p.SameCause c) (h : sameExtent? p c = .ok true) :
    p.terms = c.terms := by
  unfold sameExtent? at h
  split at h
  case isTrue hf =>
    unfold Money.equal? at h
    split at h
    case h_1 ha =>
      exact hcause.terms_eq hf (Decimal.worth_of_equal? ha) (by simpa using h)
    case h_2 hne => exact absurd h hne
  case isFalse => simp at h

theorem mem_candidates? {l : List Charge} (h : c.candidates? proposals = .ok l) (hp : p ∈ l) :
    p ∈ proposals ∧ p.matched = false ∧ (p.item.subscription = c.item.subscription →
      p.SameCause c) := by
  rw [candidates?] at h
  rw [filterM_eq_ok h, List.mem_filter, List.mem_filter] at hp
  obtain ⟨⟨hmem, hopen⟩, hterms⟩ := hp
  simp only [Bool.and_eq_true, decide_eq_true_eq, Bool.not_eq_true'] at hopen
  refine ⟨hmem, hopen.2, fun hs => ?_⟩
  rw [holds_iff, sameTerms?] at hterms
  split at hterms
  case isTrue hpp =>
    exact ⟨hs, hopen.1.1, hpp.1.symm, hpp.2.symm, (worth_of_equalPrices? hterms).symm, hopen.1.2⟩
  case isFalse => simp at hterms

theorem isPartOf?_eq_true (h : isPartOf? p c = .ok true) :
    p.amount.amount.le? c.amount.amount = .ok true ∧
      ∃ d e, p.finish = some d ∧ c.finish = some e ∧ d < e := by
  unfold isPartOf? at h
  split at h
  case h_1 d e hd he =>
    split at h
    case isTrue hlt => exact ⟨h, d, e, hd, he, hlt⟩
    case isFalse => simp at h
  case h_2 => simp at h

/-- A verdict is right about the charge, and names an open proposal if any. -/
theorem fits_of_verdict? (hs : ∀ p ∈ proposals, p.item.subscription = c.item.subscription)
    (h : c.verdict? proposals = .ok v) :
    v.Fits c ∧ ∀ p ∈ v.proposal?, p ∈ proposals ∧ p.matched = false := by
  rw [verdict?, bind_eq_ok_iff] at h
  obtain ⟨l, hl, h⟩ := h
  have hcandidate : ∀ {p}, p ∈ l → p.SameCause c ∧ p ∈ proposals ∧ p.matched = false := by
    intro p hp
    obtain ⟨hmem, hopen, hcause⟩ := mem_candidates? hl hp
    exact ⟨hcause (hs p hmem), hmem, hopen⟩
  rw [bind_eq_ok_iff] at h
  obtain ⟨r, hr, h⟩ := h
  cases r with
  | some p =>
    obtain rfl : Verdict.kept p = v := by simpa [pure, Except.pure] using h
    obtain ⟨hmem, hp⟩ := findM?_eq_some hr
    obtain ⟨hcause, hopen⟩ := hcandidate hmem
    exact ⟨terms_eq_of_sameExtent? hcause hp, fun q hq => by cases hq; exact hopen⟩
  | none =>
    dsimp only at h
    split at h
    case isTrue hk =>
      rw [bind_eq_ok_iff] at h
      obtain ⟨r, hr, h⟩ := h
      cases r with
      | some p =>
        obtain rfl : Verdict.shortened p = v := by simpa [pure, Except.pure] using h
        obtain ⟨hmem, hp⟩ := findM?_eq_some hr
        obtain ⟨hcause, hopen⟩ := hcandidate hmem
        obtain ⟨hle, hdays⟩ := isPartOf?_eq_true hp
        exact ⟨⟨hcause, hk, hle, hdays⟩, fun q hq => by cases hq; exact hopen⟩
      | none =>
        obtain rfl : Verdict.cancelled = v := by simpa [pure, Except.pure] using h
        exact ⟨trivial, fun q hq => by cases hq⟩
    case isFalse =>
      obtain rfl : Verdict.cancelled = v := by simpa [pure, Except.pure] using h
      exact ⟨trivial, fun q hq => by cases hq⟩

/-! ## Verdicts that are certain to be given -/

/-- Whether a charge can be compared with others: its amount is a number, its price no signal. -/
def Comparable (c : Charge) : Prop :=
  c.amount.amount.isFinite ∧ ∀ r ∈ c.item.rate, r.isSignaling = false

instance (c : Charge) : Decidable c.Comparable :=
  inferInstanceAs (Decidable (_ ∧ ∀ r ∈ c.item.rate, r.isSignaling = false))

theorem sameTerms?_isOk (hc : c.Comparable) (hp : p.Comparable) : ∃ b, sameTerms? c p = .ok b := by
  unfold sameTerms?
  split
  · exact equalPrices?_isOk hc.2 hp.2
  · exact ⟨false, rfl⟩

theorem sameExtent?_isOk (hp : p.Comparable) (hc : c.Comparable) :
    ∃ b, sameExtent? p c = .ok b := by
  unfold sameExtent? Money.equal?
  split
  · rw [Decimal.equal?_eq hp.1 hc.1]
    split <;> exact ⟨_, rfl⟩
  · exact ⟨false, rfl⟩

theorem isPartOf?_isOk (hp : p.Comparable) (hc : c.Comparable) : ∃ b, isPartOf? p c = .ok b := by
  unfold isPartOf?
  split
  · split
    · exact ⟨_, Decimal.le?_eq hp.1 hc.1⟩
    · exact ⟨false, rfl⟩
  · exact ⟨false, rfl⟩

theorem candidates?_isOk (hc : c.Comparable) (hp : ∀ p ∈ proposals, p.Comparable) :
    ∃ l, c.candidates? proposals = .ok l := by
  unfold candidates?
  exact ⟨_, filterM_isOk fun p hmem => sameTerms?_isOk hc (hp p (List.mem_of_mem_filter hmem))⟩

theorem verdict?_isOk (hc : c.Comparable) (hp : ∀ p ∈ proposals, p.Comparable) :
    ∃ v, c.verdict? proposals = .ok v := by
  obtain ⟨l, hl⟩ := candidates?_isOk hc hp
  have hmem : ∀ p ∈ l, p.Comparable := fun p h => hp p (mem_candidates? hl h).1
  obtain ⟨r, hr⟩ := findM?_isOk fun p h => sameExtent?_isOk (hmem p h) hc
  obtain ⟨r', hr'⟩ := findM?_isOk fun p h => isPartOf?_isOk (hmem p h) hc
  unfold verdict?
  simp only [hl, hr, hr', bind, Except.bind, pure, Except.pure]
  cases r with
  | some p => exact ⟨_, rfl⟩
  | none =>
    dsimp only
    split
    · cases r' <;> exact ⟨_, rfl⟩
    · exact ⟨_, rfl⟩

theorem kept_of_verdict? (hf : c.amount.amount.isFinite)
    (hrate : ∀ r ∈ c.item.rate, r.equalsItself) (hmem : p ∈ proposals) (hopen : p.matched = false)
    (hterms : p.terms = c.terms) (h : c.verdict? proposals = .ok v) : ∃ q, v = .kept q := by
  obtain ⟨l, hl, h⟩ := bind_eq_ok_iff.1 h
  have hsame : sameTerms? c p = .ok true := by
    have hplan : c.item.plan = p.item.plan := (congrArg Terms.plan hterms).symm
    have hphase : c.item.phase = p.item.phase := (congrArg Terms.phase hterms).symm
    rw [sameTerms?, if_pos ⟨hplan, hphase⟩]
    exact equalPrices?_of_worth_eq hrate (congrArg Terms.rate hterms).symm
  have hpl : p ∈ l := by
    rw [candidates?] at hl
    rw [filterM_eq_ok hl, List.mem_filter, List.mem_filter]
    have hkind : p.item.kind = c.item.kind := congrArg Terms.kind hterms
    have hstart : p.item.start = c.item.start := congrArg Terms.start hterms
    exact ⟨⟨hmem, by simp [hkind, hstart, hopen]⟩, holds_iff.2 hsame⟩
  have hextent : sameExtent? p c = .ok true := by
    have hfinish : p.finish = c.finish := congrArg Terms.finish hterms
    have hcurrency : p.amount.currency = c.amount.currency := congrArg Terms.currency hterms
    have hworth : p.amount.amount.worth = c.amount.amount.worth := congrArg Terms.amount hterms
    have hpf := (Decimal.finite_of_worth (hworth.trans (Decimal.worth_eq_inl hf))).1
    have hequal := Decimal.equal?_of_worth_eq (Decimal.equalsItself_of_isFinite hpf) hworth
    rw [sameExtent?, if_pos hfinish, Money.equal?, hequal]
    simp [hcurrency]
  obtain ⟨o, ho, h⟩ := bind_eq_ok_iff.1 h
  cases o with
  | some q => exact ⟨q, (Except.ok.inj h).symm⟩
  | none => simpa [hextent] using findM?_eq_none ho p hpl

theorem verdict?_kept (hc : c.Comparable) (hrate : ∀ r ∈ c.item.rate, r.isFinite)
    (hp : ∀ p ∈ proposals, p.Comparable) (hmem : p ∈ proposals) (hopen : p.matched = false)
    (hterms : p.terms = c.terms) : ∃ q, c.verdict? proposals = .ok (.kept q) := by
  obtain ⟨v, hv⟩ := verdict?_isOk hc hp
  obtain ⟨q, rfl⟩ := kept_of_verdict? hc.1 (fun r hr => Decimal.equalsItself_of_isFinite (hrate r hr))
    hmem hopen hterms hv
  exact ⟨q, hv⟩

end Charge

end Invoicing
