import Invoicing.Proofs.Decimal.Residue
import Invoicing.Proofs.Outcome
import Invoicing.Money

/-!
# Sums of money

`Money.Counts` says of an amount how many units it is. Amounts of one currency and one unit are
added and taken back exactly, as long as the digits of the working precision hold the number of
units; minor units are such units (`admits_places`).
-/

namespace Invoicing

theorem Currency.places_le (c : Currency) : c.places ≤ 3 := by cases c <;> decide

theorem admits_places (c : Currency) : working.Admits (-c.places) := by
  have h := c.places_le
  have hleast : working.least = -1000026 := rfl
  exact ⟨by decide, by omega, by change -(c.places : Int) + 28 - 1 ≤ 999999; omega⟩

namespace Money

/-- Whether an amount is `n` units `10 ^ u`. -/
def Counts (m : Money) (u n : Int) : Prop := m.amount.Counts u n

variable {m m' : Money} {u k n : Int}

theorem Counts.isFinite (h : m.Counts u n) : m.amount.isFinite := h.1

theorem Counts.toRat_eq (h : m.Counts u n) : m.amount.toRat = n * 10 ^ u := h.2

/-! ## Results taken apart -/

section

variable {s : Money}

theorem add_eq_ok (h : m.add m' = .ok s) :
    ∃ d, Decimal.add working m.amount m'.amount = .ok d ∧ s = ⟨d, m.currency⟩ := by
  unfold add at h
  split at h
  · obtain ⟨d, hd, rfl⟩ := map_eq_ok_iff.1 h
    exact ⟨d, mapError_eq_ok_iff.1 hd, rfl⟩
  · cases h

theorem sub_eq_ok (h : m.sub m' = .ok s) : m.currency = m'.currency ∧
    ∃ d, Decimal.sub working m.amount m'.amount = .ok d ∧ s = ⟨d, m.currency⟩ := by
  unfold sub at h
  split at h
  case isTrue hc =>
    obtain ⟨d, hd, rfl⟩ := map_eq_ok_iff.1 h
    exact ⟨hc, d, mapError_eq_ok_iff.1 hd, rfl⟩
  case isFalse => cases h

theorem neg_eq_ok (h : m.neg = .ok s) :
    ∃ d, Decimal.neg working m.amount = .ok d ∧ s = ⟨d, m.currency⟩ := by
  obtain ⟨d, hd, rfl⟩ := map_eq_ok_iff.1 h
  exact ⟨d, mapError_eq_ok_iff.1 hd, rfl⟩

theorem currency_of_add (h : m.add m' = .ok s) : s.currency = m.currency := by
  obtain ⟨d, -, rfl⟩ := add_eq_ok h
  rfl

theorem currency_of_sub (h : m.sub m' = .ok s) :
    m.currency = m'.currency ∧ s.currency = m.currency := by
  obtain ⟨hc, d, -, rfl⟩ := sub_eq_ok h
  exact ⟨hc, rfl⟩

end

/-! ## Exact results -/

theorem add_counts (hu : working.Admits u) (hc : m.currency = m'.currency) (hm : m.Counts u k)
    (hm' : m'.Counts u n) (hk : k.natAbs < 10 ^ working.digits)
    (hn : n.natAbs < 10 ^ working.digits)
    (hkn : (k + n).natAbs < 10 ^ working.digits) :
    ∃ s, m.add m' = .ok s ∧ s.currency = m.currency ∧ s.Counts u (k + n) := by
  obtain ⟨d, hd, hcounts⟩ := Decimal.add_counts hu hm hm' hk hn hkn
  exact ⟨⟨d, m.currency⟩, by rw [add, if_pos hc, hd]; rfl, rfl, hcounts⟩

theorem sub_counts (hu : working.Admits u) (hc : m.currency = m'.currency) (hm : m.Counts u k)
    (hm' : m'.Counts u n) (hk : k.natAbs < 10 ^ working.digits)
    (hn : n.natAbs < 10 ^ working.digits)
    (hkn : (k - n).natAbs < 10 ^ working.digits) :
    ∃ s, m.sub m' = .ok s ∧ s.currency = m.currency ∧ s.Counts u (k - n) := by
  obtain ⟨d, hd, hcounts⟩ := Decimal.sub_counts hu hm hm' hk hn hkn
  exact ⟨⟨d, m.currency⟩, by rw [sub, if_pos hc, hd]; rfl, rfl, hcounts⟩

theorem neg_counts (hu : working.Admits u) (hm : m.Counts u k)
    (hk : k.natAbs < 10 ^ working.digits) :
    ∃ s, m.neg = .ok s ∧ s.currency = m.currency ∧ s.Counts u (-k) := by
  obtain ⟨d, hd, hcounts⟩ := Decimal.neg_counts hu hm hk
  exact ⟨⟨d, m.currency⟩, by rw [neg, hd]; rfl, rfl, hcounts⟩

theorem add_neg_isOk (hf : m.amount.isFinite) (h : m.neg = .ok m') :
    ∃ s, m.add m' = .ok s ∧ s.currency = m.currency ∧ s.amount.isFinite := by
  obtain ⟨d, hd, rfl⟩ := neg_eq_ok h
  obtain ⟨s, hs, hfin⟩ := Decimal.add_neg_isOk hf (by decide) (by decide) hd
  exact ⟨⟨s, m.currency⟩, by rw [add, if_pos rfl, hs]; rfl, rfl, hfin⟩

/-- Whether an amount is a number of units within the digits of the working precision, so that it
can be calculated with exactly. -/
def IsExact (m : Money) : Prop :=
  ∃ u n, working.Admits u ∧ m.Counts u n ∧ n.natAbs < 10 ^ working.digits

theorem isExact_of_digits {s : Bool} {c : Nat} {e : Int} {currency : Currency}
    (hc : digitCount c ≤ working.digits) (he : working.least ≤ e)
    (hl : Decimal.leading c e ≤ working.maxLeading) :
    IsExact ⟨.finite s c e, currency⟩ := by
  have hdigits : working.digits = 28 := rfl
  have hleast : working.least = -1000026 := rfl
  have hmax : working.maxLeading = 999999 := rfl
  rw [hdigits] at hc
  rw [hleast] at he
  unfold Decimal.leading at hl
  rw [hmax] at hl
  -- The unit is the last place that as many digits as possible leave.
  obtain ⟨u, hu⟩ : ∃ u : Int, u = max (-1000026) (e + digitCount c - 28) := ⟨_, rfl⟩
  obtain ⟨k, hk⟩ : ∃ k : Nat, k = c * 10 ^ (e - u).toNat := ⟨_, rfl⟩
  have hlt : k < 10 ^ 28 := by
    calc k < 10 ^ digitCount c * 10 ^ (e - u).toNat :=
          hk ▸ Nat.mul_lt_mul_of_pos_right (lt_pow_digitCount c) (by positivity)
      _ = 10 ^ (digitCount c + (e - u).toNat) := by rw [pow_add]
      _ ≤ 10 ^ 28 := Nat.pow_le_pow_right (by decide) (by omega)
  have hmag : Decimal.magnitude c e = k * 10 ^ u := by
    have hexp : u + ((e - u).toNat : Int) = e := by omega
    rw [← hexp, ← Decimal.magnitude_shift, ← hk]
    rfl
  refine ⟨u, if s then -(k : Int) else k,
    ⟨by decide, by omega, by rw [hdigits, hmax]; push_cast; omega⟩, ⟨rfl, ?_⟩, ?_⟩
  · cases s <;> simp [Decimal.toRat, hmag]
  · cases s <;> simpa [hdigits] using hlt

theorem IsExact.cancel (h : m.IsExact) : ∃ r s, m.neg = .ok r ∧ r.currency = m.currency ∧
    r.amount.isFinite ∧ r.amount.toRat = -m.amount.toRat ∧
    m.add r = .ok s ∧ s.currency = m.currency ∧ s.amount.isFinite ∧ s.amount.toRat = 0 := by
  obtain ⟨u, n, hu, hm, hn⟩ := h
  obtain ⟨r, hr, hrc, hrn⟩ := neg_counts hu hm hn
  obtain ⟨s, hs, hsc, hsn⟩ := add_counts hu hrc.symm hm hrn hn (by simpa using hn)
    (by rw [Int.add_right_neg]; decide)
  refine ⟨r, s, hr, hrc, hrn.isFinite, ?_, hs, hsc, hsn.isFinite, ?_⟩
  · rw [hrn.toRat_eq, hm.toRat_eq]; push_cast; ring
  · rw [hsn.toRat_eq]; simp

end Money

end Invoicing
