import Invoicing.Proofs.Calendar.Order
import Invoicing.Proofs.Decimal.Sign
import Invoicing.Proofs.Money
import Invoicing.Proofs.Reconciliation.Posting

/-!
# Charges with one repair more

`Charge.Fair` is what amounts keep to: a charge in force amounts to nothing negative, and a
recurring one to whole minor units, of which none are left once it is out of force. Repairs that
settle such a charge can be made (`Fair.repair_isOk`), and leave the charge fair: shortened, it
stands as the shorter proposal (`Fair.revise_shortened`), cancelled, it is out of force
(`Fair.revise_cancelled`).
-/

namespace Invoicing

namespace Charge

/-! ## Standing after a repair -/

theorem sum_append {m s t : Money} {rs : List Item} {r : Item} (h : Invoice.sum m rs = .ok s)
    (ha : s.add r.amount = .ok t) : Invoice.sum m (rs ++ [r]) = .ok t := by
  induction rs generalizing m with
  | nil =>
    obtain rfl : m = s := by simpa [Invoice.sum] using h
    simp [Invoice.sum, ha]
  | cons i rs ih =>
    simp only [Invoice.sum, List.cons_append] at h ⊢
    cases hi : m.add i.amount with
    | error f => simp [hi] at h
    | ok n =>
      simp only [hi] at h
      exact ih h

theorem earliest_append (d : Date) (ds : List Date) (e : Date) :
    earliest d (ds ++ [e]) = if e < earliest d ds then e else earliest d ds := by
  induction ds generalizing d with
  | nil => rfl
  | cons x ds ih => exact ih _

theorem finishAfter_recurring {i : Item} {d : Date} (hk : i.kind = .recurring)
    (hf : i.finish = some d) (rs : List Item) :
    finishAfter i rs = .ok (some (earliest d (rs.map (·.start)))) := by
  unfold finishAfter
  cases rs with
  | nil => simp [hf, earliest]
  | cons r rs => simp [hk, hf]

theorem finishAfter_fixed {i : Item} (hk : i.kind = .fixed) (rs : List Item) (r : Item) :
    finishAfter i (rs ++ [r]) = .ok (some i.start) := by
  unfold finishAfter
  simp [hk]

variable {c : Charge} {rs : List Item} {r : Item} {m : Money}

theorem finish_of_isActive (hactive : c.isActive) (hk : c.item.kind = .recurring) :
    ∃ e, c.finish = some e ∧ c.item.start < e := by
  simpa [isActive, hk, Option.any_eq_true] using hactive

theorem issued_append_recurring {e : Date} (hc : issued c.handle c.item rs = .ok c)
    (hk : c.item.kind = .recurring) (he : c.finish = some e) (ha : c.amount.add r.amount = .ok m)
    (k : Nat) : issued k c.item (rs ++ [r]) =
      .ok ⟨k, c.item, some (if r.start < e then r.start else e), m, false⟩ := by
  obtain ⟨-, -, -, hf, hs⟩ := issued_parts hc
  obtain ⟨d, hd, -⟩ := Item.finish_of_recurring hk
  refine issued_of_parts k ?_ (sum_append hs ha)
  rw [finishAfter_recurring hk hd] at hf ⊢
  obtain rfl : earliest d (rs.map (·.start)) = e := by
    rw [he] at hf; simpa using hf
  rw [List.map_append, List.map_singleton, earliest_append]

theorem issued_append_fixed (hc : issued c.handle c.item rs = .ok c) (hk : c.item.kind = .fixed)
    (ha : c.amount.add r.amount = .ok m) (k : Nat) :
    issued k c.item (rs ++ [r]) = .ok ⟨k, c.item, some c.item.start, m, false⟩ := by
  obtain ⟨-, -, -, -, hs⟩ := issued_parts hc
  exact issued_of_parts k (finishAfter_fixed hk rs r) (sum_append hs ha)

/-! ## Fair charges -/

/-- What amounts keep to. -/
structure Fair (currency : Currency) (c : Charge) : Prop where
  comparable : c.Comparable
  currency_eq : c.amount.currency = currency
  charge : c.item.kind = .fixed ∨ c.item.kind = .recurring
  nonneg : c.isActive → 0 ≤ c.amount.amount.toRat
  whole : c.item.kind = .recurring → ∃ n : Nat, n < 10 ^ working.digits ∧
    c.amount.Counts (-currency.places) n ∧ (c.isActive = false → n = 0)

variable {currency : Currency} {p : Charge} {ids : Nat → Id}

theorem Fair.with_handle (h : c.Fair currency) (k : Nat) :
    ({ c with handle := k } : Charge).Fair currency :=
  ⟨h.comparable, h.currency_eq, h.charge, h.nonneg, h.whole⟩

theorem toRat_of_counts {m : Money} {u : Int} {n : Nat} (h : m.Counts u n) :
    0 ≤ m.amount.toRat := by
  rw [h.toRat_eq]; positivity

theorem Fair.sub_shorter (hc : c.Fair currency) (hp : p.Fair currency)
    (hv : (Verdict.shortened p).Fits c) : ∃ m s, p.amount.sub c.amount = .ok m ∧
      Decimal.lt? .zero m.amount = .ok false ∧ c.amount.add m = .ok s ∧
      s.currency = currency ∧ s.amount.isFinite ∧ s.amount.toRat = p.amount.amount.toRat ∧
      m.amount.toRat = p.amount.amount.toRat - c.amount.amount.toRat ∧
      ∃ n : Nat, n < 10 ^ working.digits ∧ s.Counts (-currency.places) n := by
  obtain ⟨hcause, hk, hle, -⟩ := hv
  obtain ⟨n, hn, hcn, -⟩ := hc.whole hk
  obtain ⟨n', hn', hpn, -⟩ := hp.whole (hcause.2.1.trans hk)
  have hu := admits_places currency
  rw [Decimal.le?_eq hpn.isFinite hcn.isFinite, hpn.toRat_eq, hcn.toRat_eq] at hle
  have hnn : n' ≤ n := by simpa using hle
  obtain ⟨m, hm, hmc, hmn⟩ := Money.sub_counts hu (hp.currency_eq.trans hc.currency_eq.symm) hpn hcn
    (by simpa using hn') (by simpa using hn) (by omega)
  obtain ⟨s, hs, hsc, hsn⟩ := Money.add_counts hu
    (by rw [hmc, hp.currency_eq, hc.currency_eq]) hcn hmn (by simpa using hn) (by omega) (by omega)
  have hsn : s.Counts (-currency.places) n' := by
    have : (n : Int) + (n' - n) = n' := by omega
    rwa [this] at hsn
  refine ⟨m, s, hm, Decimal.lt?_zero_of_counts hmn (by omega), hs, by rw [hsc, hc.currency_eq],
    hsn.isFinite, ?_, ?_, n', hn', hsn⟩
  · rw [hsn.toRat_eq, hpn.toRat_eq]
  · rw [hmn.toRat_eq, hpn.toRat_eq, hcn.toRat_eq]; push_cast; ring

theorem Fair.isExact (hc : c.Fair currency) (hk : c.item.kind = .recurring) : c.amount.IsExact := by
  obtain ⟨n, hn, hcn, -⟩ := hc.whole hk
  exact ⟨_, _, admits_places currency, hcn, by simpa using hn⟩

theorem Fair.repair_isOk (hc : c.Fair currency) (hactive : c.isActive)
    (hexact : c.item.kind = .fixed → c.amount.IsExact) {v : Verdict} (hv : v.Fits c)
    (hp : ∀ p ∈ v.proposal?, p.Fair currency) (id : Id) : ∃ r, c.repair id v = .ok r := by
  cases v with
  | kept p => exact ⟨none, rfl⟩
  | shortened p =>
    obtain ⟨m, -, hm, hle, -⟩ := hc.sub_shorter (hp p rfl) hv
    obtain ⟨r, hr⟩ := Item.repair_isOk c.item id (p.finish.getD c.item.start) c.finish none hle
    exact ⟨some r, by simp [repair, hm, hr, bind, Except.bind, pure, Except.pure]⟩
  | cancelled =>
    have hex : c.amount.IsExact := hc.charge.elim hexact hc.isExact
    obtain ⟨m, -, hm, -⟩ := hex.cancel
    obtain ⟨d, hd, rfl⟩ := map_eq_ok_iff.1 hm
    have hle : Decimal.lt? .zero (⟨d, c.amount.currency⟩ : Money).amount = .ok false :=
      Decimal.lt?_zero_neg hc.comparable.1 (hc.nonneg hactive) (mapError_eq_ok_iff.1 hd)
    obtain ⟨r, hr⟩ := Item.repair_isOk c.item id c.item.start
      (if c.item.finish.isSome then c.finish else none) none hle
    exact ⟨some r, by simp [repair, hm, hr, bind, Except.bind, pure, Except.pure]⟩

/-- What a charge stands like after it was settled. -/
structure Revised (currency : Currency) (c : Charge) (rs : List Item) (settled : Option Charge)
    (c' : Charge) : Prop where
  fair : c'.Fair currency
  terms : (if c'.isActive then some c'.terms else none) = settled.map Charge.terms
  exact_ : c.amount.IsExact →
    c'.amount.amount.toRat = c.amount.amount.toRat + (rs.map (·.amount.amount.toRat)).sum ∧
    (c'.isActive = false → c'.amount.amount.toRat = 0) ∧ (c'.isActive → c'.amount.IsExact)

theorem Fair.revise_kept (hc : c.Fair currency) (hactive : c.isActive)
    (hv : (Verdict.kept p).Fits c) (k : Nat) :
    Revised currency c [] (some p) { c with handle := k } where
  fair := hc.with_handle k
  terms := by
    have hterms : p.terms = c.terms := hv
    have hk : ({ c with handle := k } : Charge).isActive = true := hactive
    rw [hk, if_pos rfl, Option.map_some, hterms]
    rfl
  exact_ := fun hex => ⟨by simp, fun h => by
    rw [show ({ c with handle := k } : Charge).isActive = c.isActive from rfl, hactive] at h
    simp at h, fun _ => hex⟩

/-- A shortened charge stands as the proposal that it was settled with. -/
theorem Fair.revise_shortened (hc : c.Fair currency) (hstand : issued c.handle c.item rs = .ok c)
    (hv : (Verdict.shortened p).Fits c) (hp : p.Fair currency) (hactive : p.isActive) {id : Id}
    {o : Option Item} (ho : c.repair id (.shortened p) = .ok o) (k : Nat) :
    ∃ c', issued k c.item (rs ++ o.toList) = .ok c' ∧ Revised currency c o.toList (some p) c' := by
  obtain ⟨m, s, hm, -, hs, hsc, hsf, hsr, hmr, n, hn, hsn⟩ := hc.sub_shorter hp hv
  obtain ⟨hcause, hk, -, d, e, hd, he, hlt⟩ := hv
  obtain ⟨m', r, hm', hr, rfl⟩ := repair_shortened ho
  obtain rfl : m = m' := Except.ok.inj (hm.symm.trans hm')
  obtain ⟨-, -, -, hstart, rfl⟩ := Item.repair_parts hr
  have hstand' := issued_append_recurring hstand hk he hs k
  rw [hstart, hd, Option.getD_some, if_pos hlt] at hstand'
  have hdays : c.item.start < d := by
    have : p.item.kind ≠ .fixed := by rw [hcause.2.1, hk]; decide
    simpa [isActive, this, hd, hcause.2.2.2.2.2] using hactive
  have hforce : (⟨k, c.item, some d, s, false⟩ : Charge).isActive = true := by
    simp [isActive, hk, hdays]
  refine ⟨_, hstand', ⟨⟨hsf, hc.comparable.2⟩, hsc, .inr hk, fun _ => hsr ▸ ?_,
    fun _ => ?_⟩, ?_, ?_⟩
  · exact hp.nonneg hactive
  · exact ⟨n, hn, hsn, fun h => by rw [hforce] at h; simp at h⟩
  · rw [if_pos hforce]
    refine congrArg some (Eq.symm (SameCause.terms_eq hcause hd ?_ (hp.currency_eq.trans hsc.symm)))
    rw [Decimal.worth_eq_inl hp.comparable.1, Decimal.worth_eq_inl hsf, hsr]
  · intro _
    refine ⟨?_, fun h => by rw [hforce] at h; simp at h, fun _ => ?_⟩
    · simp [hsr, hmr]
    · exact ⟨_, _, admits_places currency, hsn, by simpa using hn⟩

theorem Fair.revise_cancelled (hc : c.Fair currency) (hactive : c.isActive)
    (hstand : issued c.handle c.item rs = .ok c) {id : Id} {o : Option Item}
    (ho : c.repair id .cancelled = .ok o) (k : Nat) :
    ∃ c', issued k c.item (rs ++ o.toList) = .ok c' ∧ Revised currency c o.toList none c' := by
  obtain ⟨m, r, hm, hr, rfl⟩ := repair_cancelled ho
  obtain ⟨-, -, -, hstart, rfl⟩ := Item.repair_parts hr
  -- The sum is zero if the amount is exact, and in any case there is one.
  obtain ⟨s, hs, hsc, hsf, hzero⟩ : ∃ s, c.amount.add r.amount = .ok s ∧ s.currency = currency ∧
      s.amount.isFinite ∧ (c.amount.IsExact → s.amount.toRat = 0 ∧
        r.amount.amount.toRat = -c.amount.amount.toRat) := by
    obtain ⟨s, hs, hsc, hsf⟩ := Money.add_neg_isOk hc.comparable.1 hm
    refine ⟨s, hs, hsc.trans hc.currency_eq, hsf, fun hex => ?_⟩
    obtain ⟨m', s', hm', -, -, hneg, hs', -, -, hz⟩ := hex.cancel
    obtain rfl : r.amount = m' := by rw [hm] at hm'; simpa using hm'
    obtain rfl : s = s' := by rw [hs] at hs'; simpa using hs'
    exact ⟨hz, hneg⟩
  have hdone : ∀ c' : Charge, c'.item = c.item → c'.amount = s → c'.isActive = false →
      (c.item.kind = .recurring → s.amount.toRat = 0) → Revised currency c [r] none c' := by
    intro c' hitem hamount hout hz
    refine ⟨⟨⟨by rw [hamount]; exact hsf, by rw [hitem]; exact hc.comparable.2⟩,
      by rw [hamount, hsc],
      by rw [hitem]; exact hc.charge, fun h => by rw [hout] at h; simp at h, fun hk => ?_⟩, ?_, ?_⟩
    · refine ⟨0, by positivity, ⟨by rw [hamount]; exact hsf, ?_⟩, fun _ => rfl⟩
      rw [hamount, hz (hitem ▸ hk)]; simp
    · simp [hout]
    · intro hex
      obtain ⟨hz, hneg⟩ := hzero hex
      exact ⟨by rw [hamount, hz]; simp [hneg], fun _ => by rw [hamount, hz],
        fun h => by rw [hout] at h; simp at h⟩
  rcases hc.charge with hk | hk
  · have hstand' := issued_append_fixed hstand hk hs k
    exact ⟨_, hstand', hdone _ rfl rfl (by simp [isActive, hk]) (by rw [hk]; simp)⟩
  · obtain ⟨e, he, hlt⟩ := finish_of_isActive hactive hk
    have hstand' := issued_append_recurring hstand hk he hs k
    refine ⟨_, hstand', hdone _ rfl rfl ?_ fun _ => (hzero (hc.isExact hk)).1⟩
    rw [hstart, if_pos hlt]
    simp [isActive, hk]

theorem Fair.revise (hc : c.Fair currency) (hactive : c.isActive)
    (hstand : issued c.handle c.item rs = .ok c) {v : Verdict} (hv : v.Fits c)
    (hp : ∀ p ∈ v.proposal?, p.Fair currency ∧ p.isActive) {id : Id} {o : Option Item}
    (ho : c.repair id v = .ok o) (k : Nat) :
    ∃ c', issued k c.item (rs ++ o.toList) = .ok c' ∧
      Revised currency c o.toList v.proposal? c' := by
  cases v with
  | kept p =>
    obtain rfl : none = o := by simpa [repair] using ho
    refine ⟨_, ?_, hc.revise_kept hactive hv k⟩
    simpa using issued_handle k hstand
  | shortened p => exact hc.revise_shortened hstand hv (hp p rfl).1 (hp p rfl).2 ho k
  | cancelled => exact hc.revise_cancelled hactive hstand ho k

end Charge

namespace Posting

variable {Good : List Item → Charge → Prop} {items proposed : List Item} {pinned : List Id}
  {ids : Nat → Id} {issued rest : List Charge} {vs : List (Charge × Verdict)} {r : Reconciliation}
  {currency : Currency}

theorem standAfter (post : Posting Good items proposed pinned ids issued rest vs r)
    (hp : Admissible Good items proposed pinned) (hfair : ∀ rs c, Good rs c → c.Fair currency)
    (hkeep : ∀ rs c, Good rs c → c.isActive → ∀ rs' settled c', c'.item = c.item →
      Charge.Revised currency c rs' settled c' → Good (rs ++ rs') c') :
    StandAfter Good items ids vs := by
  intro x hx k
  obtain ⟨hmem, hactive⟩ := post.mem_issued hx
  obtain ⟨hstand, hgood⟩ := post.stands _ hmem
  obtain ⟨o, ho⟩ := post.settles.made x hx
  have hrepairs : repairsFor ids x = o.toList := by simp [repairsFor, ho]
  have hproposal : ∀ p ∈ x.2.proposal?, p.Fair currency ∧ p.isActive := by
    intro p hpx
    obtain ⟨hitem, hpe⟩ := proposals_eq_of_mem (post.mem_proposals hx hpx)
    rw [hpe]
    exact ⟨hfair _ _ (hp.good _ hitem _),
      isActive_proposed (hp.unpinned _ hitem) (hp.charges _ hitem) _⟩
  obtain ⟨c', hc', hrev⟩ := (hfair _ _ hgood).revise hactive hstand (post.settles.fits x hx)
    hproposal ho k
  rw [hrepairs]
  exact ⟨c', hc', hkeep _ _ hgood hactive _ _ c' (Charge.issued_parts hc').2.1 hrev, hrev.terms⟩

end Posting

end Invoicing
