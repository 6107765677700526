import Invoicing.Clock
import Invoicing.Proofs.Reconciliation.Revision
import Mathlib.Algebra.BigOperators.Group.List.Lemmas
import Mathlib.Algebra.Order.BigOperators.Group.List

/-!
# Conservation

Over any history of reconciliations, each with all items issued before, what is issued to a
subscription sums up to what is proposed last. The invariant is `Kept`: a charge and its repairs sum
up to what is left of the charge, which is nothing once the charge is out of force. So the sum over
all items is that over the terms in force (`Books.total_eq`), and these are the proposals
(`Posting.terms_perm`).
-/

namespace Invoicing

/-- The exact sum of what some items of a subscription amount to. -/
def total (subscription : Id) (items : List Item) : ℚ :=
  ((items.filter (·.subscription = some subscription)).map (·.amount.amount.toRat)).sum

/-- What some terms amount to. -/
def Terms.value (t : Terms) : ℚ := t.amount.elim id fun _ => 0

/-- What is demanded of a charge with its repairs for the books to balance. -/
structure Kept (currency : Currency) (repairs : List Item) (c : Charge) : Prop where
  fair : c.Fair currency
  exact_ : c.isActive → c.amount.IsExact
  balance : c.item.amount.amount.toRat + (repairs.map (·.amount.amount.toRat)).sum =
    c.amount.amount.toRat
  settled : c.isActive = false → c.amount.amount.toRat = 0

namespace Books

variable {currency : Currency} {items : List Item}

theorem flatMap_repairsIn_perm {Good : List Item → Charge → Prop} (hb : Books Good items)
    (s : Option Id) :
    (((chargesOf items).filter (·.subscription = s)).flatMap (·.repairsIn items)).Perm
      ((items.filter (·.kind = .repair)).filter (·.subscription = s)) := by
  set charges := (chargesOf items).filter (·.subscription = s)
  set repairs := (items.filter (·.kind = .repair)).filter (·.subscription = s)
  have hparts : charges.flatMap (·.repairsIn items) =
      (charges.map fun i => some i.id).flatMap fun id => repairs.filter (·.linked = id) := by
    rw [List.flatMap_map]
    refine List.flatMap_congr fun i hi => ?_
    obtain ⟨hi, hs⟩ := List.mem_filter.1 hi
    rw [List.filter_filter, List.filter_filter]
    refine List.filter_congr fun r hr => ?_
    by_cases hk : r.kind = .repair ∧ r.linked = some i.id
    · obtain ⟨j, hj, hlink, hsub⟩ := hb.links r hr hk.1
      obtain rfl := List.inj_on_of_nodup_map hb.ids hj hi (by simpa [hk.2] using hlink.symm)
      have : r.subscription = s := hsub.trans (by simpa using hs)
      simp [hk.1, hk.2, this]
    · by_cases hl : r.linked = some i.id
      · simp [hl, show r.kind ≠ .repair from fun h => hk ⟨h, hl⟩]
      · simp [hl]
  rw [hparts]
  refine flatMap_filter_perm (fun r : Item => r.linked) ?_ fun r hr => ?_
  · have : (charges.map fun i => some i.id) = (charges.map (·.id)).map some := by
      rw [List.map_map]; rfl
    rw [this]
    exact ((List.filter_sublist.map _).nodup hb.ids).map (Option.some_injective _)
  · obtain ⟨hr, hs⟩ := List.mem_filter.1 hr
    obtain ⟨hr, hk⟩ := List.mem_filter.1 hr
    obtain ⟨i, hi, hlink, hsub⟩ := hb.links r hr (by simpa using hk)
    rw [hlink]
    refine List.mem_map_of_mem (f := fun i : Item => some i.id) (List.mem_filter.2 ⟨hi, ?_⟩)
    rw [← hsub]; exact hs

/-- What all items of a subscription sum up to is in force. -/
theorem total_eq (hb : Books (Kept currency) items) (s : Id) : total s items =
    (((termsInForce items).filter (·.subscription = some s)).map Terms.value).sum := by
  have hsplit : (items.filter (·.subscription = some s)).Perm
      ((chargesOf items).filter (·.subscription = some s) ++
        ((chargesOf items).filter (·.subscription = some s)).flatMap (·.repairsIn items)) := by
    refine ((List.filter_append_perm (fun i : Item => decide (i.kind ≠ .repair)) items).symm.filter
      _).trans ?_
    rw [List.filter_append]
    refine (hb.flatMap_repairsIn_perm (some s)).symm.append_left _ |> .trans (.of_eq ?_)
    simp [chargesOf]
  rw [total, (hsplit.map _).sum_eq, filter_termsInForce (fun t => decide (t = some s)),
    List.map_append, List.sum_append, List.map_flatMap]
  generalize hcs : (chargesOf items).filter (·.subscription = some s) = charges
  have hmem : ∀ i ∈ charges, i ∈ chargesOf items := fun i hi => by
    rw [← hcs] at hi; exact List.mem_of_mem_filter hi
  clear hcs hsplit
  induction charges with
  | nil => simp
  | cons i charges ih =>
    have ih := ih fun j hj => hmem j (by simp [hj])
    obtain ⟨c, hc, hkept⟩ := hb.stands i (hmem i (by simp)) 0
    obtain ⟨-, rfl, -⟩ := Charge.issued_parts hc
    have hvalue : c.item.amount.amount.toRat +
        ((c.item.repairsIn items).map (·.amount.amount.toRat)).sum =
        ((c.item.inForce? items).toList.map Terms.value).sum := by
      rw [hkept.balance, Item.inForce?_of_issued hc]
      by_cases ha : c.isActive
      · rw [if_pos ha]
        simp [Terms.value, Charge.terms, Decimal.worth_eq_inl hkept.fair.comparable.1]
      · rw [if_neg ha, hkept.settled (by simpa using ha)]
        simp
    have hcons : (c.item :: charges).filterMap (·.inForce? items) =
        (c.item.inForce? items).toList ++ charges.filterMap (·.inForce? items) := by
      cases hf : c.item.inForce? items <;> simp [hf]
    rw [hcons, List.map_append, List.sum_append, ← ih, ← hvalue]
    simp only [List.map_cons, List.sum_cons, List.flatMap_cons, List.sum_append]
    ring

theorem reconciled_isOk {Good : List Item → Charge → Prop} {proposed : List Item} {pinned : List Id}
    {ids : Nat → Id} (hb : Books Good items) (hp : Admissible Good items proposed pinned)
    (hcomparable : ∀ rs c, Good rs c → c.Comparable)
    (hrepair : ∀ rs c, Good rs c → c.isActive → ∀ v : Verdict, v.Fits c →
      (∀ p ∈ v.proposal?, Good [] p) → ∀ id, ∃ r, c.repair id v = .ok r) :
    ∃ r, reconciled ids items proposed pinned = .ok r := by
  obtain ⟨cs, hcs, -, hstands⟩ := hb.issued pinned proposed.length
  have hgood : ∀ p ∈ proposals proposed, Good [] p := fun p h => by
    obtain ⟨hmem, hpe⟩ := proposals_eq_of_mem h
    rw [hpe]
    exact hp.good _ hmem _
  obtain ⟨d, hd⟩ : ∃ d, settleAll ids (ledgers cs (proposals proposed)) = .ok d :=
    settleAll_isOk (fun c hc => hcomparable _ c (hstands c hc).2)
      (fun p h => hcomparable _ p (hgood p h))
    fun c hc ha v hv hm => hrepair _ c (hstands c hc).2 ha v hv (fun p h => hgood p (hm p h)) _
  exact ⟨⟨d, (Holdings.ofItems items pinned).untouched⟩,
    by simp [reconciled, hcs, hd, bind, Except.bind, pure, Except.pure]⟩

end Books

/-! ## Histories -/

/-- What one reconciliation is asked for. -/
structure Round where
  proposed : List Item
  pinned : List Id

/-- Reconciles round after round, each with all items issued before. -/
def reconcileRounds (issued : List Item) : List Round → Run (List Reconciliation)
  | [] => return []
  | round :: rounds => do
    let result ← reconcile issued round.proposed round.pinned
    return result :: (← reconcileRounds (issued ++ result.delta) rounds)

/-- What is assumed of a round: its proposals are charges of subscriptions that are not pinned, in
one currency. Recurring ones amount to whole minor units, fixed ones to an exact amount, and no
price is a signaling mark. -/
structure Round.Proper (currency : Currency) (round : Round) : Prop where
  kind : ∀ p ∈ round.proposed, p.kind = .fixed ∨ p.kind = .recurring
  owned : ∀ p ∈ round.proposed, ∃ s, p.subscription = some s ∧ s ∉ round.pinned
  currency_eq : ∀ p ∈ round.proposed, p.amount.currency = currency
  finite : ∀ p ∈ round.proposed, p.amount.amount.isFinite
  nonneg : ∀ p ∈ round.proposed, 0 ≤ p.amount.amount.toRat
  whole : ∀ p ∈ round.proposed, p.kind = .recurring →
    ∃ n : Nat, n < 10 ^ 28 ∧ p.amount.amount.toRat = n * 10 ^ (-(currency.places : Int))
  exact_ : ∀ p ∈ round.proposed, p.kind = .fixed → p.amount.IsExact
  rate : ∀ p ∈ round.proposed, ∀ d ∈ p.rate, d.isSignaling = false

variable {currency : Currency} {items : List Item} {round : Round}

theorem Round.Proper.kept (h : round.Proper currency) {p : Item} (hp : p ∈ round.proposed)
    (k : Nat) :
    Kept currency [] (.proposed k p) := by
  have hk := h.kind p hp
  have hactive : (Charge.proposed k p).isActive := by
    obtain ⟨s, hs, -⟩ := h.owned p hp
    refine isActive_proposed ?_ ?_ k
    · rcases hk with hk | hk <;> simp [Item.isPinned, hs, hk, ItemKind.isGenerated]
    · rcases hk with hk | hk <;> simp [hk]
  have hfair : (Charge.proposed k p).Fair currency := by
    refine ⟨⟨h.finite p hp, h.rate p hp⟩, h.currency_eq p hp, hk, fun _ => h.nonneg p hp, ?_⟩
    intro hrec
    obtain ⟨n, hn, hval⟩ := h.whole p hp hrec
    exact ⟨n, hn, ⟨h.finite p hp, by exact_mod_cast hval⟩,
      fun ho => by rw [hactive] at ho; simp at ho⟩
  refine ⟨hfair, fun _ => ?_, by simp [Charge.proposed],
    fun ho => by rw [hactive] at ho; simp at ho⟩
  exact hk.elim (h.exact_ p hp) hfair.isExact

theorem Round.Proper.admissible (h : round.Proper currency)
    (hfresh : ((chargesOf items ++ round.proposed).map (·.id)).Nodup) :
    Admissible (Kept currency) items round.proposed round.pinned where
  unpinned p hp := by
    obtain ⟨s, hs, -⟩ := h.owned p hp
    rcases h.kind p hp with hk | hk <;> simp [Item.isPinned, hs, hk, ItemKind.isGenerated]
  charges p hp := by rcases h.kind p hp with hk | hk <;> simp [hk]
  outside p hp := by
    obtain ⟨s, hs, hout⟩ := h.owned p hp
    simp [Item.isOf, hs, hout]
  good p hp := h.kept hp
  fresh := hfresh

theorem Kept.revised {rs rs' : List Item} {c c' : Charge} {settled : Option Charge}
    (h : Kept currency rs c) (hactive : c.isActive) (hitem : c'.item = c.item)
    (hrev : Charge.Revised currency c rs' settled c') : Kept currency (rs ++ rs') c' := by
  obtain ⟨hsum, hout, hin⟩ := hrev.exact_ (h.exact_ hactive)
  refine ⟨hrev.fair, hin, ?_, hout⟩
  rw [hitem, List.map_append, List.sum_append, ← add_assoc, h.balance, hsum]

theorem total_eq_sum_terms {proposed : List Item} (h : ∀ p ∈ proposed, p.amount.amount.isFinite)
    (s : Id) : total s proposed =
    (((proposed.map Item.terms).filter (·.subscription = some s)).map Terms.value).sum := by
  rw [total, List.filter_map, List.map_map]
  refine congrArg List.sum (List.map_congr_left fun p hp => ?_)
  have hf := Decimal.worth_eq_inl (h p (List.mem_of_mem_filter hp))
  simp [Item.terms, Charge.terms, Charge.proposed, Terms.value, hf]

theorem reconcile_step (hb : Books (Kept currency) items) (h : round.Proper currency)
    (hfresh : ((chargesOf items ++ round.proposed).map (·.id)).Nodup) (s : Session) :
    ∃ r s', (reconcile items round.proposed round.pinned).from_ s = (.ok r, s') ∧
      Books (Kept currency) (items ++ r.delta) ∧
      (∀ later : List Item, ((chargesOf items ++ (round.proposed ++ later)).map (·.id)).Nodup →
        ((chargesOf (items ++ r.delta) ++ later).map (·.id)).Nodup) ∧
      (∀ sub ∉ round.pinned, total sub (items ++ r.delta) = total sub round.proposed) ∧
      ∀ i ∈ r.delta, ∀ sub ∈ round.pinned, i.subscription ≠ some sub := by
  have hp := h.admissible hfresh
  obtain ⟨s', hs', -⟩ := reconcile_from items round.proposed round.pinned s
  obtain ⟨r, hr⟩ : ∃ r, reconciled (fun i => .minted (s.minted + i)) items round.proposed
      round.pinned = .ok r := hb.reconciled_isOk hp (fun _ _ hc => hc.fair.comparable)
      fun rs c hc ha v hv hm id =>
      hc.fair.repair_isOk ha (fun _ => hc.exact_ ha) hv (fun p hpv => (hm p hpv).fair) id
  obtain ⟨issued, rest, vs, post⟩ := hb.posting hr
  have hv := post.standAfter hp (fun _ _ hc => hc.fair)
    fun rs c hc ha rs' settled c' hitem hrev => hc.revised ha hitem hrev
  have hbooks := post.books hp hb hv
  refine ⟨r, s', by rw [hs', hr], hbooks, fun later => post.fresh_delta hp, ?_, ?_⟩
  · intro sub hsub
    have hpinned : ((termsInForce items).filter (·.isOf round.pinned)).filter
        (·.subscription = some sub) = [] := by
      refine List.filter_eq_nil_iff.2 fun t ht hs => ?_
      have := List.of_mem_filter ht
      simp only [decide_eq_true_eq] at hs
      simp [Terms.isOf, hs, hsub] at this
    have hperm := (post.terms_perm (hb.apart hp) hp hv).filter (·.subscription = some sub)
    rw [List.filter_append, hpinned, List.nil_append] at hperm
    rw [hbooks.total_eq, (hperm.map Terms.value).sum_eq, total_eq_sum_terms h.finite]
  · intro i hi sub hsub hs
    have := post.delta_outside hp hi
    simp [Item.isOf, hs, hsub] at this

/-- Reconciliations never fail, and after each of them the items issued to a subscription that is
not pinned sum up exactly to what was proposed to it; one that is pinned gets no item. -/
theorem reconcileRounds_conserves {rounds : List Round}
    (hproper : ∀ round ∈ rounds, round.Proper currency)
    (hids : ((rounds.flatMap (·.proposed)).map (·.id)).Nodup) (s : Session) :
    ∃ results s', (reconcileRounds [] rounds).from_ s = (.ok results, s') ∧
      results.length = rounds.length ∧
      ∀ n round result, rounds[n]? = some round → results[n]? = some result →
        (∀ sub ∉ round.pinned,
          total sub ((results.take (n + 1)).flatMap (·.delta)) = total sub round.proposed) ∧
        ∀ i ∈ result.delta, ∀ sub ∈ round.pinned, i.subscription ≠ some sub := by
  -- The induction is on the rounds left, for any books that balance.
  suffices hall : ∀ (items : List Item) (s : Session), Books (Kept currency) items →
      ((chargesOf items ++ rounds.flatMap (·.proposed)).map (·.id)).Nodup →
      ∃ results s', (reconcileRounds items rounds).from_ s = (.ok results, s') ∧
        results.length = rounds.length ∧
        ∀ n round result, rounds[n]? = some round → results[n]? = some result →
          (∀ sub ∉ round.pinned,
            total sub (items ++ (results.take (n + 1)).flatMap (·.delta)) =
              total sub round.proposed) ∧
          ∀ i ∈ result.delta, ∀ sub ∈ round.pinned, i.subscription ≠ some sub by
    simpa using hall [] s Books.nil (by simpa [chargesOf] using hids)
  clear hids s
  induction rounds with
  | nil => exact fun items s _ _ => ⟨[], s, rfl, rfl, by simp⟩
  | cons round rounds ih =>
    intro items s hb hfresh
    rw [List.flatMap_cons] at hfresh
    obtain ⟨r, s₁, h₁, hb₁, hlater, htotal, hpinned⟩ := reconcile_step hb (hproper round (by simp))
      (by rw [← List.append_assoc, List.map_append] at hfresh; exact hfresh.of_append_left) s
    obtain ⟨results, s₂, h₂, hlen, hrest⟩ := ih (fun x hx => hproper x (by simp [hx]))
      (items ++ r.delta) s₁ hb₁ (hlater _ hfresh)
    refine ⟨r :: results, s₂, ?_, by simp [hlen], ?_⟩
    · rw [reconcileRounds, Run.from_bind_ok h₁, Run.from_bind_ok h₂, Run.from_pure]
    · intro n round' result hround hresult
      cases n with
      | zero =>
        obtain rfl : round = round' := by simpa using hround
        obtain rfl : r = result := by simpa using hresult
        exact ⟨fun sub hsub => by simpa using htotal sub hsub, hpinned⟩
      | succ n =>
        have := hrest n round' result (by simpa using hround) (by simpa using hresult)
        simpa [List.append_assoc] using this

/-! ## Fixed histories -/

def january : Date := Clock.firstDay

def february : Date := { january with month := 2, month_mem := by decide, day_mem := by decide }

def march : Date := { january with month := 3, month_mem := by decide, day_mem := by decide }

/-- A recurring charge of a subscription, from January on. -/
def monthlyCharge (id subscription : Nat) (finish : Date) (h : january < finish) (cents : Nat)
    (rate : Decimal) : Item where
  kind := .recurring
  account := .known 0
  start := january
  amount := ⟨.finite false cents (-2), .usd⟩
  subscription := some (.known subscription)
  bundle := none
  plan := some "standard"
  phase := some "evergreen"
  finish := some finish
  rate := some rate
  linked := none
  invoice := none
  id := .known id
  description := ""
  sound := by simp [itemFault?, h]

/-- A fixed charge of a subscription in January. -/
def setupCharge (id subscription : Nat) (amount : Decimal) : Item where
  kind := .fixed
  account := .known 0
  start := january
  amount := ⟨amount, .usd⟩
  subscription := some (.known subscription)
  bundle := none
  plan := some "standard"
  phase := some "evergreen"
  finish := none
  rate := none
  linked := none
  invoice := none
  id := .known id
  description := ""
  sound := rfl

/-- Two months and a setup, then one month only with the setup's subscription pinned. -/
def shortenedRounds : List Round :=
  [⟨[monthlyCharge 10 1 march (by decide) 6000 (.finite false 30 0),
     setupCharge 11 2 (.finite false 5 0)], []⟩,
   ⟨[monthlyCharge 12 1 february (by decide) 3000 (.finite false 30 0)], [.known 2]⟩]

theorem proper_of_mem_shortenedRounds : ∀ round ∈ shortenedRounds, round.Proper .usd := by
  have hwhole : ∀ cents : Nat, Decimal.toRat (.finite false cents (-2)) =
      cents * 10 ^ (-((Currency.places .usd : Nat) : Int)) := fun cents => rfl
  have hnonneg : ∀ (c : Nat) (e : Int), 0 ≤ Decimal.toRat (.finite false c e) := fun c e =>
    Decimal.magnitude_nonneg c e
  intro round hround
  simp only [shortenedRounds, List.mem_cons, List.not_mem_nil, or_false] at hround
  rcases hround with rfl | rfl
  · refine ⟨?_, ?_, ?_, ?_, ?_, ?_, ?_, ?_⟩ <;>
      simp [monthlyCharge, setupCharge, Decimal.isFinite, Decimal.isSignaling, hnonneg]
    · exact ⟨6000, by decide, hwhole 6000⟩
    · exact Money.isExact_of_digits (by decide +kernel) (by decide) (by decide +kernel)
  · refine ⟨?_, ?_, ?_, ?_, ?_, ?_, ?_, ?_⟩ <;>
      simp [monthlyCharge, Decimal.isFinite, Decimal.isSignaling, hnonneg]
    exact ⟨3000, by decide, hwhole 3000⟩

theorem reconcileRounds_conserves_shortened :
    ((∀ round ∈ shortenedRounds, round.Proper .usd) ∧
      ((shortenedRounds.flatMap (·.proposed)).map (·.id)).Nodup) ∧
    ∃ results s', (reconcileRounds [] shortenedRounds).from_ .start = (.ok results, s') ∧
      total (.known 1) (results.flatMap (·.delta)) = 30 := by
  have hids : ((shortenedRounds.flatMap (·.proposed)).map (·.id)).Nodup := by decide
  refine ⟨⟨proper_of_mem_shortenedRounds, hids⟩, ?_⟩
  obtain ⟨results, s', hrun, hlen, hall⟩ :=
    reconcileRounds_conserves proper_of_mem_shortenedRounds hids .start
  refine ⟨results, s', hrun, ?_⟩
  match results, hlen, hall with
  | [a, b], _, hall =>
    have h := (hall 1 _ b rfl rfl).1 (.known 1) (by decide)
    have hmonth : total (.known 1)
        [monthlyCharge 12 1 february (by decide) 3000 (.finite false 30 0)] = 30 := by
      norm_num [total, monthlyCharge, Decimal.toRat, Decimal.magnitude]
    simpa using h.trans hmonth

/-- Digits alone do not make an amount exact. A fixed charge whose exponent is out of range cannot
be taken back: above the range there is no repair, below it the repair takes back nothing. Nor can a
charge be compared whose price is a signaling mark. -/
theorem reconcileRounds_out_of_range :
    (∀ results s',
      (reconcileRounds [] [⟨[setupCharge 10 1 (.finite false 1 1000000)], []⟩, ⟨[], []⟩]).from_
        .start
        ≠ (.ok results, s')) ∧
    ((reconcileRounds [] [⟨[setupCharge 10 1 (.finite false 1 (-1000030))], []⟩, ⟨[], []⟩]).from_
        .start).1.toOption.map (·.flatMap fun r => r.delta.map (·.amount.amount)) =
      some [.finite false 1 (-1000030), .finite true 0 (-1000026)] ∧
    ∀ results s',
      (reconcileRounds []
        [⟨[monthlyCharge 10 1 march (by decide) 6000 (.nan true false 0)], []⟩,
         ⟨[monthlyCharge 11 1 march (by decide) 6000 (.nan true false 0)], []⟩]).from_ .start
        ≠ (.ok results, s') := by
  have hfails : ∀ {rounds : List Round},
      ((reconcileRounds [] rounds).from_ .start).1.toOption.isNone = true →
      ∀ results s', (reconcileRounds [] rounds).from_ .start ≠ (.ok results, s') := by
    intro rounds h results s' hok
    rw [hok] at h
    simp [Except.toOption] at h
  refine ⟨hfails (by decide +kernel), by decide +kernel, hfails (by decide +kernel)⟩

end Invoicing
