import Invoicing.Proofs.Reconciliation.Conservation

/-!
# One reconciliation is enough

Whatever has been invoiced before, after one reconciliation the charges in force are those proposed.
What is left of a charge is computed here without rounding (`Item.left?`), from the charge and all its
repairs. That it agrees with what a reconciliation takes a charge to be needs only that none of the sums
is rounded (`Item.inForce?_eq_left?`), and that a shortened charge stands as the shorter proposal, that
the repair has the exact amount.
-/

namespace Invoicing

/-- The items that a reconciliation touches: those that are not pinned, nor of a pinned subscription. -/
def owned (items : List Item) (pinned : List Id) : List Item :=
  items.filter fun i => !(i.isPinned || i.isOf pinned)

/-! ## What is left of a charge -/

namespace Item

variable (items : List Item) (i : Item)

/-- The amount of an item and all its repairs. -/
def effectiveAmount : ℚ := i.amount.amount.toRat + ((i.repairsIn items).map (·.amount.amount.toRat)).sum

/-- Whether an item is still in force: a fixed one until it is repaired, any other one if it ends after
it starts. -/
def isLeft : Bool :=
  if i.kind = .fixed then (i.repairsIn items).isEmpty
  else (i.effectiveFinish items).any (i.start < ·)

/-- What is left of an item, given all items, if it is still in force. -/
def left? : Option Terms :=
  if i.isLeft items then
    some { i.terms with
      finish := i.effectiveFinish items
      amount := .inl (i.effectiveAmount items) }
  else none

end Item

/-- What is left of all charges. -/
def termsLeft (items : List Item) : List Terms := (chargesOf items).filterMap (·.left? items)

/-! ## Calculations that are not rounded -/

namespace Money

/-- Whether a subtraction is not rounded. -/
def SubtractsExactly (m n : Money) : Prop :=
  ∃ s, m.sub n = .ok s ∧ s.amount.worth = .inl (m.amount.toRat - n.amount.toRat)

instance (m n : Money) : Decidable (m.SubtractsExactly n) :=
  match h : m.sub n with
  | .error f => isFalse fun ⟨s, hs, _⟩ => by rw [h] at hs; cases hs
  | .ok s => decidable_of_iff (s.amount.worth = .inl (m.amount.toRat - n.amount.toRat))
      ⟨fun hw => ⟨s, h, hw⟩, fun ⟨_, hs', hw⟩ => Except.ok.inj (h.symm.trans hs') ▸ hw⟩

end Money

/-- Whether none of the additions is rounded when the amounts of some items are added to an amount one
after the other. -/
def ExactSum (m : Money) : List Item → Prop
  | [] => True
  | i :: rest => ∃ s, m.add i.amount = .ok s ∧
      s.amount.worth = .inl (m.amount.toRat + i.amount.amount.toRat) ∧ ExactSum s rest

instance decidableExactSum : (m : Money) → (rs : List Item) → Decidable (ExactSum m rs)
  | _, [] => isTrue trivial
  | m, i :: rest =>
    match h : m.add i.amount with
    | .error f => isFalse fun ⟨s, hs, _⟩ => by rw [h] at hs; cases hs
    | .ok s =>
      have := decidableExactSum s rest
      decidable_of_iff (s.amount.worth = .inl (m.amount.toRat + i.amount.amount.toRat) ∧
          ExactSum s rest)
        ⟨fun hw => ⟨s, h, hw⟩, fun ⟨_, hs', hw⟩ => Except.ok.inj (h.symm.trans hs') ▸ hw⟩

namespace ExactSum

variable {m s : Money} {rs rs' : List Item}

theorem sum_eq (hf : m.amount.isFinite) (h : ExactSum m rs) : ∃ s, Invoice.sum m rs = .ok s ∧
    s.currency = m.currency ∧
    s.amount.worth = .inl (m.amount.toRat + (rs.map (·.amount.amount.toRat)).sum) := by
  induction rs generalizing m with
  | nil => exact ⟨m, rfl, rfl, by simpa using Decimal.worth_eq_inl hf⟩
  | cons r rs ih =>
    obtain ⟨t, ht, hworth, hrest⟩ := h
    obtain ⟨hfin, hval⟩ := Decimal.finite_of_worth hworth
    obtain ⟨s, hs, hcur, hsum⟩ := ih hfin hrest
    refine ⟨s, by rw [Invoice.sum, ht]; exact hs, hcur.trans (Money.currency_of_add ht), ?_⟩
    rw [hsum, hval, List.map_cons, List.sum_cons, add_assoc]

theorem of_append (h : ExactSum m (rs ++ rs')) (hs : Invoice.sum m rs = .ok s) :
    ExactSum m rs ∧ ExactSum s rs' := by
  induction rs generalizing m with
  | nil =>
    obtain rfl : m = s := Except.ok.inj hs
    exact ⟨trivial, h⟩
  | cons r rs ih =>
    obtain ⟨t, ht, hworth, hrest⟩ := h
    rw [Invoice.sum, ht] at hs
    obtain ⟨hfirst, hlast⟩ := ih hrest hs
    exact ⟨⟨t, ht, hworth, hfirst⟩, hlast⟩

end ExactSum

/-- If its sum is not rounded, a charge is taken for what is left of it. -/
theorem Item.inForce?_eq_left? {items : List Item} {i : Item} (hp : i.isPinned = false)
    (hk : i.kind ≠ .repair) (hf : i.amount.amount.isFinite)
    (hexact : ExactSum i.amount (i.repairsIn items)) : i.inForce? items = i.left? items := by
  obtain ⟨m, hm, hcur, hworth⟩ := hexact.sum_eq hf
  rcases Item.kind_of_not_isPinned hp hk with hk | hk
  · have hnone := Item.finish_of_fixed hk
    cases hr : i.repairsIn items with
    | nil =>
      have hamount : i.effectiveAmount items = i.amount.amount.toRat := by
        simp [effectiveAmount, hr]
      have hfinish : i.effectiveFinish items = none := by rw [effectiveFinish, hnone]; rfl
      rw [inForce?, standing, hr, Charge.issued_nil]
      simp [left?, isLeft, hk, hr, hfinish, hamount, Charge.isActive, Charge.proposed, hnone,
        Item.terms, Charge.terms, Decimal.worth_eq_inl hf]
    | cons r rs =>
      have hfinish : Charge.finishAfter i (i.repairsIn items) = .ok (some i.start) := by
        simp [Charge.finishAfter, hr, hk]
      rw [inForce?_of_issued (Charge.issued_of_parts 0 hfinish hm)]
      simp [left?, isLeft, hk, hr, Charge.isActive]
  · obtain ⟨e, he, -⟩ := Item.finish_of_recurring hk
    have hfinish : i.effectiveFinish items =
        some (Charge.earliest e ((i.repairsIn items).map (·.start))) := by
      rw [effectiveFinish, he, Charge.earliest_eq]
      rfl
    rw [inForce?_of_issued
      (Charge.issued_of_parts 0 (Charge.finishAfter_recurring hk he _) hm), left?, isLeft, hfinish]
    have hamount : m.amount.worth = .inl (i.effectiveAmount items) := hworth
    simp [hk, Charge.isActive, Item.terms, Charge.terms, Charge.proposed, hamount, hcur]

/-! ## Settled charges -/

/-- The verdicts that a reconciliation gives. -/
def verdictsOf (existing proposed : List Item) (pinned : List Id) : List (Charge × Verdict) :=
  match (Holdings.ofItems existing pinned).issued proposed.length with
  | .ok issued => verdicts issued (proposals proposed)
  | .error _ => []

/-- The subtractions that verdicts lead to: where a charge is shortened, what it amounted to is taken
from what is proposed. -/
def subtractions (vs : List (Charge × Verdict)) : List (Money × Money) :=
  vs.filterMap fun x =>
    match x.2 with
    | .shortened p => some (p.amount, x.1.amount)
    | _ => none

namespace Charge

variable {c : Charge} {rs : List Item} {p : Charge} {o : Option Item} {id : Id}

theorem shortened_stands (hstand : issued c.handle c.item rs = .ok c)
    (hv : (Verdict.shortened p).Fits c) (hactive : p.isActive) (hf : p.amount.amount.isFinite)
    (ho : c.repair id (.shortened p) = .ok o) (hsub : p.amount.SubtractsExactly c.amount)
    (hadd : ExactSum c.amount o.toList) (k : Nat) :
    ∃ c', issued k c.item (rs ++ o.toList) = .ok c' ∧ c'.isActive ∧ c'.terms = p.terms := by
  obtain ⟨hcause, hk, -, d, e, hd, he, hlt⟩ := hv
  obtain ⟨m, r, hm, hr, rfl⟩ := repair_shortened ho
  obtain ⟨-, -, -, hstart, hamount⟩ := Item.repair_parts hr
  obtain ⟨m', hm', hworth⟩ := hsub
  obtain rfl : m = m' := Except.ok.inj (hm.symm.trans hm')
  obtain ⟨s, hs, hsum, -⟩ := hadd
  have hstand' := issued_append_recurring hstand hk he hs k
  rw [hstart, hd, Option.getD_some, if_pos hlt] at hstand'
  have hdays : c.item.start < d := by
    have hnot : p.item.kind ≠ .fixed := by rw [hcause.2.1, hk]; decide
    simpa [isActive, hnot, hd, hcause.2.2.2.2.2] using hactive
  refine ⟨_, hstand', by simp [isActive, hk, hdays], Eq.symm (SameCause.terms_eq hcause hd ?_ ?_)⟩
  · -- What was taken back is what the charge amounted to more than the proposal.
    show p.amount.amount.worth = s.amount.worth
    rw [Decimal.worth_eq_inl hf, hsum, hamount, (Decimal.finite_of_worth hworth).2]
    congr 1
    ring
  · show p.amount.currency = s.currency
    rw [Money.currency_of_add hs]
    exact (Money.currency_of_sub hm).1

theorem cancelled_stands (hstand : issued c.handle c.item rs = .ok c)
    (hcharge : c.item.kind = .fixed ∨ c.item.kind = .recurring) (hactive : c.isActive)
    (ho : c.repair id .cancelled = .ok o) (hadd : ExactSum c.amount o.toList) (k : Nat) :
    ∃ c', issued k c.item (rs ++ o.toList) = .ok c' ∧ c'.isActive = false := by
  obtain ⟨m, r, -, hr, rfl⟩ := repair_cancelled ho
  obtain ⟨-, -, -, hstart, -⟩ := Item.repair_parts hr
  obtain ⟨s, hs, -⟩ := hadd
  rcases hcharge with hk | hk
  · exact ⟨_, issued_append_fixed hstand hk hs k, by simp [isActive, hk]⟩
  · obtain ⟨e, he, hlt⟩ := finish_of_isActive hactive hk
    have hstand' := issued_append_recurring hstand hk he hs k
    rw [hstart, if_pos hlt] at hstand'
    exact ⟨_, hstand', by simp [isActive, hk]⟩

end Charge

/-! ## A reconciliation from any state -/

theorem mem_owned {items : List Item} {pinned : List Id} {i : Item} :
    i ∈ owned items pinned ↔ i ∈ items ∧ i.isPinned = false ∧ i.isOf pinned = false := by
  rw [owned, List.mem_filter, Bool.not_eq_true', Bool.or_eq_false_iff]

/-- What proposals must be so that nothing invoiced before stands in their way: they are fixed or
recurring charges of subscriptions that are not pinned, and their ids are new, like the amounts
numbers. -/
structure Proposable (existing proposed : List Item) (pinned : List Id) : Prop where
  charge : ∀ p ∈ proposed, p.kind = .fixed ∨ p.kind = .recurring
  subscription : ∀ p ∈ proposed, ∃ s ∉ pinned, p.subscription = some s
  ids : ((chargesOf (owned existing pinned) ++ proposed).map (·.id)).Nodup
  unlinked : ∀ r ∈ owned existing pinned, r.kind = .repair → ∀ p ∈ proposed, r.linked ≠ some p.id
  finite : ∀ i ∈ chargesOf (owned existing pinned) ++ proposed, i.amount.amount.isFinite

namespace Holdings

theorem issued_parts {h : Holdings} {first : Nat} {cs : List Charge}
    (hcs : h.issued first = .ok cs) : cs.map (·.item) = h.charges ∧
      ∀ c ∈ cs, Charge.issued c.handle c.item (h.repairsOf c.item.id) = .ok c := by
  unfold issued at hcs
  generalize h.charges = charges at hcs ⊢
  induction charges generalizing first cs with
  | nil =>
    obtain rfl : [] = cs := Except.ok.inj hcs
    exact ⟨rfl, by simp⟩
  | cons i charges ih =>
    rw [List.zipIdx_cons] at hcs
    obtain ⟨c, cs, hc, hrest, rfl⟩ := mapM_eq_ok_cons.1 hcs
    obtain ⟨hitems, hstands⟩ := ih hrest
    obtain ⟨rfl, rfl, -⟩ := Charge.issued_parts hc
    refine ⟨by rw [List.map_cons, hitems], ?_⟩
    rintro c' (_ | ⟨_, hc'⟩)
    · exact hc
    · exact hstands c' hc'

theorem repairsOf_owned (items : List Item) (pinned : List Id) (i : Item) :
    (ofItems items pinned).repairsOf i.id = i.repairsIn (owned items pinned) := by
  show ((owned items pinned).filter (·.kind = .repair)).filter (·.linked = some i.id) = _
  rw [List.filter_filter, Item.repairsIn]
  exact List.filter_congr fun r _ => by rw [Bool.and_comm]

theorem item_mem {items : List Item} {pinned : List Id} {first : Nat} {cs : List Charge}
    (hcs : (ofItems items pinned).issued first = .ok cs) {c : Charge} (hc : c ∈ cs) :
    c.item ∈ chargesOf (owned items pinned) := by
  have hmem := List.mem_map_of_mem (f := (·.item)) hc
  rw [(issued_parts hcs).1] at hmem
  exact hmem

end Holdings

section

variable {existing proposed : List Item} {pinned : List Id} {ids : Nat → Id} {r : Reconciliation}

theorem posting_owned (h : reconciled ids existing proposed pinned = .ok r) : ∃ issued rest,
    Posting (fun _ _ => True) (owned existing pinned) proposed [] ids issued rest
      (verdictsOf existing proposed pinned) r := by
  obtain ⟨issued, rest, hissued, hsettles, hnew⟩ := settles_of_reconciled h
  obtain ⟨hitems, hstands⟩ := Holdings.issued_parts hissued
  refine ⟨issued, rest, ?_, fun c hc => ⟨?_, trivial⟩, ?_, hnew⟩
  · have hall : (chargesOf (owned existing pinned)).filter (!·.isOf []) =
        chargesOf (owned existing pinned) :=
      List.filter_eq_self.2 fun i _ => by cases hs : i.subscription <;> simp [Item.isOf, hs]
    rw [hall]
    exact hitems
  · rw [← Holdings.repairsOf_owned]
    exact hstands c hc
  · rw [verdictsOf, hissued]
    exact hsettles

namespace Proposable

variable (hp : Proposable existing proposed pinned)
include hp

theorem isPinned {p : Item} (hmem : p ∈ proposed) : p.isPinned = false := by
  obtain ⟨s, -, hs⟩ := hp.subscription p hmem
  rcases hp.charge p hmem with hk | hk <;> simp [Item.isPinned, hs, hk, ItemKind.isGenerated]

theorem not_repair {p : Item} (hmem : p ∈ proposed) : p.kind ≠ .repair := by
  rcases hp.charge p hmem with hk | hk <;> simp [hk]

theorem admissible : Admissible (fun _ _ => True) (owned existing pinned) proposed [] where
  unpinned _ := hp.isPinned
  charges _ := hp.not_repair
  outside p _ := by cases hs : p.subscription <;> simp [Item.isOf, hs]
  good _ _ _ := trivial
  fresh := hp.ids

theorem apart : Apart (owned existing pinned) proposed where
  ids := by
    have hids := hp.ids
    rw [List.map_append] at hids
    exact hids.of_append_left
  unrepaired p hmem := by
    refine List.filter_eq_nil_iff.2 fun r hr hlink => ?_
    simp only [Bool.and_eq_true, decide_eq_true_eq] at hlink
    exact hp.unlinked r hr hlink.1 p hmem hlink.2

theorem owned_delta {issued rest : List Charge} {vs : List (Charge × Verdict)}
    (post : Posting (fun _ _ => True) (owned existing pinned) proposed [] ids issued rest vs r) :
    owned (existing ++ r.delta) pinned = owned existing pinned ++ r.delta := by
  rw [owned, List.filter_append]
  refine congrArg (owned existing pinned ++ ·) (List.filter_eq_self.2 fun i hi => ?_)
  rw [Bool.not_eq_true', Bool.or_eq_false_iff]
  rcases post.mem_delta hi with ⟨p, hpr, rfl⟩ | hi
  · have hmem := (post.mem_rest hpr).1
    obtain ⟨s, hs, hsub⟩ := hp.subscription _ hmem
    exact ⟨hp.isPinned hmem, by simp [Item.isOf, hsub, hs]⟩
  · obtain ⟨x, hx, hix⟩ := post.mem_repairs hi
    obtain ⟨hk, -, hs⟩ := repair_parts_of_mem hix
    obtain ⟨-, hpin, hof⟩ :=
      mem_owned.1 (mem_chargesOf.1 (post.mem_charges (post.mem_issued hx).1).1).1
    rw [Item.isPinned, Bool.or_eq_false_iff] at hpin ⊢
    exact ⟨⟨hs ▸ hpin.1, by rw [hk]; rfl⟩, by rw [Item.isOf, hs]; exact hof⟩

theorem standAfter {issued rest : List Charge} {vs : List (Charge × Verdict)}
    (post : Posting (fun _ _ => True) (owned existing pinned) proposed [] ids issued rest vs r)
    (hsub : ∀ x ∈ subtractions vs, x.1.SubtractsExactly x.2)
    (hadd : ∀ i ∈ chargesOf (owned existing pinned ++ r.delta),
      ExactSum i.amount (i.repairsIn (owned existing pinned ++ r.delta))) :
    StandAfter (fun _ _ => True) (owned existing pinned) ids vs := by
  intro x hx k
  obtain ⟨hmem, hactive⟩ := post.mem_issued hx
  obtain ⟨hcharge, -⟩ := post.mem_charges hmem
  obtain ⟨hstand, -⟩ := post.stands _ hmem
  obtain ⟨o, ho⟩ := post.settles.made x hx
  have hrepairs : repairsFor ids x = o.toList := by simp [repairsFor, ho]
  have hlast : ExactSum x.1.amount o.toList := by
    have hall := hadd x.1.item (by rw [chargesOf_append]; exact List.mem_append_left _ hcharge)
    rw [post.repairsIn_of_verdict hp.apart hp.admissible hx, hrepairs] at hall
    exact (hall.of_append (Charge.issued_parts hstand).2.2.2.2).2
  rw [hrepairs]
  have hproposal : ∀ p ∈ x.2.proposal?, p.isActive ∧ p.amount.amount.isFinite := by
    intro p hpx
    obtain ⟨hitem, hpe⟩ := proposals_eq_of_mem (post.mem_proposals hx hpx)
    rw [hpe]
    exact ⟨isActive_proposed (hp.isPinned hitem) (hp.not_repair hitem) _,
      hp.finite _ (List.mem_append_right _ hitem)⟩
  obtain ⟨c, v⟩ := x
  cases v with
  | kept p =>
    obtain rfl : none = o := Except.ok.inj ho
    have hterms : p.terms = c.terms := post.settles.fits _ hx
    refine ⟨{ c with handle := k }, ?_, trivial, ?_⟩
    · rw [Option.toList_none, List.append_nil]
      exact Charge.issued_handle k hstand
    · rw [if_pos (show ({ c with handle := k } : Charge).isActive from hactive)]
      exact congrArg some hterms.symm
  | shortened p =>
    obtain ⟨hpactive, hfinite⟩ := hproposal p rfl
    have hexact : p.amount.SubtractsExactly c.amount :=
      hsub (p.amount, c.amount) (List.mem_filterMap.2 ⟨_, hx, rfl⟩)
    obtain ⟨c', hc', hactive', hterms⟩ := Charge.shortened_stands hstand (post.settles.fits _ hx)
      hpactive hfinite ho hexact hlast k
    exact ⟨c', hc', trivial, by rw [if_pos hactive', hterms]; rfl⟩
  | cancelled =>
    obtain ⟨hi, hk⟩ := mem_chargesOf.1 hcharge
    obtain ⟨c', hc', hout⟩ := Charge.cancelled_stands hstand
      (Item.kind_of_not_isPinned (mem_owned.1 hi).2.1 hk) hactive ho hlast k
    exact ⟨c', hc', trivial, by rw [hout]; rfl⟩

end Proposable

/-- One reconciliation brings what is left of the charges in line with the proposals, whatever charges
and repairs there were before, if no amount is rounded: neither in the sums of charges and their
repairs, those made before among them, nor in the amounts of the repairs by which it shortens charges. -/
theorem reconcile_converges (hp : Proposable existing proposed pinned) {s s' : Session}
    (hrun : (reconcile existing proposed pinned).from_ s = (.ok r, s'))
    (hsub : ∀ x ∈ subtractions (verdictsOf existing proposed pinned), x.1.SubtractsExactly x.2)
    (hadd : ∀ i ∈ chargesOf (owned (existing ++ r.delta) pinned),
      ExactSum i.amount (i.repairsIn (owned (existing ++ r.delta) pinned))) :
    (termsLeft (owned (existing ++ r.delta) pinned)).Perm (proposed.map Item.terms) := by
  have hreconciled : ∃ ids, reconciled ids existing proposed pinned = .ok r := by
    obtain ⟨s'', h, -⟩ := reconcile_from existing proposed pinned s
    exact ⟨_, (Prod.ext_iff.1 (h.symm.trans hrun)).1⟩
  obtain ⟨ids, hr⟩ := hreconciled
  obtain ⟨issued, rest, post⟩ := posting_owned hr
  rw [hp.owned_delta post] at hadd ⊢
  have hperm := post.terms_perm hp.apart hp.admissible (hp.standAfter post hsub hadd)
  have hnone : (termsInForce (owned existing pinned)).filter (·.isOf []) = [] :=
    List.filter_eq_nil_iff.2 fun t _ => by cases hs : t.subscription <;> simp [Terms.isOf, hs]
  rw [hnone, List.nil_append] at hperm
  -- What a reconciliation takes charges for is what is left of them.
  have hleft : termsInForce (owned existing pinned ++ r.delta) =
      termsLeft (owned existing pinned ++ r.delta) := by
    refine List.filterMap_congr fun i hi => ?_
    obtain ⟨hmem, hk⟩ := mem_chargesOf.1 hi
    rw [← hp.owned_delta post] at hmem
    refine Item.inForce?_eq_left? (mem_owned.1 hmem).2.1 hk (hp.finite i ?_) (hadd i hi)
    rw [chargesOf_append, post.chargesOf_delta hp.admissible] at hi
    refine List.mem_append.2 ((List.mem_append.1 hi).imp_right fun hi => ?_)
    obtain ⟨p, hpr, rfl⟩ := List.mem_map.1 hi
    exact (post.mem_rest hpr).1
  rw [← hleft]
  exact hperm

end

/-! ## A mixed state -/

/-- The repair of a charge from a day on. -/
def takenBack (i : Item) (id : Nat) (start : Date) (amount : Decimal)
    (h : Decimal.lt? .zero amount = .ok false) : Item where
  kind := .repair
  account := i.account
  start := start
  amount := ⟨amount, i.amount.currency⟩
  subscription := i.subscription
  bundle := i.bundle
  plan := i.plan
  phase := i.phase
  finish := i.finish
  rate := none
  linked := some i.id
  invoice := none
  id := .known id
  description := ""
  sound := by simp [itemFault?, h]

theorem january_lt_february : january < february := by decide

theorem january_lt_march : january < march := by decide

/-- A charge for two months, another one that has been shortened to the first month, a setup that has
been taken back, the repair of a charge that is not there, and a charge of a pinned subscription. -/
def mixedItems : List Item :=
  let months := monthlyCharge 10 1 march january_lt_march 6000 (.ofInt 30)
  let shortened := monthlyCharge 11 4 march january_lt_march 6000 (.ofInt 30)
  let setup := setupCharge 12 2 (.ofInt 5)
  [months, shortened, takenBack shortened 13 february (.ofInt (-30)) (by decide), setup,
   takenBack setup 14 january (.ofInt (-5)) (by decide),
   takenBack (setupCharge 90 2 (.ofInt 7)) 15 january (.ofInt (-7)) (by decide),
   setupCharge 16 3 (.ofInt 9)]

/-- The first month of both subscriptions, and the setup. -/
def mixedProposals : List Item :=
  [monthlyCharge 20 1 february january_lt_february 3000 (.ofInt 30),
   monthlyCharge 21 4 february january_lt_february 3000 (.ofInt 30), setupCharge 22 2 (.ofInt 5)]

/-- From the mixed state one repair leads to the proposals. -/
theorem reconcile_converges_mixed : Proposable mixedItems mixedProposals [.known 3] ∧
    ∃ r s', (reconcile mixedItems mixedProposals [.known 3]).from_ .start = (.ok r, s') ∧
      r.difference.repairs.map (·.linked) = [some (.known 10)] ∧
      (termsLeft (owned (mixedItems ++ r.delta) [.known 3])).Perm
        (mixedProposals.map Item.terms) := by
  have hp : Proposable mixedItems mixedProposals [.known 3] := by
    refine ⟨by decide, ?_, by decide +kernel, by decide +kernel, by decide +kernel⟩
    intro p hp
    simp only [mixedProposals, List.mem_cons, List.not_mem_nil, or_false] at hp
    rcases hp with rfl | rfl | rfl
    · exact ⟨.known 1, by decide, rfl⟩
    · exact ⟨.known 4, by decide, rfl⟩
    · exact ⟨.known 2, by decide, rfl⟩
  have hsub : ∀ x ∈ subtractions (verdictsOf mixedItems mixedProposals [.known 3]),
      x.1.SubtractsExactly x.2 := by decide +kernel
  have hcheck : ((reconcile mixedItems mixedProposals [.known 3]).from_ .start).1.toOption.any
      (fun r => r.difference.repairs.map (·.linked) = [some (.known 10)] &&
        (chargesOf (owned (mixedItems ++ r.delta) [.known 3])).all fun i =>
          ExactSum i.amount (i.repairsIn (owned (mixedItems ++ r.delta) [.known 3]))) = true := by
    decide +kernel
  refine ⟨hp, ?_⟩
  rcases hrun : (reconcile mixedItems mixedProposals [.known 3]).from_ .start with ⟨f | r, s'⟩
  · simp [hrun, Except.toOption] at hcheck
  · rw [hrun] at hcheck
    simp only [Except.toOption, Option.any_some, Bool.and_eq_true, decide_eq_true_eq,
      List.all_eq_true] at hcheck
    exact ⟨r, s', rfl, hcheck.1, reconcile_converges hp hrun hsub hcheck.2⟩

end Invoicing
