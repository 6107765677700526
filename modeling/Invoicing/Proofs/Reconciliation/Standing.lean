import Invoicing.Proofs.Calendar.Order
import Invoicing.Proofs.Reconciliation.Ledgers

/-!
# Items as they stand

An item stands as what is left of it after all its repairs among the items invoiced. `termsInForce`
are the terms of those still in force, which is what a reconciliation brings in line with its
proposals. `Books` is what all items invoiced so far keep to: charges have ids of their own, repairs
belong to a charge, and every charge stands in a way that later settlements can go on from. What
that way is about amounts is left open (`Good`). `Books.posting` takes a reconciliation of such
items apart.
-/

namespace Invoicing

namespace Charge

theorem earliest_eq (d : Date) (ds : List Date) : earliest d ds = ds.foldl min d := by
  induction ds generalizing d with
  | nil => rfl
  | cons e ds ih =>
    rw [earliest, ih, List.foldl_cons]
    congr 1
    rcases lt_or_ge e d with h | h
    · rw [if_pos h, min_eq_right h.le]
    · rw [if_neg (not_lt.2 h), min_eq_left h]

theorem issued_parts {h : Nat} {i : Item} {rs : List Item} {c : Charge}
    (hc : issued h i rs = .ok c) : c.handle = h ∧ c.item = i ∧ c.matched = false ∧
      finishAfter i rs = .ok c.finish ∧ Invoice.sum i.amount rs = .ok c.amount := by
  unfold issued at hc
  cases hsum : Invoice.sum i.amount rs with
  | error f => simp [hsum] at hc
  | ok m =>
    simp only [hsum] at hc
    obtain ⟨f, hf, rfl⟩ := map_eq_ok_iff.1 hc
    exact ⟨rfl, rfl, rfl, hf, rfl⟩

theorem issued_of_parts (h : Nat) {i : Item} {rs : List Item} {finish : Option Date}
    {amount : Money}
    (hf : finishAfter i rs = .ok finish) (hs : Invoice.sum i.amount rs = .ok amount) :
    issued h i rs = .ok ⟨h, i, finish, amount, false⟩ := by
  rw [issued, hs, hf]; rfl

theorem issued_nil (h : Nat) (i : Item) : issued h i [] = .ok (proposed h i) := rfl

theorem issued_handle {h : Nat} {i : Item} {rs : List Item} {c : Charge} (k : Nat)
    (hc : issued h i rs = .ok c) : issued k i rs = .ok { c with handle := k } := by
  obtain ⟨_, rfl, hm, hf, hs⟩ := issued_parts hc
  rw [issued_of_parts k hf hs]
  simp [hm]

end Charge

namespace Item

/-- Whether an item belongs to one of some subscriptions. -/
def isOf (i : Item) (subscriptions : List Id) : Bool := i.subscription.any subscriptions.contains

/-- The repairs of an item among some items. -/
def repairsIn (i : Item) (items : List Item) : List Item :=
  items.filter fun r => r.kind = .repair && r.linked = some i.id

/-- The first day on which an item is no longer in force: its end, or the start of its earliest
repair. -/
def effectiveFinish (items : List Item) (i : Item) : Option Date :=
  i.finish.map fun e => ((i.repairsIn items).map (·.start)).foldl min e

/-- An item as it stands among all items invoiced. -/
def standing (i : Item) (items : List Item) : Except Fault Charge :=
  Charge.issued 0 i (i.repairsIn items)

/-- The terms of an item, if it is still in force. -/
def inForce? (i : Item) (items : List Item) : Option Terms :=
  match i.standing items with
  | .ok c => if c.isActive then some c.terms else none
  | .error _ => none

/-- The terms of an item that is proposed. -/
def terms (i : Item) : Terms := (Charge.proposed 0 i).terms

theorem repairsIn_append (i : Item) (xs ys : List Item) :
    i.repairsIn (xs ++ ys) = i.repairsIn xs ++ i.repairsIn ys := List.filter_append ..

theorem inForce?_of_issued {i : Item} {items : List Item} {h : Nat} {c : Charge}
    (hc : Charge.issued h i (i.repairsIn items) = .ok c) :
    i.inForce? items = if c.isActive then some c.terms else none := by
  rw [inForce?, standing, Charge.issued_handle 0 hc]
  rfl

end Item

/-- The charges among some items. -/
def chargesOf (items : List Item) : List Item := items.filter (·.kind ≠ .repair)

/-- The terms of all charges in force. -/
def termsInForce (items : List Item) : List Terms := (chargesOf items).filterMap (·.inForce? items)

theorem mem_chargesOf {i : Item} {items : List Item} :
    i ∈ chargesOf items ↔ i ∈ items ∧ i.kind ≠ .repair := by simp [chargesOf]

theorem chargesOf_append (xs ys : List Item) :
    chargesOf (xs ++ ys) = chargesOf xs ++ chargesOf ys :=
  List.filter_append ..

theorem Item.subscription_of_inForce? {i : Item} {items : List Item} {t : Terms}
    (h : i.inForce? items = some t) : t.subscription = i.subscription := by
  unfold Item.inForce? at h
  split at h
  case h_1 c hc =>
    obtain ⟨-, rfl, -⟩ := Charge.issued_parts hc
    split at h
    · obtain rfl : c.terms = t := by simpa using h
      rfl
    · simp at h
  case h_2 => simp at h

theorem filter_termsInForce (q : Option Id → Bool) (items : List Item) :
    (termsInForce items).filter (fun t => q t.subscription) =
      ((chargesOf items).filter fun i => q i.subscription).filterMap (·.inForce? items) := by
  rw [termsInForce, List.filter_filterMap, List.filterMap_filter]
  refine List.filterMap_congr fun i _ => ?_
  cases hf : i.inForce? items with
  | none => by_cases hq : q i.subscription <;> simp [Option.filter, hq]
  | some t => by_cases hq : q i.subscription <;>
    simp [Option.filter, Item.subscription_of_inForce? hf, hq]

/-- What all items invoiced so far keep to; `Good` is what is demanded of a charge and its repairs. -/
structure Books (Good : List Item → Charge → Prop) (items : List Item) : Prop where
  unpinned : ∀ i ∈ items, i.isPinned = false
  ids : ((chargesOf items).map (·.id)).Nodup
  links : ∀ r ∈ items, r.kind = .repair →
    ∃ i ∈ chargesOf items, r.linked = some i.id ∧ r.subscription = i.subscription
  stands : ∀ i ∈ chargesOf items, ∀ h,
    ∃ c, Charge.issued h i (i.repairsIn items) = .ok c ∧ Good (i.repairsIn items) c

/-- A reconciliation taken apart: the charges that are not pinned as they stand, and how they are
settled with the proposals. -/
structure Posting (Good : List Item → Charge → Prop) (items proposed : List Item) (pinned : List Id)
    (ids : Nat → Id) (issued rest : List Charge) (vs : List (Charge × Verdict))
    (r : Reconciliation) : Prop where
  items_eq : issued.map (·.item) = (chargesOf items).filter (!·.isOf pinned)
  stands : ∀ c ∈ issued, Charge.issued c.handle c.item (c.item.repairsIn items) = .ok c ∧
    Good (c.item.repairsIn items) c
  settles : Settles ids issued (proposals proposed) r.difference.repairs rest vs
  newItems : r.difference.newItems = rest.map (·.item)

variable {Good : List Item → Charge → Prop} {items proposed : List Item} {pinned : List Id}
  {ids : Nat → Id}

theorem Books.nil : Books Good [] :=
  ⟨by simp, .nil, by simp, by simp [chargesOf]⟩

/-! ## Holdings -/

namespace Holdings

variable (hb : Books Good items)
include hb

theorem isPinned_eq {i : Item} (hi : i ∈ items) :
    (i.isPinned || i.subscription.any pinned.contains) = i.isOf pinned := by
  rw [hb.unpinned i hi]; rfl

theorem charges_ofItems :
    (ofItems items pinned).charges = (chargesOf items).filter (!·.isOf pinned) := by
  rw [ofItems, chargesOf, List.filter_comm]
  exact List.filter_congr fun i hi => by
    simp only [isPinned_eq hb (List.mem_of_mem_filter hi)]

theorem repairsOf_ofItems {i : Item} (hi : i ∈ chargesOf items) (hp : i.isOf pinned = false) :
    (ofItems items pinned).repairsOf i.id = i.repairsIn items := by
  rw [repairsOf, ofItems, Item.repairsIn, List.filter_filter, List.filter_filter]
  refine List.filter_congr fun r hr => ?_
  by_cases hrep : r.kind = .repair ∧ r.linked = some i.id
  · obtain ⟨j, hj, hlink, hsub⟩ := hb.links r hr hrep.1
    have hji : j.id = i.id := by simpa [hrep.2] using hlink.symm
    obtain rfl : j = i := List.inj_on_of_nodup_map hb.ids hj hi hji
    have hr' : r.isOf pinned = false := by rw [← hp, Item.isOf, hsub]; rfl
    have hpinned : (r.isPinned || r.subscription.any pinned.contains) = r.isOf pinned :=
      isPinned_eq hb hr
    simp [hrep.1, hrep.2, hpinned, hr']
  · rw [not_and] at hrep
    by_cases hk : r.kind = .repair
    · simp [hrep hk]
    · simp [hk]

end Holdings

/-! ## Taking a reconciliation apart -/

theorem Books.issued (hb : Books Good items) (pinned : List Id) (first : Nat) :
    ∃ cs, (Holdings.ofItems items pinned).issued first = .ok cs ∧
      cs.map (·.item) = (chargesOf items).filter (!·.isOf pinned) ∧
      ∀ c ∈ cs, Charge.issued c.handle c.item (c.item.repairsIn items) = .ok c ∧
        Good (c.item.repairsIn items) c := by
  have hall : ∀ i ∈ (Holdings.ofItems items pinned).charges, ∀ h, ∃ c,
      Charge.issued h i ((Holdings.ofItems items pinned).repairsOf i.id) = .ok c ∧
      (c.item = i ∧ Charge.issued c.handle c.item (c.item.repairsIn items) = .ok c ∧
        Good (c.item.repairsIn items) c) := by
    intro i hi h
    rw [Holdings.charges_ofItems hb, List.mem_filter] at hi
    rw [Holdings.repairsOf_ofItems hb hi.1 (by simpa using hi.2)]
    obtain ⟨c, hc, hgood⟩ := hb.stands i hi.1 h
    obtain ⟨rfl, rfl, -⟩ := Charge.issued_parts hc
    exact ⟨c, hc, rfl, hc, hgood⟩
  rw [← Holdings.charges_ofItems hb]
  unfold Holdings.issued
  generalize (Holdings.ofItems items pinned).charges = charges at hall ⊢
  induction charges generalizing first with
  | nil => exact ⟨[], rfl, rfl, by simp⟩
  | cons i charges ih =>
    obtain ⟨cs, hcs, hitems, hstands⟩ := ih (first + 1) fun j hj => hall j (by simp [hj])
    obtain ⟨c, hc, rfl, hstand⟩ := hall i (by simp) first
    refine ⟨c :: cs, ?_, by rw [List.map_cons, hitems], ?_⟩
    · rw [List.zipIdx_cons]
      exact mapM_eq_ok_cons.2 ⟨c, cs, hc, hcs, rfl⟩
    · rintro c' (_ | ⟨_, h⟩)
      · exact hstand
      · exact hstands c' h

theorem proposals_eq_of_mem {p : Charge} (hp : p ∈ proposals proposed) :
    p.item ∈ proposed ∧ p = .proposed p.handle p.item := by
  obtain ⟨⟨i, h⟩, hi, rfl⟩ := List.mem_map.1 hp
  exact ⟨List.fst_mem_of_mem_zipIdx hi, rfl⟩

theorem map_item_proposals (proposed : List Item) :
    (proposals proposed).map (·.item) = proposed := by
  rw [proposals, List.map_map]
  exact List.zipIdx_map_fst ..

theorem map_handle_proposals (proposed : List Item) :
    (proposals proposed).map (·.handle) = List.range' 0 proposed.length := by
  rw [proposals, List.map_map]
  exact List.zipIdx_map_snd ..

theorem nodup_handle_proposals (proposed : List Item) :
    ((proposals proposed).map (·.handle)).Nodup := by
  rw [map_handle_proposals]
  exact List.nodup_range'

theorem map_terms_proposals (proposed : List Item) :
    (proposals proposed).map Charge.terms = proposed.map Item.terms := by
  conv_rhs => rw [← map_item_proposals proposed]
  rw [List.map_map]
  exact List.map_congr_left fun p hp => by rw [(proposals_eq_of_mem hp).2]; rfl

theorem reconciled_parts {r : Reconciliation} (h : reconciled ids items proposed pinned = .ok r) :
    ∃ issued, (Holdings.ofItems items pinned).issued proposed.length = .ok issued ∧
      settleAll ids (ledgers issued (proposals proposed)) = .ok r.difference := by
  obtain ⟨cs, hcs, h⟩ := bind_eq_ok_iff.1 h
  obtain ⟨d, hd, hr⟩ := bind_eq_ok_iff.1 h
  obtain rfl : (⟨d, (Holdings.ofItems items pinned).untouched⟩ : Reconciliation) = r :=
    Except.ok.inj hr
  exact ⟨cs, hcs, hd⟩

theorem open_proposals {p : Charge} (hp : p ∈ proposals proposed) : p.matched = false := by
  rw [(proposals_eq_of_mem hp).2]
  rfl

theorem settles_of_reconciled {r : Reconciliation}
    (h : reconciled ids items proposed pinned = .ok r) : ∃ issued rest,
      (Holdings.ofItems items pinned).issued proposed.length = .ok issued ∧
      Settles ids issued (proposals proposed) r.difference.repairs rest
        (verdicts issued (proposals proposed)) ∧
      r.difference.newItems = rest.map (·.item) := by
  obtain ⟨cs, hcs, hd⟩ := reconciled_parts h
  obtain ⟨rest, hs, hnew⟩ :=
    settles_ledgers (nodup_handle_proposals proposed) (fun _ => open_proposals) hd
  exact ⟨cs, rest, hcs, hs, hnew⟩

/-- Where books are kept these are the charges that are not pinned, as they stand. -/
theorem Books.posting (hb : Books Good items) {r : Reconciliation}
    (h : reconciled ids items proposed pinned = .ok r) :
    ∃ issued rest vs, Posting Good items proposed pinned ids issued rest vs r := by
  obtain ⟨cs, hcs, hitems, hstands⟩ := hb.issued pinned proposed.length
  obtain ⟨cs', rest, hcs', hs, hnew⟩ := settles_of_reconciled h
  obtain rfl : cs = cs' := Except.ok.inj (hcs.symm.trans hcs')
  exact ⟨cs, rest, _, hitems, hstands, hs, hnew⟩

end Invoicing
