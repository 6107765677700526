import Invoicing.Proofs.Reconciliation.Standing

/-!
# Items as lines of invoices

Which invoice an item is a line of does not count in a reconciliation. `Books.relabel` and
`termsInForce_relabel` take what holds of the items of a difference over to the lines of the invoice
that is made of them.
-/

namespace Invoicing

namespace Item

/-- The item, whatever invoice it is a line of. -/
def unbound (i : Item) : Item := { i with invoice := none }

theorem congr_unbound {β : Type} {i j : Item} (h : i.unbound = j.unbound) (g : Item → β)
    (hg : ∀ i, g i.unbound = g i) : g i = g j := by rw [← hg i, h, hg]

variable {xs ys : List Item}

theorem map_congr_unbound {β : Type} (h : xs.map unbound = ys.map unbound) (g : Item → β)
    (hg : ∀ i, g i.unbound = g i) : xs.map g = ys.map g := by
  have hfun : g = g ∘ unbound := funext fun i => (hg i).symm
  rw [hfun, ← List.map_map, h, List.map_map]

theorem filter_congr_unbound (h : xs.map unbound = ys.map unbound) (q : Item → Bool)
    (hq : ∀ i, q i.unbound = q i) : (xs.filter q).map unbound = (ys.filter q).map unbound := by
  have hfun : q = q ∘ unbound := funext fun i => (hq i).symm
  rw [hfun, ← List.filter_map, h, List.filter_map]

theorem mem_congr_unbound (h : xs.map unbound = ys.map unbound) {j : Item} (hj : j ∈ ys) :
    ∃ i ∈ xs, i.unbound = j.unbound := by
  have := List.mem_map_of_mem (f := unbound) hj
  rw [← h] at this
  exact List.mem_map.1 this

theorem repairsIn_relabel {i j : Item} (hij : i.unbound = j.unbound)
    (h : xs.map unbound = ys.map unbound) :
    (i.repairsIn xs).map unbound = (j.repairsIn ys).map unbound := by
  rw [repairsIn, repairsIn, congr_unbound hij (·.id) fun _ => rfl]
  exact filter_congr_unbound h _ fun _ => rfl

end Item

namespace Charge

theorem sum_congr {rs rs' : List Item} {m : Money} (h : rs.map (·.amount) = rs'.map (·.amount)) :
    Invoice.sum m rs = Invoice.sum m rs' := by
  induction rs generalizing rs' m with
  | nil =>
    obtain rfl : rs' = [] := List.map_eq_nil_iff.1 h.symm
    rfl
  | cons r rs ih =>
    cases rs' with
    | nil => simp at h
    | cons r' rs' =>
      obtain ⟨ha, h⟩ := List.cons.inj h
      simp only [Invoice.sum, show r.amount = r'.amount from ha]
      cases m.add r'.amount with
      | error f => rfl
      | ok s => exact ih h

theorem issued_relabel {i j : Item} {rs rs' : List Item} {h : Nat} {c : Charge}
    (hij : i.unbound = j.unbound) (hrs : rs.map Item.unbound = rs'.map Item.unbound)
    (hc : issued h i rs = .ok c) : issued h j rs' = .ok { c with item := j } := by
  obtain ⟨rfl, rfl, hm, hf, hs⟩ := issued_parts hc
  have hstarts := Item.map_congr_unbound hrs (·.start) fun _ => rfl
  have hempty : rs.isEmpty = rs'.isEmpty := by
    rw [← List.isEmpty_map (f := Item.unbound), hrs, List.isEmpty_map]
  have hfinish : finishAfter j rs' = .ok c.finish := by
    rw [← hf]
    unfold finishAfter
    rw [hempty, hstarts, Item.congr_unbound hij (·.finish) fun _ => rfl,
      Item.congr_unbound hij (·.kind) fun _ => rfl, Item.congr_unbound hij (·.start) fun _ => rfl]
  have hsum : Invoice.sum j.amount rs' = .ok c.amount := by
    rw [← hs, Item.congr_unbound hij (·.amount) fun _ => rfl]
    exact (sum_congr (Item.map_congr_unbound hrs (·.amount) fun _ => rfl)).symm
  rw [issued_of_parts _ hfinish hsum, ← hm]

end Charge

variable {Good : List Item → Charge → Prop} {xs ys : List Item}

theorem chargesOf_relabel (h : xs.map Item.unbound = ys.map Item.unbound) :
    (chargesOf xs).map Item.unbound = (chargesOf ys).map Item.unbound :=
  Item.filter_congr_unbound h _ fun _ => rfl

theorem Item.inForce?_relabel {i j : Item} (hij : i.unbound = j.unbound)
    (h : xs.map unbound = ys.map unbound) : i.inForce? xs = j.inForce? ys := by
  have hrs := repairsIn_relabel hij h
  unfold inForce? standing
  cases hc : Charge.issued 0 i (i.repairsIn xs) with
  | ok c =>
    rw [Charge.issued_relabel hij hrs hc]
    obtain ⟨-, rfl, -⟩ := Charge.issued_parts hc
    have hterms : ({ c with item := j } : Charge).terms = c.terms :=
      (congr_unbound hij (fun k => ({ c with item := k } : Charge).terms) fun _ => rfl).symm
    have hactive : ({ c with item := j } : Charge).isActive = c.isActive :=
      (congr_unbound hij (fun k => ({ c with item := k } : Charge).isActive) fun _ => rfl).symm
    simp only [hterms, hactive]
  | error f =>
    cases hc' : Charge.issued 0 j (j.repairsIn ys) with
    | error f' => rfl
    | ok c' =>
      rw [Charge.issued_relabel hij.symm hrs.symm hc'] at hc
      simp at hc

theorem termsInForce_relabel (h : xs.map Item.unbound = ys.map Item.unbound) :
    termsInForce xs = termsInForce ys := by
  have hfun : ∀ zs : List Item, (fun i : Item => i.inForce? zs) =
      (fun i : Item => i.inForce? zs) ∘ Item.unbound := fun zs =>
    funext fun i => Item.inForce?_relabel rfl rfl
  have hsame : (fun i : Item => i.inForce? xs) = fun i => i.inForce? ys :=
    funext fun i => Item.inForce?_relabel rfl h
  rw [termsInForce, termsInForce, hsame, hfun, ← List.filterMap_map, chargesOf_relabel h,
    List.filterMap_map]

theorem Books.relabel (hb : Books Good xs) (h : xs.map Item.unbound = ys.map Item.unbound)
    (hgood : ∀ rs rs' c j, rs.map Item.unbound = rs'.map Item.unbound →
      c.item.unbound = j.unbound → Good rs c → Good rs' { c with item := j }) : Books Good ys where
  unpinned j hj := by
    obtain ⟨i, hi, hij⟩ := Item.mem_congr_unbound h hj
    rw [← Item.congr_unbound hij (·.isPinned) fun _ => rfl]
    exact hb.unpinned i hi
  ids := by
    rw [← Item.map_congr_unbound (chargesOf_relabel h) (·.id) fun _ => rfl]
    exact hb.ids
  links j hj hk := by
    obtain ⟨i, hi, hij⟩ := Item.mem_congr_unbound h hj
    obtain ⟨c, hc, hlink, hsub⟩ :=
      hb.links i hi ((Item.congr_unbound hij (·.kind) fun _ => rfl).trans hk)
    obtain ⟨c', hc', hcc⟩ := Item.mem_congr_unbound (chargesOf_relabel h).symm hc
    refine ⟨c', hc', ?_, ?_⟩
    · rw [← Item.congr_unbound hij (·.linked) fun _ => rfl, hlink,
        Item.congr_unbound hcc (·.id) fun _ => rfl]
    · rw [← Item.congr_unbound hij (·.subscription) fun _ => rfl, hsub,
        Item.congr_unbound hcc (·.subscription) fun _ => rfl]
  stands j hj k := by
    obtain ⟨i, hi, hij⟩ := Item.mem_congr_unbound (chargesOf_relabel h) hj
    obtain ⟨c, hc, hg⟩ := hb.stands i hi k
    have hrs := Item.repairsIn_relabel hij h
    obtain ⟨-, rfl, -⟩ := Charge.issued_parts hc
    exact ⟨_, Charge.issued_relabel hij hrs hc, hgood _ _ _ _ hrs hij hg⟩

theorem unbound_lines (xs : List Item) (v : Id) :
    (xs.map (·.withInvoice v)).map Item.unbound = xs.map Item.unbound := by
  rw [List.map_map]; rfl

end Invoicing
