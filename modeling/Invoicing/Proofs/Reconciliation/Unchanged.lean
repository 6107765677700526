import Invoicing.Proofs.Reconciliation.Posting

/-!
# Reconciliations that repair nothing

If all terms in force are proposed again, every charge is kept (`Books.reconciled_kept`): no repair
is made, and what is new is what was proposed beyond the terms in force (`Posting.terms_kept`).
-/

namespace Invoicing

variable {Good : List Item → Charge → Prop} {items proposed : List Item} {pinned : List Id}
  {ids : Nat → Id} {issued rest : List Charge} {vs : List (Charge × Verdict)} {r : Reconciliation}

theorem filter_termsInForce_eq
    (hitems : issued.map (·.item) = (chargesOf items).filter (!·.isOf pinned))
    (hstands : ∀ c ∈ issued, Charge.issued c.handle c.item (c.item.repairsIn items) = .ok c) :
    (termsInForce items).filter (!·.isOf pinned) =
      (issued.filter (·.isActive)).map Charge.terms := by
  refine (filter_termsInForce (fun s => !s.any pinned.contains) items).trans ?_
  change ((chargesOf items).filter (!·.isOf pinned)).filterMap _ = _
  rw [← hitems, List.filterMap_map, ← List.filterMap_eq_map, List.filterMap_filter]
  refine List.filterMap_congr fun c hc => ?_
  rw [Function.comp, Item.inForce?_of_issued (hstands c hc)]
  rfl

namespace Posting

theorem kept_of_no_repairs (post : Posting Good items proposed pinned ids issued rest vs r)
    (h : r.difference.repairs = []) {x : Charge × Verdict} (hx : x ∈ vs) :
    ∃ p, x.2 = .kept p := by
  obtain ⟨c, v⟩ := x
  obtain ⟨o, ho⟩ := post.settles.made _ hx
  have hnone : o = none := by
    have hrepairs : repairsFor ids (c, v) = o.toList := by simp [repairsFor, ho]
    have := List.flatMap_eq_nil_iff.1 (post.settles.repairs_eq.symm.trans h) _ hx
    rw [hrepairs] at this
    simpa using this
  rcases Charge.repair_cases ho with ⟨hkept, -⟩ | ⟨r, hr, -⟩
  · exact hkept
  · simp [hnone] at hr

theorem repairsFor_kept {x : Charge × Verdict} {p : Charge} (hx : x.2 = .kept p) :
    repairsFor ids x = [] := by
  simp [repairsFor, hx, Charge.repair]

theorem standAfter_kept (post : Posting Good items proposed pinned ids issued rest vs r)
    (hhandle : ∀ rs c k, Good rs c → Good rs { c with handle := k })
    (h : r.difference.repairs = []) : StandAfter Good items ids vs := by
  intro x hx k
  obtain ⟨p, hp⟩ := post.kept_of_no_repairs h hx
  obtain ⟨hmem, hactive⟩ := post.mem_issued hx
  obtain ⟨hstand, hgood⟩ := post.stands _ hmem
  rw [repairsFor_kept hp, List.append_nil]
  refine ⟨_, Charge.issued_handle k hstand, hhandle _ _ k hgood, ?_⟩
  have hfits := post.settles.fits x hx
  rw [hp] at hfits ⊢
  rw [if_pos (show ({ x.1 with handle := k } : Charge).isActive from hactive)]
  exact congrArg some (show x.1.terms = p.terms from hfits.symm)

theorem terms_kept (post : Posting Good items proposed pinned ids issued rest vs r)
    (h : r.difference.repairs = []) :
    ((termsInForce items).filter (!·.isOf pinned) ++ rest.map Charge.terms).Perm
      (proposed.map Item.terms) := by
  rw [filter_termsInForce_eq post.items_eq fun c hc => (post.stands c hc).1]
  have hkept : (vs.filterMap (·.2.proposal?)).map Charge.terms =
      (vs.map (·.1)).map Charge.terms := by
    rw [List.map_filterMap, List.map_map, ← List.filterMap_eq_map]
    refine List.filterMap_congr fun x hx => ?_
    obtain ⟨p, hp⟩ := post.kept_of_no_repairs h hx
    have hfits := post.settles.fits x hx
    rw [hp] at hfits ⊢
    exact congrArg some hfits
  have hproposals := post.settles.proposals.map Charge.terms
  rw [map_terms_proposals, List.map_append, hkept] at hproposals
  exact ((post.settles.charges.map _).symm.append_right _).trans hproposals

theorem new_perm (post : Posting Good items proposed pinned ids issued rest vs r)
    (h : r.difference.repairs = []) (mark : Terms → Bool)
    (hforce : ((termsInForce items).filter (!·.isOf pinned)).Perm
      ((proposed.filter (mark ·.terms)).map Item.terms)) :
    (rest.map (·.item)).Perm (proposed.filter (!mark ·.terms)) := by
  have hrest : rest.map Charge.terms = (rest.map (·.item)).map Item.terms := by
    rw [List.map_map]
    exact List.map_congr_left fun p hp => by rw [(post.mem_rest hp).2]; rfl
  have hterms := post.terms_kept h
  rw [hrest] at hterms
  have hterms := (hforce.symm.append_right _).trans hterms
  -- All marked proposals are in force, so none of them is new.
  have hunmarked : ∀ i ∈ rest.map (·.item), (!mark i.terms) = true := by
    have hmap : ∀ l : List Item, (l.map Item.terms).countP mark = l.countP (mark ∘ Item.terms) :=
      fun _ => List.countP_map
    have hcount := hterms.countP_eq mark
    simp only [List.countP_append, hmap] at hcount
    have hold : List.countP (mark ∘ Item.terms) (proposed.filter (mark ·.terms)) =
        List.countP (mark ∘ Item.terms) proposed := by
      rw [List.countP_filter]
      exact List.countP_congr fun i _ => by simp
    have hzero : List.countP (mark ∘ Item.terms) (rest.map (·.item)) = 0 := by omega
    intro i hi
    simpa using List.countP_eq_zero.1 hzero i hi
  have hsub : (rest.map (·.item)).Subperm proposed := by
    have hperm := post.settles.proposals.map (·.item)
    rw [List.map_append, map_item_proposals] at hperm
    exact (List.sublist_append_right _ _).subperm.trans hperm.subperm
  have hsub := hsub.filter (!mark ·.terms)
  rw [List.filter_eq_self.2 hunmarked] at hsub
  refine hsub.perm_of_length_le ?_
  have hlen := hterms.length_eq
  have hsplit := List.length_eq_length_filter_add (l := proposed) (mark ·.terms)
  simp only [List.length_append, List.length_map] at hlen hsplit ⊢
  omega

end Posting

/-- A reconciliation succeeds and repairs nothing if all terms in force are proposed again. -/
theorem Books.reconciled_kept (hb : Books Good items)
    (hgood : ∀ rs c, Good rs c → c.Comparable ∧ ∀ d ∈ c.item.rate, d.isFinite)
    (hp : ∀ p ∈ proposed, ∀ k, (Charge.proposed k p).Comparable)
    (hsub : ((termsInForce items).filter (!·.isOf pinned)).Subperm (proposed.map Item.terms)) :
    ∃ r, reconciled ids items proposed pinned = .ok r ∧ r.difference.repairs = [] := by
  obtain ⟨cs, hcs, hitems, hstands⟩ := hb.issued pinned proposed.length
  have hproposals : ∀ p ∈ proposals proposed, p.matched = false ∧ p.Comparable := fun p h => by
    obtain ⟨hmem, hpe⟩ := proposals_eq_of_mem h
    rw [hpe]
    exact ⟨rfl, hp _ hmem _⟩
  obtain ⟨d, hd, hnone⟩ : ∃ d, settleAll ids (ledgers cs (proposals proposed)) = .ok d ∧
      d.repairs = [] := settleAll_kept (nodup_handle_proposals proposed)
      (fun p h => (hproposals p h).1) (fun c hc => (hgood _ c (hstands c hc).2).1)
    (fun c hc => (hgood _ c (hstands c hc).2).2) (fun p h => (hproposals p h).2) (by
      rwa [map_terms_proposals, ← filter_termsInForce_eq hitems fun c hc => (hstands c hc).1])
  exact ⟨⟨d, (Holdings.ofItems items pinned).untouched⟩,
    by simp [reconciled, hcs, hd, bind, Except.bind, pure, Except.pure], hnone⟩

end Invoicing
