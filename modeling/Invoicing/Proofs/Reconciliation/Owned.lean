import Invoicing.Proofs.Reconciliation.Parallel

/-!
# Only what is owned counts

The charges that a reconciliation finds, and how they stand, are those of the items it owns
(`Holdings.issued_congr`). So two reconciliations that own the same items and propose the same drafts
come to differences that are alike, whatever else has been invoiced (`reconciled_alike`).
-/

namespace Invoicing

variable {M : Money → Money → Prop}

theorem map_draft_eq_iff {xs ys : List Item} :
    xs.map Item.draft = ys.map Item.draft ↔ List.Forall₂ (Item.Alike (· = ·)) xs ys := by
  rw [← List.forall₂_eq_eq_eq, List.forall₂_map_left_iff, List.forall₂_map_right_iff]
  exact ⟨fun h => h.imp fun _ _ => Item.draft_eq_iff.1, fun h => h.imp fun _ _ => Item.draft_eq_iff.2⟩

/-! ## Charges in pairs -/

theorem exists_aligned {cs ds : List Charge} (h : List.Forall₂ (Charge.Alike M) cs ds)
    (hcs : cs.Pairwise fun c d => c.handle < d.handle)
    (hds : ds.Pairwise fun c d => c.handle < d.handle) :
    ∃ zs, Aligned M zs ∧ cs = zs.map Prod.fst ∧ ds = zs.map Prod.snd := by
  have hfst : (cs.zip ds).map Prod.fst = cs := List.map_fst_zip h.length_eq.le
  have hsnd : (cs.zip ds).map Prod.snd = ds := List.map_snd_zip h.length_eq.ge
  refine ⟨cs.zip ds, .of_pairwise (fun z hz => List.forall₂_zip h hz) ?_ ?_, hfst.symm, hsnd.symm⟩
  · rw [hfst]; exact hcs
  · rw [hsnd]; exact hds

theorem Aligned.diagonal (hM : ∀ m, M m m) (cs : List Charge) :
    Aligned M (cs.map fun c => (c, c)) := by
  refine ⟨fun z hz => ?_, fun z hz w hw => ?_⟩
  · obtain ⟨c, -, rfl⟩ := List.mem_map.1 hz
    exact ⟨⟨rfl, hM _⟩, rfl, hM _, rfl⟩
  · obtain ⟨c, -, rfl⟩ := List.mem_map.1 hz
    obtain ⟨d, -, rfl⟩ := List.mem_map.1 hw
    exact Iff.rfl

theorem pairwise_handle_proposals (items : List Item) :
    (proposals items).Pairwise fun c d => c.handle < d.handle := by
  have h : ((proposals items).map (·.handle)).Pairwise (· < ·) := by
    rw [map_handle_proposals]
    exact List.pairwise_lt_range'
  exact List.pairwise_map.1 h

theorem zipIdx_alike {xs ys : List Item} (h : List.Forall₂ (Item.Alike M) xs ys) (n : Nat) :
    List.Forall₂ (fun x y => x.1.Alike M y.1 ∧ x.2 = y.2) (xs.zipIdx n) (ys.zipIdx n) := by
  induction h generalizing n with
  | nil => exact .nil
  | cons hxy _ ih => exact .cons ⟨hxy, rfl⟩ (ih (n + 1))

theorem Charge.proposed_alike {i j : Item} (h : i.Alike M j) (m n : Nat) :
    (Charge.proposed m i).Alike M (.proposed n j) :=
  ⟨h, congrArg Caption.finish h.1, h.2, rfl⟩

theorem proposals_aligned {xs ys : List Item} (h : List.Forall₂ (Item.Alike M) xs ys) :
    ∃ zs, Aligned M zs ∧ proposals xs = zs.map Prod.fst ∧ proposals ys = zs.map Prod.snd := by
  refine exists_aligned ?_ (pairwise_handle_proposals xs) (pairwise_handle_proposals ys)
  rw [proposals, proposals, List.forall₂_map_left_iff, List.forall₂_map_right_iff]
  exact (zipIdx_alike h 0).imp fun x y hxy => Charge.proposed_alike hxy.1 ..

theorem pairs_ofSubscription {zs : List (Charge × Charge)} (h : ∀ z ∈ zs, z.1.Alike M z.2)
    (s : Option Id) :
    ∃ ws, ws ⊆ zs ∧ ofSubscription s (zs.map Prod.fst) = ws.map Prod.fst ∧
      ofSubscription s (zs.map Prod.snd) = ws.map Prod.snd := by
  refine ⟨zs.filter ((fun c => c.item.subscription = s) ∘ Prod.fst), List.filter_subset_self _,
    List.filter_map, ?_⟩
  rw [ofSubscription, List.filter_map]
  refine congrArg _ (List.filter_congr fun z hz => ?_)
  have hsub : z.1.item.subscription = z.2.item.subscription :=
    congrArg Caption.subscription (h z hz).item.1
  simp only [Function.comp, hsub]

/-! ## All ledgers -/

theorem settleAll_alike (hM : Money.Congruence M) (ids ids' : Nat → Id)
    {zs ws : List (Charge × Charge)} (hz : Aligned M zs) (hw : Aligned M ws)
    (hid : ∀ w ∈ ws, w.1.item.id = w.2.item.id) :
    Alongside (Difference.Alike M) (settleAll ids (ledgers (ws.map Prod.fst) (zs.map Prod.fst)))
      (settleAll ids' (ledgers (ws.map Prod.snd) (zs.map Prod.snd))) := by
  have hsubscription : ∀ {xs : List (Charge × Charge)}, Aligned M xs →
      (xs.map Prod.fst).map (·.item.subscription) = (xs.map Prod.snd).map (·.item.subscription) := by
    intro xs hx
    rw [List.map_map, List.map_map]
    exact List.map_congr_left fun x hmem => congrArg Caption.subscription (hx.alike x hmem).item.1
  have hmerge : ∀ s, Alongside (Difference.Alike M)
      ((⟨ofSubscription s (ws.map Prod.fst), ofSubscription s (zs.map Prod.fst)⟩ :
        Ledger).merge ids).1
      ((⟨ofSubscription s (ws.map Prod.snd), ofSubscription s (zs.map Prod.snd)⟩ :
        Ledger).merge ids').1 := by
    intro s
    obtain ⟨zs', hzs, hzfst, hzsnd⟩ := pairs_ofSubscription hz.alike s
    obtain ⟨ws', hws, hwfst, hwsnd⟩ := pairs_ofSubscription hw.alike s
    rw [hzfst, hzsnd, hwfst, hwsnd]
    exact Ledger.merge_alike hM ids ids' (hz.subset hzs) (hw.subset hws)
      fun w hmem => hid w (hws hmem)
  unfold settleAll ledgers
  rw [List.map_append, List.map_append, hsubscription hz, hsubscription hw, List.mapM_map,
    List.mapM_map]
  have hsame : ∀ ss : List (Option Id), List.Forall₂ (· = ·) ss ss := fun ss =>
    List.forall₂_same.2 fun _ _ => rfl
  refine (Alongside.mapM (S := Difference.Alike M) (hsame _) fun s s' hs => ?_).bind
    fun ds es hds => .ok ⟨?_, ?_⟩
  · obtain rfl : s = s' := hs
    exact hmerge s
  · exact List.rel_flatMap hds fun _ _ h => h.newItems
  · exact List.rel_flatMap hds fun _ _ h => h.repairs

/-! ## Reconciliations -/

variable {items items' proposed proposed' : List Item} {pinned pinned' : List Id}

/-- Whether a charge is one of some items, as it stands among them. -/
structure Charge.Found (items : List Item) (c : Charge) : Prop where
  item : c.item ∈ chargesOf items
  unpinned : c.item.isPinned = false
  stands : Charge.issued c.handle c.item (c.item.repairsIn items) = .ok c

theorem Holdings.found {first : Nat} {cs : List Charge}
    (hcs : (Holdings.ofItems items pinned).issued first = .ok cs) :
    ∀ c ∈ cs, c.Found (owned items pinned) := by
  intro c hc
  have hmem := item_mem hcs hc
  refine ⟨hmem, (mem_owned.1 (mem_chargesOf.1 hmem).1).2.1, ?_⟩
  rw [← repairsOf_owned]
  exact (issued_parts hcs).2 c hc

theorem Holdings.issued_congr (h : owned items pinned = owned items' pinned') (first : Nat) :
    (Holdings.ofItems items pinned).issued first = (Holdings.ofItems items' pinned').issued first := by
  have hcharges : ∀ items pinned, (ofItems items pinned).charges = chargesOf (owned items pinned) :=
    fun _ _ => rfl
  unfold issued
  simp only [repairsOf_owned, hcharges, h]

/-- A reconciliation depends on the items owned and on the drafts proposed, but for the ids of its
repairs. -/
theorem reconciled_alike (howned : owned items pinned = owned items' pinned')
    (hproposed : proposed.map Item.draft = proposed'.map Item.draft) (ids ids' : Nat → Id) :
    Alongside (fun r r' => r.difference.Alike (· = ·) r'.difference)
      (reconciled ids items proposed pinned) (reconciled ids' items' proposed' pinned') := by
  obtain ⟨zs, hzs, hfst, hsnd⟩ := proposals_aligned (map_draft_eq_iff.1 hproposed)
  have hlength : proposed.length = proposed'.length := by
    simpa using congrArg List.length hproposed
  unfold reconciled
  dsimp only
  rw [Holdings.issued_congr howned, hlength]
  refine (Alongside.refl (R := (· = ·)) (fun _ => rfl) _).bind fun issued issued' hissued => ?_
  obtain rfl : issued = issued' := hissued
  have hpairs : ∀ c ∈ issued.map fun c => (c, c), c.1.item.id = c.2.item.id := fun z hz => by
    obtain ⟨c, -, rfl⟩ := List.mem_map.1 hz
    rfl
  have hsettled := settleAll_alike Money.congruence_eq ids ids' hzs
    (.diagonal (fun _ => rfl) issued) hpairs
  have hside : ∀ f : Charge × Charge → Charge, (∀ c, f (c, c) = c) →
      (issued.map fun c => (c, c)).map f = issued := fun f hf => by
    rw [List.map_map]
    exact (List.map_congr_left fun c _ => hf c).trans (List.map_id issued)
  rw [hside Prod.fst fun _ => rfl, hside Prod.snd fun _ => rfl, ← hfst, ← hsnd] at hsettled
  exact hsettled.bind fun d e hde => .ok hde

end Invoicing
