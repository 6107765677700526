import Invoicing.Proofs.Reconciliation.Owned

/-!
# Subscriptions reconciled apart

What a reconciliation comes to for one subscription is what it comes to if nothing else is there
(`reconciled_separate`): of all ledgers only one holds charges of the subscription
(`settleAll_filter`), and the charges of that ledger stand as before, in the same order, as long as
repairs belong to the subscription of the charge that they are for (`Holdings.issued_separate`).
-/

namespace Invoicing

/-- The part of some items that belongs to one subscription. -/
def itemsFor (s : Id) (items : List Item) : List Item := items.filter (·.subscription = some s)

/-- Whether every repair belongs to the subscription of each item that it is for. -/
def RepairsBelong (items : List Item) : Prop :=
  ∀ r ∈ items, r.kind = .repair → ∀ i ∈ items, r.linked = some i.id → r.subscription = i.subscription

variable {ids ids' : Nat → Id} {issued proposed : List Charge}

/-! ## One ledger among others -/

theorem Ledger.subscription_of_merge {s : Option Id} {d : Difference}
    (hn : (proposed.map (·.handle)).Nodup) (hopen : ∀ p ∈ proposed, p.matched = false)
    (h : ((⟨ofSubscription s issued, ofSubscription s proposed⟩ : Ledger).merge ids).1 = .ok d) :
    (∀ i ∈ d.newItems, i.subscription = s) ∧ ∀ i ∈ d.repairs, i.subscription = s := by
  obtain ⟨rest, hs, hnew⟩ := merge_settles (s := s) (((List.filter_sublist).map _).nodup hn)
    (fun p hp => hopen p (List.mem_of_mem_filter hp)) subscription_of_mem subscription_of_mem h
  constructor
  · intro i hi
    rw [hnew] at hi
    obtain ⟨p, hp, rfl⟩ := List.mem_map.1 hi
    exact subscription_of_mem p (hs.proposals.mem_iff.1 (List.mem_append_right _ hp))
  · intro i hi
    rw [hs.repairs_eq] at hi
    obtain ⟨x, hx, hix⟩ := List.mem_flatMap.1 hi
    have hcharge := List.mem_filter.1 (hs.charges.mem_iff.1 (List.mem_map_of_mem hx))
    rw [(repair_parts_of_mem hix).2.2]
    exact subscription_of_mem x.1 hcharge.1

theorem Ledger.merge_nil (ids : Nat → Id) : ((⟨[], []⟩ : Ledger).merge ids).1 = .ok ⟨[], []⟩ := by
  simp [merge, sorted, Charge.sorted, settle, unsettled, Except.map]

theorem mergeAll_filter {keys : List (Option Id)} {ds : List Difference} {s : Option Id}
    (hkeys : keys.Nodup) (hn : (proposed.map (·.handle)).Nodup)
    (hopen : ∀ p ∈ proposed, p.matched = false)
    (h : (keys.map fun k =>
      (k, (⟨ofSubscription k issued, ofSubscription k proposed⟩ : Ledger))).mapM
        (fun l => (l.2.merge ids).1) = .ok ds) :
    (s ∈ keys → ∃ d,
      ((⟨ofSubscription s issued, ofSubscription s proposed⟩ : Ledger).merge ids).1 = .ok d ∧
      (ds.flatMap (·.newItems)).filter (·.subscription = s) = d.newItems ∧
      (ds.flatMap (·.repairs)).filter (·.subscription = s) = d.repairs) ∧
    (s ∉ keys → (ds.flatMap (·.newItems)).filter (·.subscription = s) = [] ∧
      (ds.flatMap (·.repairs)).filter (·.subscription = s) = []) := by
  induction keys generalizing ds with
  | nil =>
    obtain rfl : [] = ds := by simpa [pure, Except.pure] using h
    simp
  | cons k keys ih =>
    obtain ⟨d, ds, hd, hds, rfl⟩ := mapM_eq_ok_cons.1 h
    obtain ⟨hk, hkeys⟩ := List.nodup_cons.1 hkeys
    obtain ⟨hin, hout⟩ := ih hkeys hds
    obtain ⟨hnew, hrepairs⟩ := Ledger.subscription_of_merge hn hopen hd
    simp only [List.flatMap_cons, List.filter_append]
    by_cases hks : k = s
    · subst hks
      obtain ⟨hnone, hnone'⟩ := hout hk
      refine ⟨fun _ => ⟨d, hd, ?_, ?_⟩, fun hmem => absurd (by simp) hmem⟩
      · rw [hnone, List.append_nil, List.filter_eq_self.2 fun i hi => by simpa using hnew i hi]
      · rw [hnone', List.append_nil, List.filter_eq_self.2 fun i hi => by simpa using hrepairs i hi]
    · have hother : ∀ {items : List Item}, (∀ i ∈ items, i.subscription = k) →
          items.filter (·.subscription = s) = [] := fun h =>
        List.filter_eq_nil_iff.2 fun i hi => by simpa [h i hi] using hks
      rw [hother hnew, hother hrepairs, List.nil_append, List.nil_append]
      refine ⟨fun hmem => hin (by simpa [Ne.symm hks] using hmem), fun hmem => hout fun hs => ?_⟩
      exact hmem (List.mem_cons_of_mem k hs)

theorem settleAll_filter {d : Difference} (hn : (proposed.map (·.handle)).Nodup)
    (hopen : ∀ p ∈ proposed, p.matched = false)
    (h : settleAll ids (ledgers issued proposed) = .ok d) (s : Option Id) :
    ∃ e, ((⟨ofSubscription s issued, ofSubscription s proposed⟩ : Ledger).merge ids).1 = .ok e ∧
      d.items.filter (·.subscription = s) = e.items := by
  obtain ⟨ds, hds, rfl⟩ := map_eq_ok_iff.1 h
  obtain ⟨hin, hout⟩ := mergeAll_filter (s := s) (Holdings.nodup_distinct _) hn hopen hds
  by_cases hs : s ∈ Holdings.distinct ((proposed ++ issued).map (·.item.subscription))
  · obtain ⟨e, he, hnew, hrepairs⟩ := hin hs
    refine ⟨e, he, ?_⟩
    rw [Difference.items, List.filter_append, hnew, hrepairs]
    rfl
  · -- There are no charges of the subscription at all.
    obtain ⟨hnew, hrepairs⟩ := hout hs
    rw [Holdings.mem_distinct, List.map_append, List.mem_append, not_or] at hs
    have hnone : ∀ {cs : List Charge}, s ∉ cs.map (·.item.subscription) →
        ofSubscription s cs = [] := fun hmem =>
      List.filter_eq_nil_iff.2 fun c hc hcs => hmem (List.mem_map.2 ⟨c, hc, by simpa using hcs⟩)
    refine ⟨⟨[], []⟩, by rw [hnone hs.1, hnone hs.2]; exact Ledger.merge_nil ids, ?_⟩
    rw [Difference.items, List.filter_append, hnew, hrepairs]
    rfl

theorem settleAll_single {s : Option Id} (hi : ∀ c ∈ issued, c.item.subscription = s)
    (hp : ∀ p ∈ proposed, p.item.subscription = s) :
    settleAll ids (ledgers issued proposed) = ((⟨issued, proposed⟩ : Ledger).merge ids).1 := by
  have hall : ∀ {cs : List Charge}, (∀ c ∈ cs, c.item.subscription = s) →
      ofSubscription s cs = cs := fun h => List.filter_eq_self.2 fun c hc => by simpa using h c hc
  have hkeys : ∀ k ∈ (proposed ++ issued).map (·.item.subscription), k = s := by
    intro k hk
    obtain ⟨c, hc, rfl⟩ := List.mem_map.1 hk
    exact (List.mem_append.1 hc).elim (hp c) (hi c)
  have hone : settleAll ids [(s, ⟨issued, proposed⟩)] =
      ((⟨issued, proposed⟩ : Ledger).merge ids).1 := by
    unfold settleAll
    rw [List.mapM_cons]
    cases ((⟨issued, proposed⟩ : Ledger).merge ids).1 with
    | error f => rfl
    | ok d => simp [bind, Except.bind, pure, Except.pure]
  unfold ledgers
  cases hmap : (proposed ++ issued).map (·.item.subscription) with
  | nil =>
    obtain ⟨rfl, rfl⟩ := List.append_eq_nil_iff.1 (List.map_eq_nil_iff.1 hmap)
    exact (Ledger.merge_nil ids).symm
  | cons k ks =>
    have hk := hkeys k (by rw [hmap]; simp)
    have hrest : (Holdings.distinct ks).filter (· ≠ k) = [] := by
      refine List.filter_eq_nil_iff.2 fun j hj => ?_
      have := hkeys j (by rw [hmap]; exact List.mem_cons_of_mem _ (Holdings.mem_distinct.1 hj))
      simp [this, hk]
    rw [Holdings.distinct, hrest, hk, List.map_singleton]
    have hpair : ((s, ⟨ofSubscription s issued, ofSubscription s proposed⟩) : Option Id × Ledger) =
        (s, ⟨issued, proposed⟩) := by rw [hall hi, hall hp]
    rw [hpair]
    exact hone

/-! ## Charges that stand as before -/

namespace Holdings

theorem map_handle_issued {h : Holdings} {first : Nat} {cs : List Charge}
    (hcs : h.issued first = .ok cs) : cs.map (·.handle) = List.range' first cs.length := by
  unfold issued at hcs
  generalize h.charges = charges at hcs
  induction charges generalizing first cs with
  | nil =>
    obtain rfl : [] = cs := Except.ok.inj hcs
    rfl
  | cons i charges ih =>
    rw [List.zipIdx_cons] at hcs
    obtain ⟨c, cs, hc, hrest, rfl⟩ := mapM_eq_ok_cons.1 hcs
    rw [List.map_cons, List.length_cons, List.range'_succ, ih hrest, (Charge.issued_parts hc).1]

theorem pairwise_handle_issued {h : Holdings} {first : Nat} {cs : List Charge}
    (hcs : h.issued first = .ok cs) : cs.Pairwise fun c d => c.handle < d.handle := by
  have hrange : (cs.map (·.handle)).Pairwise (· < ·) := by
    rw [map_handle_issued hcs]
    exact List.pairwise_lt_range'
  exact List.pairwise_map.1 hrange

theorem mapM_issued {M : Money → Money → Prop} {repairs : Id → List Item} {cs : List Charge}
    (h : ∀ c ∈ cs, ∃ d, Charge.issued c.handle c.item (repairs c.item.id) = .ok d ∧ c.Alike M d)
    (first : Nat) :
    ∃ ds, ((cs.map (·.item)).zipIdx first).mapM
        (fun x => Charge.issued x.2 x.1 (repairs x.1.id)) = .ok ds ∧
      List.Forall₂ (fun c d => c.Alike M d ∧ c.item = d.item) cs ds := by
  induction cs generalizing first with
  | nil => exact ⟨[], rfl, .nil⟩
  | cons c cs ih =>
    obtain ⟨ds, hds, hrest⟩ := ih (fun d hd => h d (by simp [hd])) (first + 1)
    obtain ⟨d, hd, halike⟩ := h c (by simp)
    refine ⟨{ d with handle := first } :: ds, ?_, .cons ⟨?_, (Charge.issued_parts hd).2.1.symm⟩ hrest⟩
    · rw [List.map_cons, List.zipIdx_cons]
      exact mapM_eq_ok_cons.2 ⟨_, ds, Charge.issued_handle first hd, hds, rfl⟩
    · exact ⟨halike.item, halike.finish, halike.amount, halike.matched⟩

variable {items : List Item} {pinned : List Id} {s : Id} {first : Nat} {cs : List Charge}

theorem owned_itemsFor (items : List Item) (pinned : List Id) (s : Id) :
    owned (itemsFor s items) pinned = itemsFor s (owned items pinned) := List.filter_comm ..

theorem issued_separate (hcs : (ofItems items pinned).issued first = .ok cs)
    (hb : RepairsBelong items) (first' : Nat) :
    ∃ ds, (ofItems (itemsFor s items) pinned).issued first' = .ok ds ∧
      List.Forall₂ (fun c d => c.Alike (· = ·) d ∧ c.item = d.item)
        (ofSubscription (some s) cs) ds := by
  have hcharges : (ofItems (itemsFor s items) pinned).charges =
      (ofSubscription (some s) cs).map (·.item) := by
    have hfilter : (ofSubscription (some s) cs).map (·.item) =
        itemsFor s (ofItems items pinned).charges := by
      rw [← (issued_parts hcs).1, itemsFor, List.filter_map]
      rfl
    rw [hfilter]
    show chargesOf (owned (itemsFor s items) pinned) = itemsFor s (chargesOf (owned items pinned))
    rw [owned_itemsFor]
    exact List.filter_comm ..
  -- All repairs of a charge of the subscription are there still.
  have hrepairs : ∀ c ∈ ofSubscription (some s) cs,
      c.item.repairsIn (itemsFor s (owned items pinned)) = c.item.repairsIn (owned items pinned) := by
    intro c hc
    have hsub := subscription_of_mem c hc
    have hitem := (found hcs c (List.mem_of_mem_filter hc)).item
    have hown := (mem_owned.1 (mem_chargesOf.1 hitem).1).1
    rw [Item.repairsIn, Item.repairsIn, itemsFor, List.filter_filter]
    refine List.filter_congr fun r hr => ?_
    by_cases hlink : r.kind = .repair ∧ r.linked = some c.item.id
    · have := hb r (mem_owned.1 hr).1 hlink.1 c.item hown hlink.2
      simp [this, hsub, hlink]
    · rw [not_and] at hlink
      by_cases hk : r.kind = .repair
      · simp [hlink hk]
      · simp [hk]
  rw [issued, hcharges]
  refine mapM_issued (fun c hc => ⟨c, ?_, ⟨⟨rfl, rfl⟩, rfl, rfl, rfl⟩⟩) first'
  rw [repairsOf_owned, owned_itemsFor, hrepairs c hc]
  exact (found hcs c (List.mem_of_mem_filter hc)).stands

end Holdings

/-! ## Reconciliations apart -/

variable {items : List Item} {pinned : List Id} {s : Id}

theorem forall_subscription_proposals {xs : List Item} {k : Option Id}
    (h : ∀ i ∈ xs, i.subscription = k) : ∀ p ∈ proposals xs, p.item.subscription = k :=
  fun p hp => h p.item (proposals_eq_of_mem hp).1

theorem reconciled_single {xs : List Item} {k : Option Id} {cs : List Charge}
    (hcs : (Holdings.ofItems items pinned).issued xs.length = .ok cs)
    (hc : ∀ c ∈ cs, c.item.subscription = k) (hx : ∀ i ∈ xs, i.subscription = k) :
    reconciled ids items xs pinned =
      (Ledger.trail ids (Charge.sorted (proposals xs)) (Charge.sorted cs)).map fun x =>
        ⟨⟨(x.2.filter (!·.matched)).map (·.item), x.1.flatMap (·.2.toList)⟩,
          (Holdings.ofItems items pinned).untouched⟩ := by
  unfold reconciled
  dsimp only
  rw [hcs]
  simp only [bind, Except.bind]
  rw [settleAll_single hc (forall_subscription_proposals hx), Ledger.merge_trail]
  simp only [Ledger.sorted]
  cases Ledger.trail ids (Charge.sorted (proposals xs)) (Charge.sorted cs) <;> rfl

theorem proposals_separate {xs ys : List Item}
    (h : ys.map Item.draft = (itemsFor s xs).map Item.draft) :
    List.Forall₂ (Charge.Alike (· = ·)) (ofSubscription (some s) (proposals xs)) (proposals ys) := by
  have hdrafts : (ofSubscription (some s) (proposals xs)).map (·.item.draft) =
      (proposals ys).map (·.item.draft) := by
    have hitem : ∀ cs : List Charge, cs.map (·.item.draft) = (cs.map (·.item)).map Item.draft :=
      fun cs => by rw [List.map_map]; rfl
    have hfilter : (ofSubscription (some s) (proposals xs)).map (·.item) = itemsFor s xs := by
      conv_rhs => rw [← map_item_proposals xs, itemsFor, List.filter_map]
      rfl
    rw [hitem, hitem, hfilter, map_item_proposals, h]
  rw [← List.forall₂_eq_eq_eq, List.forall₂_map_left_iff, List.forall₂_map_right_iff] at hdrafts
  refine List.forall₂_iff_zip.2 ⟨hdrafts.length_eq, fun {p q} hpq => ?_⟩
  obtain ⟨hp, hq⟩ := List.of_mem_zip hpq
  rw [(proposals_eq_of_mem (List.mem_of_mem_filter hp)).2, (proposals_eq_of_mem hq).2]
  exact Charge.proposed_alike (Item.draft_eq_iff.1 (List.forall₂_zip hdrafts hpq)) ..

/-- A reconciliation comes to the same for one subscription if nothing else is there. -/
theorem reconciled_separate {xs ys : List Item} {r : Reconciliation}
    (h : reconciled ids items xs pinned = .ok r) (hb : RepairsBelong items)
    (hys : ys.map Item.draft = (itemsFor s xs).map Item.draft) (ids' : Nat → Id) :
    ∃ r', reconciled ids' (itemsFor s items) ys pinned = .ok r' ∧
      r'.delta.map Item.draft = (itemsFor s r.delta).map Item.draft := by
  obtain ⟨cs, hcs, hd⟩ := reconciled_parts h
  obtain ⟨e, he, hitems⟩ := settleAll_filter (nodup_handle_proposals xs)
    (fun p hp => by rw [(proposals_eq_of_mem hp).2]; rfl) hd (some s)
  obtain ⟨ds, hds, hcds⟩ := Holdings.issued_separate (s := s) hcs hb ys.length
  -- Charges and proposals of the subscription come in one order on both sides.
  obtain ⟨ws, hws, hwfst, hwsnd⟩ := exists_aligned (hcds.imp fun _ _ h => h.1)
    ((Holdings.pairwise_handle_issued hcs).filter _) (Holdings.pairwise_handle_issued hds)
  obtain ⟨zs, hzs, hzfst, hzsnd⟩ := exists_aligned (proposals_separate hys)
    ((pairwise_handle_proposals xs).filter _) (pairwise_handle_proposals ys)
  have hsame : ∀ w ∈ ws, w.1.item = w.2.item := by
    rw [hwfst, hwsnd, List.forall₂_map_left_iff, List.forall₂_map_right_iff,
      List.forall₂_same] at hcds
    exact fun w hw => (hcds w hw).2
  rw [hwfst, hzfst] at he
  obtain ⟨e', he', hee⟩ := (Ledger.merge_alike Money.congruence_eq ids ids' hzs hws
    fun w hw => by rw [hsame w hw]).exists_ok he
  rw [← hwsnd, ← hzsnd] at he'
  have hdsub : ∀ c ∈ ds, c.item.subscription = some s := by
    rw [hwsnd]
    intro c hc
    obtain ⟨w, hw, rfl⟩ := List.mem_map.1 hc
    have hmem : w.1 ∈ ofSubscription (some s) cs := by
      rw [hwfst]
      exact List.mem_map_of_mem hw
    rw [← hsame w hw]
    exact subscription_of_mem w.1 hmem
  have hysub : ∀ i ∈ ys, i.subscription = some s := by
    intro i hi
    have hmem := List.mem_map_of_mem (f := Item.draft) hi
    rw [hys] at hmem
    obtain ⟨j, hj, hij⟩ := List.mem_map.1 hmem
    have hsub : i.draft.subscription = j.draft.subscription := congrArg Item.subscription hij.symm
    have hjs : j.subscription = some s := by simpa using List.of_mem_filter hj
    exact hsub.trans hjs
  refine ⟨⟨e', (Holdings.ofItems (itemsFor s items) pinned).untouched⟩, ?_, ?_⟩
  · refine bind_eq_ok_iff.2 ⟨ds, hds, bind_eq_ok_iff.2 ⟨e', ?_, rfl⟩⟩
    rw [settleAll_single hdsub (forall_subscription_proposals hysub)]
    exact he'
  · have hdelta : itemsFor s r.delta = e.items := hitems
    rw [hdelta]
    exact (map_draft_eq_iff.2 hee.items).symm

end Invoicing
