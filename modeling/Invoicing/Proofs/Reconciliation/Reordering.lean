import Invoicing.Proofs.Reconciliation.Arrangement
import Invoicing.Proofs.Reconciliation.Separation
import Mathlib.Data.List.Permutation

/-!
# Items invoiced in whatever order

A reconciliation comes to the same items, up to their order and ids, in whatever order the items
invoiced so far come (`reconciled_rearranged`). Their sums may be put down with other exponents, so
amounts count by what they are worth (`Money.SameWorth`), which is kept by all that is done with
amounts. What is demanded of the items: no sum of a charge and its repairs is rounded, charges in force
can be told apart (`Orderless`), and their rates can be compared (`ComparableRates`).
-/

namespace Invoicing

/-! ## Amounts of one worth -/

namespace Money

/-- Whether two amounts are of one currency and worth the same. -/
def SameWorth (m n : Money) : Prop := m.currency = n.currency ∧ m.amount.worth = n.amount.worth

variable {m m' n n' : Money}

theorem alongside_of_outcome {x y : Except DecimalSignal Decimal} {c c' : Currency} (hc : c = c')
    (h : Decimal.outcome x = Decimal.outcome y) :
    Alongside SameWorth ((x.mapError Fault.decimal).map (⟨·, c⟩))
      ((y.mapError Fault.decimal).map (⟨·, c'⟩)) := by
  match x, y, h with
  | .ok a, .ok b, h => exact .ok ⟨hc, Except.ok.inj h⟩
  | .error s, .error s', h =>
    obtain rfl : s = s' := Except.error.inj h
    exact .error _

theorem add_sameWorth (hm : SameWorth m m') (hn : SameWorth n n') :
    Alongside SameWorth (m.add n) (m'.add n') := by
  unfold add
  rw [hm.1, hn.1]
  split
  · exact alongside_of_outcome rfl (Decimal.add_congr (by decide) hm.2 hn.2)
  · exact .error _

theorem congruence_sameWorth : Congruence SameWorth where
  equal hm hn := by rw [equal?, equal?, Decimal.equal?_congr hm.2 hn.2, hm.1, hn.1]
  le hm hn := Decimal.le?_congr hm.2 hn.2
  positive hm := Decimal.lt?_congr rfl hm.2
  sub hm hn := by
    unfold sub
    rw [hm.1, hn.1]
    split
    · exact alongside_of_outcome rfl (Decimal.sub_congr (by decide) hm.2 hn.2)
    · exact .error _
  neg hm := alongside_of_outcome hm.1 (Decimal.neg_congr (by decide) hm.2)

end Money

open Money (SameWorth congruence_sameWorth)

/-- What an item says, its amount by its worth. -/
def Item.content (i : Item) : Caption × Currency × (ℚ ⊕ Decimal) :=
  (i.caption, i.amount.currency, i.amount.amount.worth)

theorem Item.alike_iff_content {i j : Item} : i.Alike SameWorth j ↔ i.content = j.content := by
  simp only [Item.Alike, SameWorth, Item.content, Prod.mk.injEq]

theorem map_content_eq_iff {xs ys : List Item} :
    xs.map Item.content = ys.map Item.content ↔ List.Forall₂ (Item.Alike SameWorth) xs ys := by
  rw [← List.forall₂_eq_eq_eq, List.forall₂_map_left_iff, List.forall₂_map_right_iff]
  exact ⟨fun h => h.imp fun _ _ => Item.alike_iff_content.2,
    fun h => h.imp fun _ _ => Item.alike_iff_content.1⟩

/-! ## Sums in another order -/

theorem Invoice.sum_sameWorth {m n : Money} {xs ys : List Item} (hm : SameWorth m n)
    (h : List.Forall₂ (Item.Alike SameWorth) xs ys) :
    Alongside SameWorth (Invoice.sum m xs) (Invoice.sum n ys) := by
  have hcons : ∀ (m : Money) (i : Item) (rest : List Item),
      Invoice.sum m (i :: rest) = m.add i.amount >>= fun s => Invoice.sum s rest := by
    intro m i rest
    rw [Invoice.sum]
    cases m.add i.amount <;> rfl
  induction h generalizing m n with
  | nil => exact .ok hm
  | cons hij _ ih =>
    rw [hcons, hcons]
    exact (Money.add_sameWorth hm hij.2).bind fun _ _ => ih

/-- Whether no sum of an amount and some items is rounded, in whatever order they are added. -/
def ExactSums (m : Money) (rs : List Item) : Prop := ∀ xs, xs.Perm rs → ExactSum m xs

instance (m : Money) (rs : List Item) : Decidable (ExactSums m rs) :=
  decidable_of_iff (∀ xs ∈ rs.permutations', ExactSum m xs) <| by
    simp only [List.mem_permutations', ExactSums]

theorem ExactSum.isFinite {m : Money} {r : Item} {rs : List Item} (h : ExactSum m (r :: rs)) :
    m.amount.isFinite := by
  obtain ⟨s, hs, hworth, -⟩ := h
  obtain ⟨d, hd, rfl⟩ := Money.add_eq_ok hs
  exact Decimal.isFinite_of_add hd (Decimal.finite_of_worth hworth).1

theorem ExactSums.sum_perm {m s : Money} {rs rs' : List Item} (h : ExactSums m rs)
    (hp : rs.Perm rs') (hs : Invoice.sum m rs = .ok s) :
    ∃ s', Invoice.sum m rs' = .ok s' ∧ SameWorth s s' := by
  have hexact : ExactSum m rs := h rs (.refl _)
  cases rs with
  | nil =>
    obtain rfl : rs' = [] := List.nil_perm.1 hp
    exact ⟨s, hs, rfl, rfl⟩
  | cons r rs =>
    obtain ⟨t, ht, hcur, hworth⟩ := hexact.sum_eq hexact.isFinite
    obtain rfl : t = s := Except.ok.inj (ht.symm.trans hs)
    obtain ⟨t', ht', hcur', hworth'⟩ := (h rs' hp.symm).sum_eq hexact.isFinite
    refine ⟨t', ht', hcur.trans hcur'.symm, ?_⟩
    rw [hworth, hworth', (hp.map fun i : Item => i.amount.amount.toRat).sum_eq]

/-! ## Charges in another order -/

theorem exists_map_of_perm {α β : Type} {f : α → β} {ys : List β} {xs : List α}
    (h : ys.Perm (xs.map f)) : ∃ us : List α, ys = us.map f ∧ us.Perm xs := by
  have hcomp : (fun ys xs => List.Perm ys (List.map f xs)) ys xs := h
  rw [← List.eq_map_comp_perm] at hcomp
  exact hcomp

namespace Item

/-- Whether two items of one subscription agree on kind, start, plan, phase, rate and on the day up
to which they are in force. -/
structure Tied (items : List Item) (i j : Item) : Prop where
  subscription : i.subscription = j.subscription
  kind : i.kind = j.kind
  start : i.start = j.start
  plan : i.plan = j.plan
  phase : i.phase = j.phase
  rate : equalPrices? i.rate j.rate = .ok true
  finish : i.effectiveFinish items = j.effectiveFinish items

instance (items : List Item) (i j : Item) : Decidable (Tied items i j) :=
  decidable_of_iff
    (i.subscription = j.subscription ∧ i.kind = j.kind ∧ i.start = j.start ∧ i.plan = j.plan ∧
      i.phase = j.phase ∧ equalPrices? i.rate j.rate = .ok true ∧
      i.effectiveFinish items = j.effectiveFinish items)
    ⟨fun ⟨hs, hk, hd, hp, hh, hr, hf⟩ => ⟨hs, hk, hd, hp, hh, hr, hf⟩,
      fun ⟨hs, hk, hd, hp, hh, hr, hf⟩ => ⟨hs, hk, hd, hp, hh, hr, hf⟩⟩

theorem repairsIn_perm {items items' : List Item} (h : items.Perm items') (i : Item) :
    (i.repairsIn items).Perm (i.repairsIn items') := h.filter _

end Item

/-- What is demanded of items invoiced so that their order does not matter: charges in force can be
told apart, and no sum of a charge and its repairs is rounded, in whatever order. -/
structure Orderless (items : List Item) : Prop where
  untied : (chargesOf items).Pairwise fun i j => i.isLeft items → j.isLeft items → ¬ i.Tied items j
  sums : ∀ i ∈ chargesOf items, ExactSums i.amount (i.repairsIn items)

instance (items : List Item) : Decidable (Orderless items) :=
  decidable_of_iff
    (((chargesOf items).Pairwise fun i j => i.isLeft items → j.isLeft items → ¬ i.Tied items j) ∧
      ∀ i ∈ chargesOf items, ExactSums i.amount (i.repairsIn items))
    ⟨fun h => ⟨h.1, h.2⟩, fun h => ⟨h.untied, h.sums⟩⟩

/-- Whether the rates of all charges in force can be compared. -/
def ComparableRates (items : List Item) : Prop :=
  ∀ i ∈ chargesOf items, i.isLeft items → ∀ r ∈ i.rate, r.isSignaling = false

instance (items : List Item) : Decidable (ComparableRates items) :=
  inferInstanceAs (Decidable (∀ i ∈ chargesOf items, i.isLeft items → ∀ r ∈ i.rate,
    r.isSignaling = false))

namespace Charge

variable {a b c : Charge} {i : Item} {items : List Item}

theorem finishAfter_perm {rs rs' : List Item} (hp : rs.Perm rs') :
    finishAfter i rs = finishAfter i rs' := by
  unfold finishAfter
  simp only [hp.isEmpty_eq, earliest_eq, (hp.map (·.start)).foldl_eq]

theorem Found.kind (h : c.Found items) : c.item.kind = .fixed ∨ c.item.kind = .recurring :=
  Item.kind_of_not_isPinned h.unpinned (mem_chargesOf.1 h.item).2

theorem Found.isLeft (h : c.Found items) : c.isActive = c.item.isLeft items ∧
    (c.isActive → c.finish = c.item.effectiveFinish items) := by
  obtain ⟨-, -, -, hf, -⟩ := issued_parts h.stands
  rcases h.kind with hk | hk
  · have hnone := Item.finish_of_fixed hk
    cases hr : c.item.repairsIn items with
    | nil =>
      have hfinish : c.finish = none := by simpa [hr, finishAfter, hnone, eq_comm] using hf
      simp [isActive, Item.isLeft, Item.effectiveFinish, hk, hr, hnone, hfinish]
    | cons r rs =>
      have hfinish : c.finish = some c.item.start := by
        simpa [hr, finishAfter, hk, eq_comm] using hf
      simp [isActive, Item.isLeft, hk, hr, hfinish]
  · obtain ⟨e, he, -⟩ := Item.finish_of_recurring hk
    have hfinish : c.finish = c.item.effectiveFinish items := by
      cases hr : c.item.repairsIn items with
      | nil => simpa [hr, finishAfter, he, Item.effectiveFinish, eq_comm] using hf
      | cons r rs =>
        simpa [hr, finishAfter, hk, he, Item.effectiveFinish, earliest_eq, eq_comm] using hf
    simp [isActive, Item.isLeft, hk, hfinish]

theorem days_of_place_eq (ha : a.isActive) (hb : b.isActive) (h : a.place = b.place) :
    (a.item.kind = .fixed ↔ b.item.kind = .fixed) ∧ a.item.start = b.item.start ∧
      a.finish = b.finish := by
  simp only [place, EmbeddingLike.apply_eq_iff_eq, Prod.mk.injEq] at h
  obtain ⟨hstart, hfinish, hkind⟩ := h
  have hiff : a.item.kind = .fixed ↔ b.item.kind = .fixed := by
    by_cases hka : a.item.kind = .fixed <;> by_cases hkb : b.item.kind = .fixed <;>
      simp_all
  refine ⟨hiff, Date.dayNumber_injective hstart, ?_⟩
  unfold isActive at ha hb
  by_cases hk : a.item.kind = .fixed
  · rw [if_pos hk] at ha
    rw [if_pos (hiff.1 hk)] at hb
    rw [Option.isNone_iff_eq_none.1 ha, Option.isNone_iff_eq_none.1 hb]
  · rw [if_neg hk] at ha
    rw [if_neg fun h => hk (hiff.2 h)] at hb
    obtain ⟨d, hd, -⟩ := (Option.any_eq_true _ _).1 ha
    obtain ⟨e, he, -⟩ := (Option.any_eq_true _ _).1 hb
    rw [hd, he] at hfinish ⊢
    exact congrArg some (Date.dayNumber_injective hfinish)

theorem Found.tied (ha : a.Found items) (hb : b.Found items)
    (hs : a.item.subscription = b.item.subscription) (hactive : a.isActive ∧ b.isActive)
    (hplace : a.place = b.place) (hterms : sameTerms? a b = .ok true) :
    a.item.Tied items b.item := by
  obtain ⟨hfixed, hstart, hfinish⟩ := days_of_place_eq hactive.1 hactive.2 hplace
  unfold sameTerms? at hterms
  split at hterms
  case isFalse => cases hterms
  case isTrue hsame =>
  refine ⟨hs, ?_, hstart, hsame.1, hsame.2, hterms, ?_⟩
  · rcases ha.kind with hka | hka
    · rw [hka, hfixed.1 hka]
    · rcases hb.kind with hkb | hkb
      · rw [hfixed.2 hkb, hkb]
      · rw [hka, hkb]
  · rw [← ha.isLeft.2 hactive.1, ← hb.isLeft.2 hactive.2, hfinish]

theorem Alike.place {M : Money → Money → Prop} (h : a.Alike M b) : a.place = b.place := by
  rw [Charge.place, Charge.place, h.start, h.finish, h.kind]

/-- Whether two charges do not have to be settled in the order in which they came. -/
def Separable (a b : Charge) : Prop :=
  a.isActive → b.isActive → a.place = b.place → Ledger.Exchangeable a b

theorem Separable.symm (h : Separable a b) : Separable b a :=
  fun hb ha hp => (h ha hb hp.symm).symm

end Charge

theorem Orderless.separable {items : List Item} {cs : List Charge} (h : Orderless items)
    (hrates : ComparableRates items) (hitems : cs.map (·.item) = chargesOf items)
    (hcs : ∀ c ∈ cs, c.Found items) (s : Option Id) :
    (ofSubscription s cs).Pairwise Charge.Separable := by
  have huntied := h.untied
  rw [← hitems, List.pairwise_map] at huntied
  refine (huntied.filter _).imp_of_mem fun {a b} ha hb hab hactive hactive' hplace => ?_
  have hafound := hcs a (List.mem_of_mem_filter ha)
  have hbfound := hcs b (List.mem_of_mem_filter hb)
  have haleft : a.item.isLeft items := hafound.isLeft.1 ▸ hactive
  have hbleft : b.item.isLeft items := hbfound.isLeft.1 ▸ hactive'
  have hs := (subscription_of_mem a ha).trans (subscription_of_mem b hb).symm
  exact ⟨⟨hactive, hactive'⟩,
    fun hterms => hab haleft hbleft (hafound.tied hbfound hs ⟨hactive, hactive'⟩ hplace hterms),
    hrates _ hafound.item haleft, hrates _ hbfound.item hbleft⟩

namespace Holdings

variable {items items' : List Item} {pinned : List Id} {first : Nat} {cs : List Charge}

theorem issued_rearranged (hcs : (ofItems items pinned).issued first = .ok cs)
    (hp : items.Perm items') (ho : Orderless (owned items pinned)) :
    ∃ us ds, (ofItems items' pinned).issued first = .ok ds ∧ cs.Perm us ∧
      List.Forall₂ (fun c d => c.Alike SameWorth d ∧ c.item = d.item) us ds := by
  obtain ⟨hitems, -⟩ := issued_parts hcs
  have howned : (owned items pinned).Perm (owned items' pinned) := hp.filter _
  have hcharges : (cs.map (·.item)).Perm (ofItems items' pinned).charges := by
    rw [hitems]
    exact howned.filter _
  obtain ⟨us, hus, hperm⟩ : ∃ us : List Charge, (ofItems items' pinned).charges = us.map (·.item) ∧
      us.Perm cs := exists_map_of_perm hcharges.symm
  have hstand : ∀ c ∈ us, ∃ d, Charge.issued c.handle c.item
      ((ofItems items' pinned).repairsOf c.item.id) = .ok d ∧ c.Alike SameWorth d := by
    intro c hc
    have hfound := found hcs c (hperm.subset hc)
    obtain ⟨-, -, hmatched, hfinish, hsum⟩ := Charge.issued_parts hfound.stands
    rw [repairsOf_owned]
    have hrepairs := Item.repairsIn_perm howned c.item
    obtain ⟨m, hm, hworth⟩ := (ho.sums _ hfound.item).sum_perm hrepairs hsum
    exact ⟨_, Charge.issued_of_parts _ ((Charge.finishAfter_perm hrepairs).symm.trans hfinish) hm,
      ⟨rfl, rfl, rfl⟩, rfl, hworth, hmatched⟩
  obtain ⟨ds, hds, halike⟩ := mapM_issued hstand first
  refine ⟨us, ds, ?_, hperm.symm, halike⟩
  rw [issued, hus]
  exact hds

end Holdings

/-! ## Ledgers in another order -/

/-- Whether two differences have the same contents, in whatever order. -/
structure Difference.SameContent (d e : Difference) : Prop where
  newItems : (d.newItems.map Item.content).Perm (e.newItems.map Item.content)
  repairs : (d.repairs.map Item.content).Perm (e.repairs.map Item.content)

theorem Difference.SameContent.items {d e : Difference} (h : d.SameContent e) :
    (d.items.map Item.content).Perm (e.items.map Item.content) := by
  rw [Difference.items, Difference.items, List.map_append, List.map_append]
  exact h.newItems.append h.repairs

theorem Ledger.merge_rearranged (ids ids' : Nat → Id) {zs ws : List (Charge × Charge)}
    {cs : List Charge} {d : Difference} (hz : Aligned SameWorth zs)
    (hn : ((zs.map Prod.fst).map (·.handle)).Nodup)
    (hw : ∀ w ∈ ws, w.1.Alike SameWorth w.2 ∧ w.1.item.id = w.2.item.id)
    (hp : cs.Perm (ws.map Prod.fst)) (hs : cs.Pairwise Charge.Separable)
    (h : ((⟨cs, zs.map Prod.fst⟩ : Ledger).merge ids).1 = .ok d) :
    ∃ e, ((⟨ws.map Prod.snd, zs.map Prod.snd⟩ : Ledger).merge ids').1 = .ok e ∧
      d.SameContent e := by
  obtain ⟨zs', hzs, hzfst, hzsnd⟩ := hz.sorted
  obtain ⟨ws', hwsnd, hws⟩ : ∃ ws' : List (Charge × Charge),
      Charge.sorted (ws.map Prod.snd) = ws'.map Prod.snd ∧ ws'.Perm ws :=
    exists_map_of_perm (sorted_perm _)
  rw [merge_trail] at h ⊢
  obtain ⟨x, hx, rfl⟩ := map_eq_ok_iff.1 h
  simp only [Ledger.sorted, hzfst, hzsnd, hwsnd] at hx ⊢
  have hperm : (Charge.sorted cs).Perm (ws'.map Prod.fst) :=
    (sorted_perm cs).trans (hp.trans (hws.map _).symm)
  have hplaces : (ws'.map Prod.fst).Pairwise fun a b => a.place ≤ b.place := by
    have hsnd := Charge.pairwise_place_sorted (ws.map Prod.snd)
    rw [hwsnd, List.pairwise_map] at hsnd
    rw [List.pairwise_map]
    refine hsnd.imp_of_mem fun ha hb hab => ?_
    rw [(hw _ (hws.subset ha)).1.place, (hw _ (hws.subset hb)).1.place]
    exact hab
  have hactive : ∀ c ∈ (Charge.sorted cs).filter (·.isActive), c.isActive :=
    fun c hc => List.of_mem_filter hc
  have hseparable : ((Charge.sorted cs).filter (·.isActive)).Pairwise fun a b =>
      a.place = b.place → Exchangeable a b :=
    ((((sorted_perm cs).pairwise_iff fun {_ _} h => h.symm).2 hs).filter _).imp_of_mem
      fun ha hb hab => hab (hactive _ ha) (hactive _ hb)
  rw [trail_filter] at hx
  obtain ⟨y, hy, hxy, hfinal⟩ := trail_perm (hperm.filter _)
    ((Charge.pairwise_place_sorted cs).filter _) (hplaces.filter _) hseparable hactive
    (((hzs.map _).map _).nodup_iff.2 hn) hx
  rw [← trail_filter] at hy
  obtain ⟨z, hzok, hsteps, zs'', hz'', hfst, hsnd⟩ := (trail_alike congruence_sameWorth ids ids'
    (hz.subset hzs.subset).twins fun w hmem => hw w (hws.subset hmem)).exists_ok hy
  refine ⟨_, map_eq_ok_iff.2 ⟨z, hzok, rfl⟩, .of_eq ?_, ?_⟩
  · dsimp only
    rw [hfinal, hfst, hsnd]
    exact map_content_eq_iff.2 hz''.open_items
  · refine ((hxy.flatMap_right _).map _).trans (.of_eq ?_)
    exact map_content_eq_iff.2 (List.rel_flatMap hsteps fun _ _ h => h.2)

theorem settleAll_rearranged {ids ids' : Nat → Id} {cs ds ps qs : List Charge} {d : Difference}
    (hcs : (cs.map (·.item.subscription)).Perm (ds.map (·.item.subscription)))
    (hps : ps.map (·.item.subscription) = qs.map (·.item.subscription))
    (hmerge : ∀ s d, ((⟨ofSubscription s cs, ofSubscription s ps⟩ : Ledger).merge ids).1 = .ok d →
      ∃ e, ((⟨ofSubscription s ds, ofSubscription s qs⟩ : Ledger).merge ids').1 = .ok e ∧
        d.SameContent e)
    (h : settleAll ids (ledgers cs ps) = .ok d) :
    ∃ e, settleAll ids' (ledgers ds qs) = .ok e ∧ d.SameContent e := by
  have hkeys : (Holdings.distinct ((ps ++ cs).map (·.item.subscription))).Perm
      (Holdings.distinct ((qs ++ ds).map (·.item.subscription))) := by
    refine (List.perm_ext_iff_of_nodup (Holdings.nodup_distinct _) (Holdings.nodup_distinct _)).2
      fun s => ?_
    rw [Holdings.mem_distinct, Holdings.mem_distinct, List.map_append, List.map_append, hps]
    exact (hcs.append_left _).mem_iff
  unfold settleAll ledgers at h ⊢
  rw [List.mapM_map] at h ⊢
  generalize Holdings.distinct ((ps ++ cs).map (·.item.subscription)) = keys at h hkeys
  generalize Holdings.distinct ((qs ++ ds).map (·.item.subscription)) = keys' at hkeys ⊢
  obtain ⟨es, hes, rfl⟩ := map_eq_ok_iff.1 h
  have hleft : ∀ k ∈ keys, ∃ d e,
      ((⟨ofSubscription k cs, ofSubscription k ps⟩ : Ledger).merge ids).1 = .ok d ∧
      ((⟨ofSubscription k ds, ofSubscription k qs⟩ : Ledger).merge ids').1 = .ok e ∧
      d.SameContent e := by
    intro k hk
    obtain ⟨d, -, hd⟩ := exists_of_mapM hes hk
    obtain ⟨e, he, hde⟩ := hmerge k d hd
    exact ⟨d, e, hd, he, hde⟩
  have : Nonempty Difference := ⟨⟨[], []⟩⟩
  choose! d e hd he hde using hleft
  have hds : es = keys.map d := Except.ok.inj (hes.symm.trans (mapM_eq_ok_of_forall hd))
  refine ⟨_, bind_eq_ok_iff.2 ⟨keys'.map e,
    mapM_eq_ok_of_forall fun k hk => he k (hkeys.symm.subset hk), rfl⟩, ?_, ?_⟩
  · simp only [hds, List.flatMap_map, List.map_flatMap]
    exact hkeys.flatMap fun k hk => (hde k hk).newItems
  · simp only [hds, List.flatMap_map, List.map_flatMap]
    exact hkeys.flatMap fun k hk => (hde k hk).repairs

/-! ## Reconciliations in another order -/

/-- A reconciliation comes to the same if the items invoiced so far come in another order. -/
theorem reconciled_rearranged {ids : Nat → Id} {items items' xs ys : List Item} {pinned : List Id}
    {r : Reconciliation} (h : reconciled ids items xs pinned = .ok r) (hp : items.Perm items')
    (ho : Orderless (owned items pinned)) (hrates : ComparableRates (owned items pinned))
    (hys : xs.map Item.draft = ys.map Item.draft) (ids' : Nat → Id) :
    ∃ r', reconciled ids' items' ys pinned = .ok r' ∧
      (r.delta.map Item.content).Perm (r'.delta.map Item.content) := by
  obtain ⟨cs, hcs, hd⟩ := reconciled_parts h
  obtain ⟨us, ds, hds, hperm, hus⟩ := Holdings.issued_rearranged hcs hp ho
  have hlength : xs.length = ys.length := by simpa using congrArg List.length hys
  obtain ⟨zs, hzs, hzfst, hzsnd⟩ := proposals_aligned
    ((map_draft_eq_iff.1 hys).imp fun _ _ h => (⟨h.1, h.2 ▸ ⟨rfl, rfl⟩⟩ : Item.Alike SameWorth _ _))
  have hfst : (us.zip ds).map Prod.fst = us := List.map_fst_zip hus.length_eq.le
  have hsnd : (us.zip ds).map Prod.snd = ds := List.map_snd_zip hus.length_eq.ge
  have hpairs : ∀ w ∈ us.zip ds, w.1.Alike SameWorth w.2 ∧ w.1.item = w.2.item :=
    fun w hw => List.forall₂_zip hus hw
  have hseparable := ho.separable hrates (Holdings.issued_parts hcs).1 (Holdings.found hcs)
  have hmerge : ∀ s d,
      ((⟨ofSubscription s cs, ofSubscription s (proposals xs)⟩ : Ledger).merge ids).1 = .ok d →
      ∃ e, ((⟨ofSubscription s ds, ofSubscription s (proposals ys)⟩ :
        Ledger).merge ids').1 = .ok e ∧ d.SameContent e := by
    intro s d hd
    obtain ⟨zs', hzs', hzfst', hzsnd'⟩ := pairs_ofSubscription hzs.alike s
    obtain ⟨ws, hws, hwfst, hwsnd⟩ := pairs_ofSubscription (fun w hw => (hpairs w hw).1) s
    rw [hfst] at hwfst
    rw [hsnd] at hwsnd
    have hn : ((zs'.map Prod.fst).map (·.handle)).Nodup := by
      rw [← hzfst', ← hzfst]
      exact ((List.filter_sublist).map _).nodup (nodup_handle_proposals xs)
    rw [hzfst, hzfst'] at hd
    rw [hwsnd, hzsnd, hzsnd']
    exact Ledger.merge_rearranged ids ids' (hzs.subset hzs') hn
      (fun w hw => ⟨(hpairs w (hws hw)).1, congrArg Item.id (hpairs w (hws hw)).2⟩)
      (hwfst ▸ hperm.filter _) (hseparable s) hd
  have hissued : (cs.map (·.item.subscription)).Perm (ds.map (·.item.subscription)) := by
    refine (hperm.map _).trans (.of_eq ?_)
    rw [← List.forall₂_eq_eq_eq, List.forall₂_map_left_iff, List.forall₂_map_right_iff]
    exact hus.imp fun _ _ h => congrArg Item.subscription h.2
  have hproposed : (proposals xs).map (·.item.subscription) =
      (proposals ys).map (·.item.subscription) := by
    rw [hzfst, hzsnd, List.map_map, List.map_map]
    exact List.map_congr_left fun z hz => congrArg Caption.subscription (hzs.alike z hz).item.1
  obtain ⟨e, he, hde⟩ := settleAll_rearranged hissued hproposed hmerge hd
  refine ⟨⟨e, (Holdings.ofItems items' pinned).untouched⟩, ?_, hde.items⟩
  exact bind_eq_ok_iff.2 ⟨ds, hlength ▸ hds, bind_eq_ok_iff.2 ⟨e, he, rfl⟩⟩

end Invoicing
