import Invoicing.Proofs.Item
import Invoicing.Proofs.Reconciliation.Standing

/-!
# Posting a reconciliation

What invoicing the items of a reconciliation does to the books. Every repair belongs to the charge
it was made for and to no other (`repairsIn_repairs`), so a charge that got a verdict then stands as
with one repair more, and all other charges stand as before. `Posting.books` is the step by which
books are kept; `Posting.terms_perm` says that afterwards the terms in force are those proposed,
pinned ones aside.
-/

namespace Invoicing

theorem filter_flatMap_eq {α β κ : Type} {k : α → κ} {f : α → List β} {q : β → Bool} {l : List α}
    {x : α} (hn : (l.map k).Nodup) (hx : x ∈ l)
    (hq : ∀ y ∈ l, ∀ b ∈ f y, q b = true ↔ k y = k x) : (l.flatMap f).filter q = f x := by
  have hnone : ∀ {l : List α}, (∀ y ∈ l, ∀ b ∈ f y, q b = true ↔ k y = k x) →
      (∀ y ∈ l, k y ≠ k x) → (l.flatMap f).filter q = [] := by
    intro l hq hne
    refine List.filter_eq_nil_iff.2 fun b hb => ?_
    obtain ⟨y, hy, hby⟩ := List.mem_flatMap.1 hb
    exact fun h => hne y hy ((hq y hy b hby).1 h)
  induction l with
  | nil => simp at hx
  | cons a l ih =>
    rw [List.map_cons, List.nodup_cons] at hn
    rw [List.flatMap_cons, List.filter_append]
    have hql : ∀ y ∈ l, ∀ b ∈ f y, q b = true ↔ k y = k x := fun y hy => hq y (by simp [hy])
    by_cases hax : k a = k x
    · have hne : ∀ y ∈ l, k y ≠ k x := fun y hy h =>
        hn.1 (List.mem_map.2 ⟨y, hy, h.trans hax.symm⟩)
      obtain rfl : x = a := by
        rcases List.mem_cons.1 hx with h | h
        · exact h
        · exact absurd rfl (hne x h)
      rw [hnone hql hne, List.append_nil]
      exact List.filter_eq_self.2 fun b hb => (hq x (by simp) b hb).2 rfl
    · have hxl : x ∈ l := by
        rcases List.mem_cons.1 hx with h | h
        · exact absurd (congrArg k h.symm) hax
        · exact h
      rw [ih hn.2 hxl hql]
      have : (f a).filter q = [] :=
        List.filter_eq_nil_iff.2 fun b hb h => hax ((hq a (by simp) b hb).1 h)
      rw [this, List.nil_append]

/-- Whether some terms belong to one of some subscriptions. -/
def Terms.isOf (t : Terms) (subscriptions : List Id) : Bool :=
  t.subscription.any subscriptions.contains

/-- What is demanded of proposals: they are charges, not of a pinned subscription, and come with ids
of their own. -/
structure Admissible (Good : List Item → Charge → Prop) (items proposed : List Item)
    (pinned : List Id) : Prop where
  unpinned : ∀ p ∈ proposed, p.isPinned = false
  charges : ∀ p ∈ proposed, p.kind ≠ .repair
  outside : ∀ p ∈ proposed, p.isOf pinned = false
  good : ∀ p ∈ proposed, ∀ h, Good [] (.proposed h p)
  fresh : ((chargesOf items ++ proposed).map (·.id)).Nodup

/-- Whether charges have ids of their own, and no repair is for one of some proposals. -/
structure Apart (items proposed : List Item) : Prop where
  ids : ((chargesOf items).map (·.id)).Nodup
  unrepaired : ∀ p ∈ proposed, p.repairsIn items = []

theorem Books.apart {Good : List Item → Charge → Prop} {items proposed : List Item}
    {pinned : List Id} (hb : Books Good items) (hp : Admissible Good items proposed pinned) :
    Apart items proposed := by
  refine ⟨hb.ids, fun p hmem => List.filter_eq_nil_iff.2 fun b hbi hr => ?_⟩
  have hfresh := hp.fresh
  rw [List.map_append, List.nodup_append] at hfresh
  simp only [Bool.and_eq_true, decide_eq_true_eq] at hr
  -- Every repair is for a charge that is there, and a proposal has an id of its own.
  obtain ⟨i, hi, hlink, -⟩ := hb.links b hbi hr.1
  exact hfresh.2.2 _ (List.mem_map_of_mem hi) _ (List.mem_map_of_mem hmem)
    (by simpa [hr.2] using hlink.symm)

/-- Whether charges stand well after their verdicts: as the proposals they were settled with, or out
of force. -/
def StandAfter (Good : List Item → Charge → Prop) (items : List Item) (ids : Nat → Id)
    (vs : List (Charge × Verdict)) : Prop :=
  ∀ x ∈ vs, ∀ h, ∃ c,
    Charge.issued h x.1.item (x.1.item.repairsIn items ++ repairsFor ids x) = .ok c ∧
    Good (x.1.item.repairsIn items ++ repairsFor ids x) c ∧
    (if c.isActive then some c.terms else none) = x.2.proposal?.map Charge.terms

theorem isActive_proposed {i : Item} (h : i.isPinned = false) (hk : i.kind ≠ .repair) (n : Nat) :
    (Charge.proposed n i).isActive := by
  rcases Item.kind_of_not_isPinned h hk with hk | hk
  · simp [Charge.isActive, Charge.proposed, hk, Item.finish_of_fixed hk]
  · obtain ⟨e, he, hlt⟩ := Item.finish_of_recurring hk
    simp [Charge.isActive, Charge.proposed, hk, he, hlt]

namespace Charge

variable {c : Charge} {id : Id} {o : Option Item}

theorem repair_shortened {p : Charge} (h : c.repair id (.shortened p) = .ok o) :
    ∃ m r, p.amount.sub c.amount = .ok m ∧
      c.item.repair id (p.finish.getD c.item.start) c.finish m none = .ok r ∧ o = some r := by
  obtain ⟨m, hm, h⟩ := bind_eq_ok_iff.1 h
  obtain ⟨r, hr, h⟩ := bind_eq_ok_iff.1 h
  exact ⟨m, r, hm, hr, (Except.ok.inj h).symm⟩

theorem repair_cancelled (h : c.repair id .cancelled = .ok o) :
    ∃ m r, c.amount.neg = .ok m ∧
      c.item.repair id c.item.start (if c.item.finish.isSome then c.finish else none) m none =
        .ok r ∧ o = some r := by
  obtain ⟨m, hm, h⟩ := bind_eq_ok_iff.1 h
  obtain ⟨r, hr, h⟩ := bind_eq_ok_iff.1 h
  exact ⟨m, r, hm, hr, (Except.ok.inj h).symm⟩

theorem repair_cases {v : Verdict} (h : c.repair id v = .ok o) : (∃ p, v = .kept p) ∧ o = none ∨
      ∃ r, o = some r ∧ r.kind = .repair ∧ r.linked = some c.item.id ∧
        r.subscription = c.item.subscription := by
  cases v with
  | kept p => exact .inl ⟨⟨p, rfl⟩, (Except.ok.inj h).symm⟩
  | shortened p =>
    obtain ⟨m, r, -, hr, rfl⟩ := repair_shortened h
    obtain ⟨hk, hl, hs, -⟩ := Item.repair_parts hr
    exact .inr ⟨r, rfl, hk, hl, hs⟩
  | cancelled =>
    obtain ⟨m, r, -, hr, rfl⟩ := repair_cancelled h
    obtain ⟨hk, hl, hs, -⟩ := Item.repair_parts hr
    exact .inr ⟨r, rfl, hk, hl, hs⟩

end Charge

theorem repair_parts_of_mem {ids : Nat → Id} {x : Charge × Verdict} {r : Item}
    (hr : r ∈ repairsFor ids x) : r.kind = .repair ∧ r.linked = some x.1.item.id ∧
      r.subscription = x.1.item.subscription := by
  unfold repairsFor at hr
  split at hr
  case h_1 o ho =>
    rcases Charge.repair_cases ho with ⟨-, rfl⟩ | ⟨i, rfl, hparts⟩
    · simp at hr
    · obtain rfl : r = i := by simpa using hr
      exact hparts
  case h_2 => simp at hr

namespace Posting

variable {Good : List Item → Charge → Prop} {items proposed : List Item} {pinned : List Id}
  {ids : Nat → Id} {issued rest : List Charge} {vs : List (Charge × Verdict)} {r : Reconciliation}

theorem mem_issued (post : Posting Good items proposed pinned ids issued rest vs r)
    {x : Charge × Verdict} (hx : x ∈ vs) : x.1 ∈ issued ∧ x.1.isActive :=
  List.mem_filter.1 (post.settles.charges.mem_iff.1 (List.mem_map_of_mem hx))

theorem mem_charges (post : Posting Good items proposed pinned ids issued rest vs r) {c : Charge}
    (hc : c ∈ issued) : c.item ∈ chargesOf items ∧ c.item.isOf pinned = false := by
  have := List.mem_map_of_mem (f := (·.item)) hc
  rw [post.items_eq, List.mem_filter] at this
  simpa using this

theorem mem_rest (post : Posting Good items proposed pinned ids issued rest vs r) {p : Charge}
    (hp : p ∈ rest) : p.item ∈ proposed ∧ p = .proposed p.handle p.item :=
  proposals_eq_of_mem (post.settles.proposals.mem_iff.1 (List.mem_append_right _ hp))

theorem mem_proposals (post : Posting Good items proposed pinned ids issued rest vs r)
    {x : Charge × Verdict} (hx : x ∈ vs) {p : Charge} (hp : p ∈ x.2.proposal?) :
    p ∈ proposals proposed :=
  post.settles.proposals.mem_iff.1 (List.mem_append_left _ (List.mem_filterMap.2 ⟨x, hx, hp⟩))

theorem mem_repairs (post : Posting Good items proposed pinned ids issued rest vs r) {i : Item}
    (hi : i ∈ r.difference.repairs) : ∃ x ∈ vs, i ∈ repairsFor ids x := by
  rw [post.settles.repairs_eq] at hi
  exact List.mem_flatMap.1 hi

theorem delta_eq (post : Posting Good items proposed pinned ids issued rest vs r) :
    r.delta = rest.map (·.item) ++ r.difference.repairs := by
  rw [Reconciliation.delta, Difference.items, post.newItems]

theorem mem_delta (post : Posting Good items proposed pinned ids issued rest vs r) {i : Item}
    (hi : i ∈ r.delta) : (∃ p ∈ rest, p.item = i) ∨ i ∈ r.difference.repairs := by
  rw [post.delta_eq] at hi
  exact (List.mem_append.1 hi).imp_left List.mem_map.1

/-! ## Whose repairs are whose -/

section

variable (hids : ((chargesOf items).map (·.id)).Nodup)
  (post : Posting Good items proposed pinned ids issued rest vs r)
include hids post

theorem nodup_ids : (issued.map (·.item.id)).Nodup := by
  have : issued.map (·.item.id) = ((chargesOf items).filter (!·.isOf pinned)).map (·.id) := by
    rw [← post.items_eq, List.map_map]; rfl
  rw [this]
  exact (List.filter_sublist.map _).nodup hids

theorem nodup_verdict_ids : (vs.map (·.1.item.id)).Nodup := by
  have : vs.map (·.1.item.id) = (vs.map (·.1)).map (·.item.id) := by rw [List.map_map]; rfl
  rw [this, (post.settles.charges.map _).nodup_iff]
  exact (List.filter_sublist.map _).nodup (post.nodup_ids hids)

theorem repairsIn_repairs {x : Charge × Verdict} (hx : x ∈ vs) :
    x.1.item.repairsIn r.difference.repairs = repairsFor ids x := by
  rw [post.settles.repairs_eq, Item.repairsIn]
  refine filter_flatMap_eq (k := fun y => y.1.item.id) (post.nodup_verdict_ids hids) hx
    fun y _ b hb => ?_
  obtain ⟨hk, hl, -⟩ := repair_parts_of_mem hb
  simp [hk, hl]

end

theorem nodup_links (hids : ((chargesOf items).map (·.id)).Nodup)
    (post : Posting Good items proposed pinned ids issued rest vs r) :
    (r.difference.repairs.map (·.linked)).Nodup := by
  have hone : ∀ x, ((repairsFor ids x).map (·.linked)).Sublist [some x.1.item.id] := by
    intro x
    cases hx : repairsFor ids x with
    | nil => exact List.nil_sublist _
    | cons b bs =>
      have hb : b ∈ repairsFor ids x := by simp [hx]
      have hlink := (repair_parts_of_mem hb).2.1
      have hbs : bs = [] := by
        unfold repairsFor at hx
        split at hx
        case h_1 o ho => cases o <;> simp_all
        case h_2 => simp at hx
      simp [hlink, hbs]
  have hsub : ∀ vs : List (Charge × Verdict),
      ((vs.flatMap (repairsFor ids)).map (·.linked)).Sublist
        (vs.map fun x => some x.1.item.id) := by
    intro vs
    induction vs with
    | nil => exact List.Sublist.slnil
    | cons x vs ih =>
      rw [List.flatMap_cons, List.map_append, List.map_cons]
      exact (hone x).append ih
  have hnodup : (vs.map fun x => some x.1.item.id).Nodup := by
    have := (post.nodup_verdict_ids hids).map (Option.some_injective Id)
    rwa [List.map_map] at this
  rw [post.settles.repairs_eq]
  exact (hsub vs).nodup hnodup

theorem repairsIn_repairs_eq_nil (post : Posting Good items proposed pinned ids issued rest vs r)
    {i : Item} (hi : ∀ x ∈ vs, x.1.item.id ≠ i.id) : i.repairsIn r.difference.repairs = [] := by
  refine List.filter_eq_nil_iff.2 fun b hb => ?_
  obtain ⟨x, hx, hbx⟩ := post.mem_repairs hb
  simp [(repair_parts_of_mem hbx).2.1, hi x hx]

section

variable (post : Posting Good items proposed pinned ids issued rest vs r)
  (hcharges : ∀ p ∈ proposed, p.kind ≠ .repair)
include post hcharges

theorem repairsIn_delta (i : Item) : i.repairsIn r.delta = i.repairsIn r.difference.repairs := by
  rw [post.delta_eq, Item.repairsIn_append]
  have : i.repairsIn (rest.map (·.item)) = [] := by
    refine List.filter_eq_nil_iff.2 fun p hpr => ?_
    obtain ⟨c, hc, rfl⟩ := List.mem_map.1 hpr
    simp [hcharges _ (post.mem_rest hc).1]
  rw [this, List.nil_append]

theorem chargesOf_delta_eq : chargesOf r.delta = rest.map (·.item) := by
  rw [post.delta_eq, chargesOf_append]
  have hnew : chargesOf (rest.map (·.item)) = rest.map (·.item) := by
    refine List.filter_eq_self.2 fun i hi => ?_
    obtain ⟨p, hpr, rfl⟩ := List.mem_map.1 hi
    simpa using hcharges _ (post.mem_rest hpr).1
  have hrepairs : chargesOf r.difference.repairs = [] := by
    refine List.filter_eq_nil_iff.2 fun i hi => ?_
    obtain ⟨x, _, hix⟩ := post.mem_repairs hi
    simp [(repair_parts_of_mem hix).1]
  rw [hnew, hrepairs, List.append_nil]

theorem nodup_ids_delta {charges later : List Item}
    (h : ((charges ++ (proposed ++ later)).map (·.id)).Nodup) :
    ((charges ++ (chargesOf r.delta ++ later)).map (·.id)).Nodup := by
  rw [post.chargesOf_delta_eq hcharges]
  have hperm := post.settles.proposals.map (·.item)
  rw [map_item_proposals, List.map_append] at hperm
  have hsub : (rest.map (·.item) ++ later).Sublist
      ((vs.filterMap (·.2.proposal?)).map (·.item) ++ rest.map (·.item) ++ later) := by
    rw [List.append_assoc]
    exact List.sublist_append_right ..
  refine ((hsub.append_left charges).map _).nodup ?_
  exact (((hperm.append_right later).append_left charges).map _).nodup_iff.2 h

end

theorem chargesOf_delta (post : Posting Good items proposed pinned ids issued rest vs r)
    (hp : Admissible Good items proposed pinned) : chargesOf r.delta = rest.map (·.item) :=
  post.chargesOf_delta_eq hp.charges

variable (ha : Apart items proposed)
  (post : Posting Good items proposed pinned ids issued rest vs r)
  (hp : Admissible Good items proposed pinned)
include ha post hp

theorem repairsIn_of_verdict {x : Charge × Verdict} (hx : x ∈ vs) :
    x.1.item.repairsIn (items ++ r.delta) = x.1.item.repairsIn items ++ repairsFor ids x := by
  rw [Item.repairsIn_append, post.repairsIn_delta hp.charges, post.repairsIn_repairs ha.ids hx]

omit ha in
theorem repairsIn_of_no_verdict {i : Item} (hi : ∀ x ∈ vs, x.1.item.id ≠ i.id) :
    i.repairsIn (items ++ r.delta) = i.repairsIn items := by
  rw [Item.repairsIn_append, post.repairsIn_delta hp.charges, post.repairsIn_repairs_eq_nil hi,
    List.append_nil]

theorem repairsIn_of_proposed {p : Item} (hmem : p ∈ proposed) :
    p.repairsIn (items ++ r.delta) = [] := by
  have hne : ∀ i ∈ chargesOf items, i.id ≠ p.id := fun i hi => by
    have := hp.fresh
    rw [List.map_append, List.nodup_append] at this
    exact this.2.2 _ (List.mem_map_of_mem hi) _ (List.mem_map_of_mem hmem)
  rw [post.repairsIn_of_no_verdict hp fun x hx => hne _ (post.mem_charges (post.mem_issued hx).1).1]
  exact ha.unrepaired p hmem

/-! ## The step -/

omit ha in
/-- Books are kept when the items of a reconciliation are invoiced. -/
theorem books (hb : Books Good items) (hv : StandAfter Good items ids vs) :
    Books Good (items ++ r.delta) where
  unpinned := by
    intro i hi
    rcases List.mem_append.1 hi with hi | hi
    · exact hb.unpinned i hi
    rcases post.mem_delta hi with ⟨p, hpr, rfl⟩ | hi
    · exact hp.unpinned _ (post.mem_rest hpr).1
    · obtain ⟨x, hx, hix⟩ := post.mem_repairs hi
      obtain ⟨hk, -, hs⟩ := repair_parts_of_mem hix
      have hcharge := hb.unpinned _ (mem_chargesOf.1 (post.mem_charges (post.mem_issued hx).1).1).1
      simp only [Item.isPinned, Bool.or_eq_false_iff] at hcharge ⊢
      exact ⟨hs ▸ hcharge.1, by rw [hk]; rfl⟩
  ids := by
    have hids : ((chargesOf items ++ (chargesOf r.delta ++ ([] : List Item))).map Item.id).Nodup :=
      post.nodup_ids_delta hp.charges (by simpa using hp.fresh)
    rwa [List.append_nil, ← chargesOf_append] at hids
  links := by
    intro i hi hk
    rw [chargesOf_append]
    rcases List.mem_append.1 hi with hi | hi
    · obtain ⟨j, hj, h⟩ := hb.links i hi hk
      exact ⟨j, List.mem_append_left _ hj, h⟩
    rcases post.mem_delta hi with ⟨p, hpr, rfl⟩ | hi
    · exact absurd hk (hp.charges _ (post.mem_rest hpr).1)
    · obtain ⟨x, hx, hix⟩ := post.mem_repairs hi
      obtain ⟨-, hl, hs⟩ := repair_parts_of_mem hix
      exact ⟨x.1.item, List.mem_append_left _ (post.mem_charges (post.mem_issued hx).1).1, hl, hs⟩
  stands := by
    intro i hi h
    rw [chargesOf_append, post.chargesOf_delta hp] at hi
    rcases List.mem_append.1 hi with hi | hi
    · by_cases hx : ∃ x ∈ vs, x.1.item.id = i.id
      · obtain ⟨x, hx, hid⟩ := hx
        obtain rfl := List.inj_on_of_nodup_map hb.ids
          (post.mem_charges (post.mem_issued hx).1).1 hi hid
        rw [post.repairsIn_of_verdict (hb.apart hp) hp hx]
        obtain ⟨c, hc, hg, -⟩ := hv x hx h
        exact ⟨c, hc, hg⟩
      · rw [post.repairsIn_of_no_verdict hp fun x hxv hid => hx ⟨x, hxv, hid⟩]
        exact hb.stands i hi h
    · obtain ⟨p, hpr, rfl⟩ := List.mem_map.1 hi
      have hmem := (post.mem_rest hpr).1
      rw [post.repairsIn_of_proposed (hb.apart hp) hp hmem]
      exact ⟨_, Charge.issued_nil h _, hp.good _ hmem h⟩

/-! ## What is in force afterwards -/

theorem inForce?_new : (rest.map (·.item)).filterMap (·.inForce? (items ++ r.delta)) =
    rest.map Charge.terms := by
  rw [List.filterMap_map]
  refine List.filterMap_eq_map_iff_forall_eq_some.2 fun p hpr => ?_
  obtain ⟨hmem, hpe⟩ := post.mem_rest hpr
  have hstand := Charge.issued_nil p.handle p.item
  rw [← post.repairsIn_of_proposed ha hp hmem] at hstand
  rw [Function.comp, Item.inForce?_of_issued hstand,
    if_pos (isActive_proposed (hp.unpinned _ hmem) (hp.charges _ hmem) _), ← hpe]

theorem inForce?_of_no_verdict {i : Item} (hi : i ∈ chargesOf items)
    (hno : ∀ x ∈ vs, x.1.item ≠ i) : i.inForce? (items ++ r.delta) = i.inForce? items := by
  have hids : ∀ x ∈ vs, x.1.item.id ≠ i.id := fun x hx hid =>
    hno x hx (List.inj_on_of_nodup_map ha.ids (post.mem_charges (post.mem_issued hx).1).1 hi hid)
  rw [Item.inForce?, Item.standing, post.repairsIn_of_no_verdict hp hids]
  rfl

theorem inForce?_pinned : ((chargesOf items).filter (·.isOf pinned)).filterMap
    (·.inForce? (items ++ r.delta)) = (termsInForce items).filter (·.isOf pinned) := by
  refine Eq.trans ?_ (filter_termsInForce (fun s => s.any pinned.contains) items).symm
  refine List.filterMap_congr fun i hi => ?_
  obtain ⟨hi, hpin⟩ := List.mem_filter.1 hi
  refine post.inForce?_of_no_verdict ha hp hi fun x hx hxi => ?_
  have := (post.mem_charges (post.mem_issued hx).1).2
  rw [hxi, hpin] at this
  simp at this

theorem inForce?_settled (hv : StandAfter Good items ids vs) :
    (((chargesOf items).filter (!·.isOf pinned)).filterMap (·.inForce? (items ++ r.delta))).Perm
      ((vs.filterMap (·.2.proposal?)).map Charge.terms) := by
  rw [← post.items_eq, List.filterMap_map]
  have hsplit := (List.filter_append_perm (·.isActive) issued).symm.filterMap
    ((fun i : Item => i.inForce? (items ++ r.delta)) ∘ (·.item))
  have hinactive : (issued.filter (!·.isActive)).filterMap
      ((fun i : Item => i.inForce? (items ++ r.delta)) ∘ (·.item)) = [] := by
    refine List.filterMap_eq_nil_iff.2 fun c hc => ?_
    obtain ⟨hc, hinactive⟩ : c ∈ issued ∧ c.isActive = false := by simpa using hc
    rw [Function.comp, post.inForce?_of_no_verdict ha hp (post.mem_charges hc).1 fun x hx hxc => by
      have hmem := post.mem_issued hx
      obtain rfl := List.inj_on_of_nodup_map (post.nodup_ids ha.ids) hmem.1 hc (congrArg Item.id hxc)
      rw [hmem.2] at hinactive
      simp at hinactive]
    rw [Item.inForce?_of_issued (post.stands c hc).1, hinactive]
    rfl
  rw [List.filterMap_append, hinactive, List.append_nil] at hsplit
  refine hsplit.trans ((post.settles.charges.symm.filterMap _).trans ?_)
  rw [List.filterMap_map, List.map_filterMap]
  refine List.Perm.of_eq (List.filterMap_congr fun x hx => ?_)
  obtain ⟨c, hc, -, hterms⟩ := hv x hx 0
  rw [← post.repairsIn_of_verdict ha hp hx] at hc
  rw [Function.comp, Function.comp, Item.inForce?_of_issued hc, hterms]

/-- Afterwards what is in force is what is proposed, and what is pinned as before. -/
theorem terms_perm (hv : StandAfter Good items ids vs) :
    (termsInForce (items ++ r.delta)).Perm
      ((termsInForce items).filter (·.isOf pinned) ++ proposed.map Item.terms) := by
  rw [termsInForce, chargesOf_append, post.chargesOf_delta hp, List.filterMap_append,
    post.inForce?_new ha hp]
  have hold := ((List.filter_append_perm (·.isOf pinned) (chargesOf items)).symm.filterMap
    (·.inForce? (items ++ r.delta)))
  rw [List.filterMap_append, post.inForce?_pinned ha hp] at hold
  have hproposals := post.settles.proposals.map Charge.terms
  rw [map_terms_proposals, List.map_append] at hproposals
  calc (chargesOf items).filterMap (·.inForce? (items ++ r.delta)) ++ rest.map Charge.terms
      |>.Perm (((termsInForce items).filter (·.isOf pinned) ++
          (vs.filterMap (·.2.proposal?)).map Charge.terms) ++ rest.map Charge.terms) :=
        (hold.trans ((post.inForce?_settled ha hp hv).append_left _)).append_right _
    _ |>.Perm ((termsInForce items).filter (·.isOf pinned) ++ proposed.map Item.terms) := by
        rw [List.append_assoc]
        exact hproposals.append_left _

omit ha in
theorem delta_outside {i : Item} (hi : i ∈ r.delta) : i.isOf pinned = false := by
  rcases post.mem_delta hi with ⟨p, hpr, rfl⟩ | hi
  · exact hp.outside _ (post.mem_rest hpr).1
  · obtain ⟨x, hx, hix⟩ := post.mem_repairs hi
    rw [← (post.mem_charges (post.mem_issued hx).1).2, Item.isOf, (repair_parts_of_mem hix).2.2]
    rfl

omit ha in
theorem fresh_delta {later : List Item}
    (h : ((chargesOf items ++ (proposed ++ later)).map (·.id)).Nodup) :
    ((chargesOf (items ++ r.delta) ++ later).map (·.id)).Nodup := by
  rw [chargesOf_append, List.append_assoc]
  exact post.nodup_ids_delta hp.charges h

end Posting

end Invoicing
