import Invoicing.Proofs.Decimal.Remainder
import Invoicing.Proofs.Reconciliation.Finite
import Invoicing.Proofs.Reconciliation.Reordering

/-!
# Nothing is taken back twice

Over any history of reconciliations, the repairs of a charge take back no day twice and no more than
the charge amounts to (`reconcileRounds_refunds`). What a repair takes back is left of the charge as
it stands by then (`Charge.Refund`), and that is calculated exactly from all earlier repairs: a
shorter proposal need not be subtracted exactly, but the amount that stays is one that the working
precision holds. `Item.Accounted` says so of a charge and its repairs, `Traced` of all items issued.
-/

namespace Invoicing

namespace Item

/-- Whether a day is in the range of an item. -/
def covers (i : Item) (d : Date) : Prop := i.start ≤ d ∧ ∀ e ∈ i.finish, d < e

/-- Whether an item is a repair of a charge, and carries what the charge is for. -/
structure IsRepairOf (r i : Item) : Prop where
  kind : r.kind = .repair
  linked : r.linked = some i.id
  account : r.account = i.account
  subscription : r.subscription = i.subscription
  bundle : r.bundle = i.bundle
  plan : r.plan = i.plan
  phase : r.phase = i.phase

/-- Whether an item repairs a charge that is in force and not pinned, given all items issued before.
The days taken back of a recurring charge are its last ones. -/
structure Repairs (items : List Item) (pinned : List Id) (r i : Item) : Prop where
  isRepairOf : r.IsRepairOf i
  isLeft : i.isLeft items
  unpinned : i.isPinned = false
  outside : i.isOf pinned = false
  days : i.kind = .recurring → ∃ e, i.effectiveFinish items = some e ∧ r.finish = some e ∧
    i.start ≤ r.start ∧ r.start < e

/-- Whether some repairs take nothing back of a charge twice, nor more than it amounts to. -/
structure Refunded (i : Item) (repairs : List Item) : Prop where
  finite : ∀ r ∈ repairs, r.amount.amount.isFinite
  disjoint : i.kind = .recurring →
    repairs.Pairwise fun r r' => ∀ d, ¬ (r.covers d ∧ r'.covers d)
  once : i.kind = .fixed → repairs.length ≤ 1
  ge : -i.amount.amount.toRat ≤ (repairs.map (·.amount.amount.toRat)).sum
  le : (repairs.map (·.amount.amount.toRat)).sum ≤ 0

/-- What is assumed of a charge that is proposed: its amount is not negative, and a number that the
working precision holds, as whole minor units of so many digits are (`payable_of_digits`). -/
structure Payable (i : Item) : Prop where
  charge : i.kind = .fixed ∨ i.kind = .recurring
  finite : i.amount.amount.isFinite
  nonneg : 0 ≤ i.amount.amount.toRat
  held : working.Holds i.amount.amount.toRat

theorem payable_of_digits {i : Item} {c : Nat} {e v : Int}
    (hk : i.kind = .fixed ∨ i.kind = .recurring) (ha : i.amount.amount = .finite false c e)
    (hc : digitCount c ≤ working.digits)
    (hv : working.least ≤ v) (hm : IsMultiple v (Decimal.magnitude c e)) : i.Payable where
  charge := hk
  finite := by rw [ha]; rfl
  nonneg := by rw [ha]; exact Decimal.magnitude_nonneg c e
  held := by rw [ha]; exact Precision.holds_of_digits hc hv hm

theorem isRepairOf_of_repair {i r : Item} {id : Id} {start : Date} {finish : Option Date}
    {amount : Money} {invoice : Option Id} (h : i.repair id start finish amount invoice = .ok r) :
    r.IsRepairOf i := by
  obtain ⟨_, rfl⟩ := make_eq_ok_iff.1 h
  exact ⟨rfl, rfl, rfl, rfl, rfl, rfl, rfl⟩

theorem amount_nonpos {r : Item} (hk : r.kind = .repair) (hf : r.amount.amount.isFinite) :
    r.amount.amount.toRat ≤ 0 := by
  have hsound := r.sound
  rw [hk, itemFault?, Decimal.lt?_eq rfl hf, Decimal.toRat_zero] at hsound
  by_contra hpos
  rw [decide_eq_true (not_le.1 hpos)] at hsound
  split at hsound <;> simp at hsound

theorem Payable.kind_ne {i : Item} (h : i.Payable) : i.kind ≠ .repair := by
  rcases h.charge with hk | hk <;> simp [hk]

theorem Payable.isPinned_eq {i : Item} (h : i.Payable) : i.isPinned = i.subscription.isNone := by
  rcases h.charge with hk | hk <;> simp [isPinned, hk, ItemKind.isGenerated]

end Item

/-! ## One repair -/

namespace Charge

/-- What a repair of a charge takes back: nothing that is not left of the charge. -/
structure Refund (c : Charge) (r : Item) : Prop where
  isRepairOf : r.IsRepairOf c.item
  days : c.item.kind = .recurring → ∃ e, c.finish = some e ∧ r.finish = some e ∧
    c.item.start ≤ r.start ∧ r.start < e
  finite : r.amount.amount.isFinite
  held : working.Holds (c.amount.amount.toRat + r.amount.amount.toRat)
  nonneg : 0 ≤ c.amount.amount.toRat + r.amount.amount.toRat

variable {c : Charge} {id : Id} {r : Item}

section

variable (hf : c.amount.amount.isFinite) (hheld : working.Holds c.amount.amount.toRat)
include hf hheld

theorem refund_shortened {p : Charge} (hv : (Verdict.shortened p).Fits c)
    (hpe : p = .proposed p.handle p.item) (hp : p.item.Payable)
    (h : c.repair id (.shortened p) = .ok (some r)) : c.Refund r := by
  obtain ⟨hcause, hk, hle, d, e, hd, he, hlt⟩ := hv
  obtain ⟨m, r', hm, hr, hrr⟩ := repair_shortened h
  obtain rfl : r = r' := Option.some.inj hrr
  obtain ⟨-, a, ha, rfl⟩ := Money.sub_eq_ok hm
  have hamount : p.amount = p.item.amount := by rw [hpe]; rfl
  have hfinish : p.finish = p.item.finish := by rw [hpe]; rfl
  rw [hamount] at ha hle
  have hvalue : p.item.amount.amount.toRat ≤ c.amount.amount.toRat := by
    rw [Decimal.le?_eq hp.finite hf] at hle
    simpa using hle
  obtain ⟨hleft, hnonneg⟩ :=
    Decimal.sub_leaves (by decide) hp.finite hf hp.held hheld hp.nonneg hvalue ha
  have hstart : c.item.start < d := by
    obtain ⟨d', hd', hday⟩ := Item.finish_of_recurring (hcause.2.1.trans hk)
    rw [← hfinish, hd] at hd'
    rw [← hcause.2.2.2.2.2, Option.some.inj hd']
    exact hday
  have hrepair := Item.isRepairOf_of_repair hr
  obtain ⟨_, rfl⟩ := Item.make_eq_ok_iff.1 hr
  refine ⟨hrepair, fun _ => ⟨e, he, he, ?_, ?_⟩, Decimal.sub_isFinite hp.finite hf ha, hleft,
    hnonneg⟩
  · rw [hd]
    exact hstart.le
  · rw [hd]
    exact hlt

theorem refund_cancelled (hactive : c.isActive) (h : c.repair id .cancelled = .ok (some r)) :
    c.Refund r := by
  obtain ⟨m, r', hm, hr, hrr⟩ := repair_cancelled h
  obtain rfl : r = r' := Option.some.inj hrr
  obtain ⟨a, ha, rfl⟩ := Money.neg_eq_ok hm
  have hnothing : c.amount.amount.toRat + a.toRat = 0 := by
    rw [Decimal.neg_of_holds (by decide) hf hheld ha]
    ring
  have hrepair := Item.isRepairOf_of_repair hr
  obtain ⟨_, rfl⟩ := Item.make_eq_ok_iff.1 hr
  refine ⟨hrepair, fun hk => ?_, Decimal.neg_isFinite hf ha, ?_, ?_⟩
  · obtain ⟨e, he, hday⟩ := finish_of_isActive hactive hk
    obtain ⟨e', he', -⟩ := Item.finish_of_recurring hk
    exact ⟨e, he, by simp [he', he], le_rfl, hday⟩
  · rw [hnothing]
    exact working.holds_zero
  · exact hnothing.ge

theorem refund_of_repair (hactive : c.isActive) {v : Verdict} (hv : v.Fits c)
    (hp : ∀ p ∈ v.proposal?, p = .proposed p.handle p.item ∧ p.item.Payable)
    (h : c.repair id v = .ok (some r)) : c.Refund r := by
  cases v with
  | kept p => cases h
  | shortened p => exact refund_shortened hf hheld hv (hp p rfl).1 (hp p rfl).2 h
  | cancelled => exact refund_cancelled hf hheld hactive h

end

end Charge

/-! ## All repairs of a charge -/

theorem Charge.earliest_le (d : Date) (ds : List Date) :
    earliest d ds ≤ d ∧ ∀ e ∈ ds, earliest d ds ≤ e := by
  rw [earliest_eq]
  induction ds generalizing d with
  | nil => simp
  | cons x ds ih =>
    obtain ⟨hle, hall⟩ := ih (min d x)
    rw [List.foldl_cons]
    refine ⟨hle.trans (min_le_left ..), fun e he => ?_⟩
    rcases List.mem_cons.1 he with rfl | he
    · exact hle.trans (min_le_right ..)
    · exact hall e he

theorem Invoice.sum_append_eq_ok {m s : Money} {rs : List Item} {r : Item}
    (h : Invoice.sum m (rs ++ [r]) = .ok s) :
    ∃ t, Invoice.sum m rs = .ok t ∧ t.add r.amount = .ok s := by
  induction rs generalizing m with
  | nil =>
    refine ⟨m, rfl, ?_⟩
    simp only [List.nil_append, sum] at h
    split at h
    · rwa [← Except.ok.inj h]
    · cases h
  | cons i rs ih =>
    simp only [List.cons_append, sum] at h ⊢
    split at h
    · exact ih h
    · cases h

namespace Item

/-- What holds of a charge with all its repairs: they refund it in order, and what is left of it is
calculated exactly. -/
structure Accounted (i : Item) (repairs : List Item) : Prop where
  refunded : i.Refunded repairs
  exact_ : ∀ m, Invoice.sum i.amount repairs = .ok m →
    m.amount.toRat = i.amount.amount.toRat + (repairs.map (·.amount.amount.toRat)).sum ∧
    working.Holds m.amount.toRat

variable {i : Item} {repairs : List Item}

theorem Payable.accounted (h : i.Payable) : i.Accounted [] where
  refunded := ⟨by simp, fun _ => .nil, by simp, by simpa using h.nonneg, by simp⟩
  exact_ m hm := by
    obtain rfl : i.amount = m := Except.ok.inj hm
    exact ⟨by simp, h.held⟩

variable {c : Charge} {r : Item} {handle : Nat}

theorem Accounted.append (h : i.Accounted repairs) (hi : i.Payable)
    (hc : Charge.issued handle i repairs = .ok c) (hactive : c.isActive) (hr : c.Refund r) :
    i.Accounted (repairs ++ [r]) := by
  obtain ⟨-, rfl, -, hfinish, hsum⟩ := Charge.issued_parts hc
  have hvalue := (h.exact_ _ hsum).1
  have hfinite := Invoice.sum_isFinite hi.finite h.refunded.finite hsum
  have hmap : ((repairs ++ [r]).map (·.amount.amount.toRat)).sum =
      (repairs.map (·.amount.amount.toRat)).sum + r.amount.amount.toRat := by simp
  refine ⟨⟨fun b hb => ?_, fun hk => ?_, fun hk => ?_, ?_, ?_⟩, fun m hm => ?_⟩
  · rcases List.mem_append.1 hb with hb | hb
    · exact h.refunded.finite b hb
    · obtain rfl := List.mem_singleton.1 hb
      exact hr.finite
  · refine List.pairwise_append.2 ⟨h.refunded.disjoint hk, List.pairwise_singleton .., ?_⟩
    intro b hb b' hb' d hd
    obtain rfl := List.mem_singleton.1 hb'
    -- The charge ends where the earliest repair starts, and there the new one ends.
    obtain ⟨e, he, hend, -⟩ := hr.days hk
    obtain ⟨d', hd', -⟩ := Item.finish_of_recurring hk
    rw [Charge.finishAfter_recurring hk hd', he] at hfinish
    have hle : e ≤ b.start := by
      rw [← Option.some.inj (Except.ok.inj hfinish)]
      exact (Charge.earliest_le ..).2 _ (List.mem_map_of_mem hb)
    exact absurd (hd.2.2 e hend) (not_lt.2 (hle.trans hd.1.1))
  · have hnone : repairs = [] := by
      by_contra hne
      rw [Charge.finishAfter, if_neg (by simpa using hne), if_pos hk] at hfinish
      have hsome : some c.item.start = c.finish := Except.ok.inj hfinish
      simp [Charge.isActive, hk, ← hsome] at hactive
    simp [hnone]
  · have := hr.nonneg
    rw [hmap]
    linarith
  · have := h.refunded.le
    have := amount_nonpos hr.isRepairOf.kind hr.finite
    rw [hmap]
    linarith
  · obtain ⟨t, ht, hadd⟩ := Invoice.sum_append_eq_ok hm
    obtain rfl : c.amount = t := Except.ok.inj (hsum.symm.trans ht)
    obtain ⟨a, ha, rfl⟩ := Money.add_eq_ok hadd
    have hexact := Decimal.add_of_holds (by decide) hfinite hr.finite hr.held ha
    exact ⟨by rw [hexact, hvalue, hmap, add_assoc], hexact ▸ hr.held⟩

end Item

/-! ## All items issued -/

/-- What all items issued over a history keep to. -/
structure Traced (items : List Item) : Prop where
  payable : ∀ i ∈ chargesOf items, i.Payable
  ids : ((chargesOf items).map (·.id)).Nodup
  links : ∀ r ∈ items, r.kind = .repair →
    ∃ i ∈ chargesOf items, r.linked = some i.id ∧ r.subscription = i.subscription
  accounted : ∀ i ∈ chargesOf items, i.Accounted (i.repairsIn items)

theorem Traced.nil : Traced [] := ⟨by simp [chargesOf], .nil, by simp, by simp [chargesOf]⟩

theorem chargesOf_owned_subset {items : List Item} {pinned : List Id} {i : Item}
    (h : i ∈ chargesOf (owned items pinned)) : i ∈ chargesOf items :=
  mem_chargesOf.2 ⟨(mem_owned.1 (mem_chargesOf.1 h).1).1, (mem_chargesOf.1 h).2⟩

variable {items proposed : List Item} {pinned : List Id} {ids : Nat → Id} {r : Reconciliation}
  {issued rest : List Charge} {vs : List (Charge × Verdict)}

theorem Posting.item_mem_of_owned {Good : List Item → Charge → Prop}
    (post : Posting Good (owned items pinned) proposed [] ids issued rest vs r)
    {x : Charge × Verdict} (hx : x ∈ vs) : x.1.item ∈ chargesOf items :=
  chargesOf_owned_subset (post.mem_charges (post.mem_issued hx).1).1

namespace Traced

theorem ids_owned (h : Traced items) (pinned : List Id) :
    ((chargesOf (owned items pinned)).map (·.id)).Nodup :=
  ((List.filter_sublist.filter _).map _).nodup h.ids

theorem repairsIn_owned (h : Traced items) {i : Item} (hi : i ∈ chargesOf (owned items pinned)) :
    i.repairsIn (owned items pinned) = i.repairsIn items := by
  have hcharge := chargesOf_owned_subset hi
  obtain ⟨-, hpinned, hof⟩ := mem_owned.1 (mem_chargesOf.1 hi).1
  rw [(h.payable i hcharge).isPinned_eq] at hpinned
  rw [Item.repairsIn, owned, List.filter_filter]
  refine List.filter_congr fun b hb => ?_
  by_cases hrepair : b.kind = .repair ∧ b.linked = some i.id
  · obtain ⟨j, hj, hlink, hsub⟩ := h.links b hb hrepair.1
    obtain rfl : j = i := List.inj_on_of_nodup_map h.ids hj hcharge
      (Option.some.inj (hlink.symm.trans hrepair.2))
    have hout : b.isOf pinned = false := by rw [Item.isOf, hsub]; exact hof
    simp [hrepair.1, hrepair.2, Item.isPinned, hsub, hpinned, hout, ItemKind.isGenerated]
  · rcases not_and_or.1 hrepair with hrepair | hrepair <;> simp [hrepair]

section

variable (h : Traced items) (hp : ∀ p ∈ proposed, p.Payable)
  (post : Posting (fun _ _ => True) (owned items pinned) proposed [] ids issued rest vs r)
include h hp post

theorem refund {x : Charge × Verdict} (hx : x ∈ vs) {b : Item} (hb : b ∈ repairsFor ids x) :
    x.1.Refund b := by
  obtain ⟨hmem, hactive⟩ := post.mem_issued hx
  obtain ⟨hcharge, -⟩ := post.mem_charges hmem
  obtain ⟨hstand, -⟩ := post.stands _ hmem
  rw [h.repairsIn_owned hcharge] at hstand
  have hitem := chargesOf_owned_subset hcharge
  obtain ⟨-, -, -, -, hsum⟩ := Charge.issued_parts hstand
  have haccounted := h.accounted _ hitem
  obtain ⟨o, ho⟩ := post.settles.made x hx
  have hbo : o = some b := by simpa [repairsFor, ho] using hb
  refine Charge.refund_of_repair
    (Invoice.sum_isFinite (h.payable _ hitem).finite haccounted.refunded.finite hsum)
    (haccounted.exact_ _ hsum).2 hactive (post.settles.fits x hx) (fun p hpx => ?_) (hbo ▸ ho)
  obtain ⟨hitem, hpe⟩ := proposals_eq_of_mem (post.mem_proposals hx hpx)
  exact ⟨hpe, hp _ hitem⟩

theorem repairs {b : Item} (hb : b ∈ r.difference.repairs) :
    ∃ i ∈ chargesOf items, b.Repairs items pinned i := by
  obtain ⟨x, hx, hbx⟩ := post.mem_repairs hb
  obtain ⟨hmem, hactive⟩ := post.mem_issued hx
  obtain ⟨hcharge, -⟩ := post.mem_charges hmem
  obtain ⟨-, hpinned, hof⟩ := mem_owned.1 (mem_chargesOf.1 hcharge).1
  have hrefund := h.refund hp post hx hbx
  have hfound : x.1.Found (owned items pinned) := ⟨hcharge, hpinned, (post.stands _ hmem).1⟩
  obtain ⟨hleft, hfinish⟩ := hfound.isLeft
  rw [Item.isLeft, Item.effectiveFinish, h.repairsIn_owned hcharge] at hleft
  rw [Item.effectiveFinish, h.repairsIn_owned hcharge] at hfinish
  refine ⟨x.1.item, chargesOf_owned_subset hcharge, hrefund.isRepairOf, ?_, hpinned, hof,
    fun hk => ?_⟩
  · rw [← hactive, hleft]
    rfl
  · obtain ⟨e, he, hend, hdays⟩ := hrefund.days hk
    exact ⟨e, (hfinish hactive).symm.trans he, hend, hdays⟩

theorem repairsIn_cases {i : Item} (hi : i ∈ chargesOf items) :
    i.repairsIn (items ++ r.delta) = i.repairsIn items ∨
    ∃ c b, Charge.issued c.handle i (i.repairsIn items) = .ok c ∧ c.isActive ∧ c.Refund b ∧
      i.repairsIn (items ++ r.delta) = i.repairsIn items ++ [b] := by
  rw [Item.repairsIn_append, post.repairsIn_delta fun p hmem => (hp p hmem).kind_ne]
  by_cases hx : ∃ x ∈ vs, x.1.item.id = i.id
  · obtain ⟨x, hx, hid⟩ := hx
    obtain rfl := List.inj_on_of_nodup_map h.ids (post.item_mem_of_owned hx) hi hid
    obtain ⟨hmem, hactive⟩ := post.mem_issued hx
    have hstand := (post.stands _ hmem).1
    rw [h.repairsIn_owned (post.mem_charges hmem).1] at hstand
    obtain ⟨o, ho⟩ := post.settles.made x hx
    have hrepairs : repairsFor ids x = o.toList := by simp [repairsFor, ho]
    rw [post.repairsIn_repairs (h.ids_owned pinned) hx, hrepairs]
    cases o with
    | none => exact .inl (List.append_nil _)
    | some b => exact .inr ⟨x.1, b, hstand, hactive, h.refund hp post hx (by simp [hrepairs]), rfl⟩
  · rw [post.repairsIn_repairs_eq_nil fun x hxv hid => hx ⟨x, hxv, hid⟩]
    exact .inl (List.append_nil _)

omit hp in
theorem repairsIn_of_fresh (hcharges : ∀ p ∈ proposed, p.kind ≠ .repair) {i : Item}
    (hi : ∀ j ∈ chargesOf items, j.id ≠ i.id) : i.repairsIn (items ++ r.delta) = [] := by
  rw [Item.repairsIn_append, post.repairsIn_delta hcharges,
    post.repairsIn_repairs_eq_nil fun x hx => hi _ (post.item_mem_of_owned hx), List.append_nil]
  refine List.filter_eq_nil_iff.2 fun b hb hlink => ?_
  simp only [Bool.and_eq_true, decide_eq_true_eq] at hlink
  obtain ⟨j, hj, hj', -⟩ := h.links b hb hlink.1
  exact hi j hj (Option.some.inj (hj'.symm.trans hlink.2))

theorem append_delta (hids : ((chargesOf items ++ proposed).map (·.id)).Nodup) :
    Traced (items ++ r.delta) := by
  have hcharges : ∀ p ∈ proposed, p.kind ≠ .repair := fun p hmem => (hp p hmem).kind_ne
  refine ⟨fun i hi => ?_, ?_, fun b hb hk => ?_, fun i hi => ?_⟩
  · rw [chargesOf_append, post.chargesOf_delta_eq hcharges] at hi
    rcases List.mem_append.1 hi with hi | hi
    · exact h.payable i hi
    · obtain ⟨p, hpr, rfl⟩ := List.mem_map.1 hi
      exact hp _ (post.mem_rest hpr).1
  · have hnodup : ((chargesOf items ++ (chargesOf r.delta ++ [])).map Item.id).Nodup :=
      post.nodup_ids_delta hcharges (by simpa using hids)
    rwa [List.append_nil, ← chargesOf_append] at hnodup
  · rw [chargesOf_append]
    rcases List.mem_append.1 hb with hb | hb
    · obtain ⟨i, hi, hlink⟩ := h.links b hb hk
      exact ⟨i, List.mem_append_left _ hi, hlink⟩
    rcases post.mem_delta hb with ⟨p, hpr, rfl⟩ | hb
    · exact absurd hk (hcharges _ (post.mem_rest hpr).1)
    · obtain ⟨x, hx, hbx⟩ := post.mem_repairs hb
      have hitem := post.item_mem_of_owned hx
      exact ⟨x.1.item, List.mem_append_left _ hitem, (repair_parts_of_mem hbx).2⟩
  · rw [chargesOf_append, post.chargesOf_delta_eq hcharges] at hi
    rcases List.mem_append.1 hi with hi | hi
    · have haccounted := h.accounted i hi
      rcases h.repairsIn_cases hp post hi with hsame | ⟨c, b, hstand, hactive, hb, hmore⟩
      · rwa [hsame]
      · rw [hmore]
        exact haccounted.append (h.payable i hi) hstand hactive hb
    · obtain ⟨p, hpr, rfl⟩ := List.mem_map.1 hi
      have hmem := (post.mem_rest hpr).1
      rw [List.map_append, List.nodup_append] at hids
      rw [h.repairsIn_of_fresh post hcharges fun j hj =>
        hids.2.2 _ (List.mem_map_of_mem hj) _ (List.mem_map_of_mem hmem)]
      exact (hp _ hmem).accounted

end

end Traced

/-! ## Histories -/

/-- What one reconciliation keeps to, given all items issued before: every repair takes back
something that is left of a charge that is in force and not pinned, no two of them of one charge,
and afterwards no charge has been taken back twice or beyond its amount. -/
structure Reconciliation.Refunds (before : List Item) (pinned : List Id) (r : Reconciliation) :
    Prop where
  repairs : ∀ b ∈ r.difference.repairs, ∃ i ∈ chargesOf before, b.Repairs before pinned i
  distinct : (r.difference.repairs.map (·.linked)).Nodup
  refunded : ∀ i ∈ chargesOf (before ++ r.delta), i.Refunded (i.repairsIn (before ++ r.delta))

/-- Reconciliations refund nothing twice, over a history of any length. -/
theorem reconcileRounds_refunds {rounds : List Round}
    (hp : ∀ round ∈ rounds, ∀ p ∈ round.proposed, p.Payable)
    (hids : ((rounds.flatMap (·.proposed)).map (·.id)).Nodup) {s s' : Session}
    {results : List Reconciliation}
    (hrun : (reconcileRounds [] rounds).from_ s = (.ok results, s')) :
    results.length = rounds.length ∧
    ∀ (n : Nat) (round : Round) (result : Reconciliation),
      rounds[n]? = some round → results[n]? = some result →
        result.Refunds ((results.take n).flatMap (·.delta)) round.pinned := by
  -- The induction is on the rounds left, for any items issued before that are traced.
  suffices hall : ∀ (items : List Item) (s s' : Session) (results : List Reconciliation),
      Traced items → ((chargesOf items ++ rounds.flatMap (·.proposed)).map (·.id)).Nodup →
      (reconcileRounds items rounds).from_ s = (.ok results, s') →
      results.length = rounds.length ∧
      ∀ (n : Nat) (round : Round) (result : Reconciliation),
        rounds[n]? = some round → results[n]? = some result →
          result.Refunds (items ++ (results.take n).flatMap (·.delta)) round.pinned by
    simpa using hall [] s s' results Traced.nil (by simpa [chargesOf] using hids) hrun
  clear hids hrun s s' results
  induction rounds with
  | nil =>
    intro items s s' results _ _ hrun
    rw [reconcileRounds, Run.from_pure] at hrun
    obtain rfl := Except.ok.inj (congrArg Prod.fst hrun)
    simp
  | cons round rounds ih =>
    intro items s s' results htraced hids hrun
    obtain ⟨r, s₁, hr, hrun⟩ := Run.from_bind_eq_ok hrun
    obtain ⟨results', s₂, hrest, hrun⟩ := Run.from_bind_eq_ok hrun
    obtain rfl := Except.ok.inj (congrArg Prod.fst hrun)
    obtain ⟨ids, hr⟩ := reconciled_of_run hr
    obtain ⟨issued, rest, post⟩ := posting_owned hr
    have hp₁ := hp round (by simp)
    rw [List.flatMap_cons] at hids
    have hids₁ : ((chargesOf items ++ round.proposed).map (·.id)).Nodup := by
      rw [← List.append_assoc, List.map_append] at hids
      exact hids.of_append_left
    have htraced₁ := htraced.append_delta hp₁ post hids₁
    have hlater := post.nodup_ids_delta (fun p hmem => (hp₁ p hmem).kind_ne) hids
    rw [← List.append_assoc, ← chargesOf_append] at hlater
    obtain ⟨hlength, hall⟩ := ih (fun x hx => hp x (by simp [hx])) _ _ _ _ htraced₁ hlater hrest
    refine ⟨by simp [hlength], fun n round' result hround hresult => ?_⟩
    cases n with
    | zero =>
      obtain rfl : round = round' := by simpa using hround
      obtain rfl : r = result := by simpa using hresult
      rw [List.take_zero, List.flatMap_nil, List.append_nil]
      exact ⟨fun b hb => htraced.repairs hp₁ post hb, post.nodup_links (htraced.ids_owned _),
        fun i hi => (htraced₁.accounted i hi).refunded⟩
    | succ n =>
      rw [List.take_succ_cons, List.flatMap_cons, ← List.append_assoc]
      exact hall n round' result hround hresult

/-- Two months are shortened to one and then cancelled; the setup is cancelled once it is no longer
pinned. -/
def cancelledRounds : List Round := shortenedRounds ++ [⟨[], []⟩]

theorem payable_of_mem_cancelledRounds :
    ∀ round ∈ cancelledRounds, ∀ p ∈ round.proposed, p.Payable := by
  intro round hround p hp
  simp only [cancelledRounds, shortenedRounds, List.cons_append, List.nil_append, List.mem_cons,
    List.not_mem_nil, or_false] at hround
  rcases hround with rfl | rfl | rfl
  · rcases List.mem_cons.1 hp with rfl | hp
    · exact Item.payable_of_digits (.inr rfl) rfl (by decide +kernel) (by decide) (.magnitude ..)
    · obtain rfl := List.mem_singleton.1 hp
      exact Item.payable_of_digits (.inl rfl) rfl (by decide +kernel) (by decide) (.magnitude ..)
  · obtain rfl := List.mem_singleton.1 hp
    exact Item.payable_of_digits (.inr rfl) rfl (by decide +kernel) (by decide) (.magnitude ..)
  · simp at hp

theorem reconcileRounds_refunds_cancelled :
    ((∀ round ∈ cancelledRounds, ∀ p ∈ round.proposed, p.Payable) ∧
      ((cancelledRounds.flatMap (·.proposed)).map (·.id)).Nodup) ∧
    ∃ results s', (reconcileRounds [] cancelledRounds).from_ .start = (.ok results, s') ∧
      ∃ i ∈ chargesOf (results.flatMap (·.delta)),
        (i.repairsIn (results.flatMap (·.delta))).length = 2 ∧
        i.Refunded (i.repairsIn (results.flatMap (·.delta))) := by
  have hids : ((cancelledRounds.flatMap (·.proposed)).map (·.id)).Nodup := by decide
  refine ⟨⟨payable_of_mem_cancelledRounds, hids⟩, ?_⟩
  have hcheck : ((reconcileRounds [] cancelledRounds).from_ .start).1.toOption.any
      (fun results => (chargesOf (results.flatMap (·.delta))).any fun i =>
        (i.repairsIn (results.flatMap (·.delta))).length = 2) = true := by decide +kernel
  obtain ⟨results, hok, hcheck⟩ := toOption_any_iff.1 hcheck
  obtain ⟨i, hi, htwo⟩ := List.any_eq_true.1 hcheck
  have hrun : (reconcileRounds [] cancelledRounds).from_ .start = (.ok results, _) :=
    Prod.ext hok rfl
  obtain ⟨hlength, hall⟩ := reconcileRounds_refunds payable_of_mem_cancelledRounds hids hrun
  refine ⟨results, _, hrun, i, hi, by simpa using htwo, ?_⟩
  match results, hlength, hall, hi with
  | [a, b, c], _, hall, hi =>
    have hlast := (hall 2 _ c rfl rfl).refunded i
    simp only [List.take_succ_cons, List.take_zero, List.flatMap_cons, List.flatMap_nil,
      List.append_nil, List.append_assoc] at hlast hi ⊢
    exact hlast hi

/-- An amount that reaches below the least exponent is rounded when it is taken back, and the repair
may then be more than the charge. -/
theorem reconcileRounds_refunds_below_range :
    let rounds : List Round := [⟨[setupCharge 10 1 (.finite false 15 (-1000027))], []⟩, ⟨[], []⟩]
    (∀ round ∈ rounds, ∀ p ∈ round.proposed, p.kind = .fixed ∧
      ∃ c e, p.amount.amount = .finite false c e ∧ digitCount c ≤ 28) ∧
    ((rounds.flatMap (·.proposed)).map (·.id)).Nodup ∧
    ∃ results s', (reconcileRounds [] rounds).from_ .start = (.ok results, s') ∧
      ∃ i ∈ chargesOf (results.flatMap (·.delta)),
        ((i.repairsIn (results.flatMap (·.delta))).map (·.amount.amount.toRat)).sum <
          -i.amount.amount.toRat := by
  intro rounds
  refine ⟨?_, by decide, ?_⟩
  · intro round hround p hp
    simp only [rounds, List.mem_cons, List.not_mem_nil, or_false] at hround
    rcases hround with rfl | rfl
    · obtain rfl := List.mem_singleton.1 hp
      exact ⟨rfl, 15, -1000027, rfl, by decide +kernel⟩
    · simp at hp
  have hcheck : ((reconcileRounds [] rounds).from_ .start).1.toOption.any
      (fun results => (chargesOf (results.flatMap (·.delta))).any fun i =>
        i.amount.amount = .finite false 15 (-1000027) &&
          (i.repairsIn (results.flatMap (·.delta))).map (·.amount.amount) =
            [.finite true 2 (-1000026)]) = true := by decide +kernel
  obtain ⟨results, hok, hcheck⟩ := toOption_any_iff.1 hcheck
  obtain ⟨i, hi, hamounts⟩ := List.any_eq_true.1 hcheck
  simp only [Bool.and_eq_true, decide_eq_true_eq] at hamounts
  refine ⟨results, _, Prod.ext hok rfl, i, hi, ?_⟩
  have hsum : (i.repairsIn (results.flatMap (·.delta))).map (·.amount.amount.toRat) =
      [Decimal.toRat (.finite true 2 (-1000026))] := by
    have := congrArg (List.map Decimal.toRat) hamounts.2
    rwa [List.map_map] at this
  have hexp : (-1000026 : Int) = -1000027 + 1 := rfl
  rw [hsum, hamounts.1, List.sum_singleton, hexp]
  simp only [Decimal.toRat, Decimal.magnitude, if_true, Bool.false_eq_true, if_false]
  rw [zpow_add_one₀ (by norm_num)]
  have hpos : (0 : ℚ) < 10 ^ (-1000027 : Int) := by positivity
  generalize (10 : ℚ) ^ (-1000027 : Int) = x at hpos ⊢
  push_cast
  linarith

end Invoicing
