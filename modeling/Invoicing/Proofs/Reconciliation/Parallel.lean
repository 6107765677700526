import Invoicing.Proofs.Alongside
import Invoicing.Proofs.Item
import Invoicing.Proofs.Proposal.Drafts
import Invoicing.Proofs.Reconciliation.Convergence

/-!
# Ledgers settled in parallel

Ids and handles do not count when a ledger is settled: two ledgers whose charges are alike and come
in one order are settled alike (`trail_alike`, `Ledger.merge_alike`). What it takes for amounts to be
alike is left open, as long as it is kept by all that is done with them (`Money.Congruence`).
-/

namespace Invoicing

/-! ## Items alike -/

/-- What an item says, apart from its amount. -/
structure Caption where
  kind : ItemKind
  account : Id
  start : Date
  subscription : Option Id
  bundle : Option Id
  plan : Option String
  phase : Option String
  finish : Option Date
  rate : Option Decimal
  linked : Option Id
  description : String
  deriving DecidableEq

/-- What is demanded of a relation between amounts so that it is kept by comparisons and repairs. -/
structure Money.Congruence (M : Money → Money → Prop) : Prop where
  equal {m m' n n' : Money} : M m m' → M n n' → m.equal? n = m'.equal? n'
  le {m m' n n' : Money} : M m m' → M n n' →
    m.amount.le? n.amount = m'.amount.le? n'.amount
  positive {m m' : Money} : M m m' → Decimal.lt? .zero m.amount = Decimal.lt? .zero m'.amount
  sub {m m' n n' : Money} : M m m' → M n n' → Alongside M (m.sub n) (m'.sub n')
  neg {m m' : Money} : M m m' → Alongside M m.neg m'.neg

theorem Money.congruence_eq : Money.Congruence (· = ·) where
  equal := by rintro m _ n _ rfl rfl; rfl
  le := by rintro m _ n _ rfl rfl; rfl
  positive := by rintro m _ rfl; rfl
  sub := by rintro m _ n _ rfl rfl; exact .refl (fun _ => rfl) _
  neg := by rintro m _ rfl; exact .refl (fun _ => rfl) _

variable {M : Money → Money → Prop}

namespace Item

def caption (i : Item) : Caption :=
  ⟨i.kind, i.account, i.start, i.subscription, i.bundle, i.plan, i.phase, i.finish, i.rate, i.linked,
    i.description⟩

/-- Whether two items differ by no more than their ids and what is overlooked in amounts. -/
def Alike (M : Money → Money → Prop) (i j : Item) : Prop :=
  i.caption = j.caption ∧ M i.amount j.amount

theorem draft_eq_iff {i j : Item} : i.draft = j.draft ↔ Alike (· = ·) i j := by
  constructor
  · intro h
    have hcaption : i.draft.caption = j.draft.caption := congrArg caption h
    have hamount : i.draft.amount = j.draft.amount := congrArg Item.amount h
    exact ⟨hcaption, hamount⟩
  · rintro ⟨h, ha⟩
    simp only [caption, Caption.mk.injEq] at h
    simp only [draft, mk.injEq, true_and]
    exact ⟨h.1, h.2.1, h.2.2.1, ha, h.2.2.2⟩

theorem repair_alike (hM : Money.Congruence M) {i j : Item} (h : i.caption = j.caption)
    (hid : i.id = j.id) {m n : Money} (hm : M m n) (id id' : Id) (start : Date)
    (finish : Option Date) :
    Alongside (Alike M) (i.repair id start finish m none) (j.repair id' start finish n none) := by
  simp only [caption, Caption.mk.injEq] at h
  obtain ⟨-, haccount, -, hsub, hbundle, hplan, hphase, -⟩ := h
  have hfault : itemFault? .repair start finish (some i.id) m =
      itemFault? .repair start finish (some j.id) n := by
    simp only [itemFault?, hM.positive hm, Option.isNone_some]
  unfold repair make
  split
  case h_1 f hf =>
    rw [hfault] at hf
    split
    case h_1 f' hf' =>
      obtain rfl : f = f' := Option.some.inj (hf.symm.trans hf')
      exact .error f
    case h_2 hf' => rw [hf] at hf'; cases hf'
  case h_2 hf =>
    rw [hfault] at hf
    split
    case h_1 f' hf' => rw [hf] at hf'; cases hf'
    case h_2 hf' =>
      refine .ok ⟨?_, hm⟩
      simp [caption, haccount, hsub, hbundle, hplan, hphase, hid]

end Item

/-! ## Charges alike -/

namespace Charge

/-- Whether two charges stand alike: they differ by no more than their numbers and ids. -/
structure Alike (M : Money → Money → Prop) (c d : Charge) : Prop where
  item : c.item.Alike M d.item
  finish : c.finish = d.finish
  amount : M c.amount d.amount
  matched : c.matched = d.matched

namespace Alike

variable {c d p q : Charge}

theorem kind (h : Alike M c d) : c.item.kind = d.item.kind := congrArg Caption.kind h.item.1

theorem start (h : Alike M c d) : c.item.start = d.item.start := congrArg Caption.start h.item.1

theorem mark (h : Alike M c d) : Alike M { c with matched := true } { d with matched := true } :=
  ⟨h.item, h.finish, h.amount, rfl⟩

theorem isActive (h : Alike M c d) : c.isActive = d.isActive := by
  simp only [Charge.isActive, h.kind, h.start, h.finish]

theorem sameTerms? (h : Alike M c d) (h' : Alike M p q) :
    Charge.sameTerms? c p = Charge.sameTerms? d q := by
  have hcd := h.item.1
  have hpq := h'.item.1
  simp only [Item.caption, Caption.mk.injEq] at hcd hpq
  simp only [Charge.sameTerms?, hcd, hpq]

theorem sameExtent? (hM : Money.Congruence M) (h : Alike M c d) (h' : Alike M p q) :
    Charge.sameExtent? c p = Charge.sameExtent? d q := by
  simp only [Charge.sameExtent?, h.finish, h'.finish, hM.equal h.amount h'.amount]

theorem isPartOf? (hM : Money.Congruence M) (h : Alike M c d) (h' : Alike M p q) :
    Charge.isPartOf? c p = Charge.isPartOf? d q := by
  simp only [Charge.isPartOf?, h.finish, h'.finish, hM.le h.amount h'.amount]

end Alike

end Charge

/-- Pairs of charges that are alike, with handles that tell the charges of one side apart as those of
the other. -/
structure Twins (M : Money → Money → Prop) (zs : List (Charge × Charge)) : Prop where
  alike : ∀ z ∈ zs, z.1.Alike M z.2
  handles : ∀ z ∈ zs, ∀ w ∈ zs, z.1.handle = w.1.handle ↔ z.2.handle = w.2.handle

theorem Twins.open_items {zs : List (Charge × Charge)} (h : Twins M zs) :
    List.Forall₂ (Item.Alike M) (((zs.map Prod.fst).filter (!·.matched)).map (·.item))
      (((zs.map Prod.snd).filter (!·.matched)).map (·.item)) := by
  rw [List.filter_map, List.filter_map, List.map_map, List.map_map]
  have hopen : zs.filter ((fun c => !c.matched) ∘ Prod.snd) =
      zs.filter ((fun c => !c.matched) ∘ Prod.fst) :=
    List.filter_congr fun z hz => by simp only [Function.comp, (h.alike z hz).matched]
  rw [hopen, List.forall₂_map_left_iff, List.forall₂_map_right_iff, List.forall₂_same]
  exact fun z hz => (h.alike z (List.mem_of_mem_filter hz)).item

/-- Whether two verdicts name the two sides of one pair, if any. -/
inductive Verdict.Alike (zs : List (Charge × Charge)) : Verdict → Verdict → Prop
  | kept {p q : Charge} : (p, q) ∈ zs → Alike zs (.kept p) (.kept q)
  | shortened {p q : Charge} : (p, q) ∈ zs → Alike zs (.shortened p) (.shortened q)
  | cancelled : Alike zs .cancelled .cancelled

namespace Charge

variable {c d : Charge} {zs : List (Charge × Charge)}

theorem candidates?_alike (hz : ∀ z ∈ zs, z.1.Alike M z.2) (h : c.Alike M d) :
    Alongside (fun xs ys => ∃ ws, ws ⊆ zs ∧ xs = ws.map Prod.fst ∧ ys = ws.map Prod.snd)
      (c.candidates? (zs.map Prod.fst)) (d.candidates? (zs.map Prod.snd)) := by
  have hopen : ∀ z ∈ zs,
      (z.1.item.kind = c.item.kind && z.1.item.start = c.item.start && !z.1.matched) =
      (z.2.item.kind = d.item.kind && z.2.item.start = d.item.start && !z.2.matched) :=
    fun z hz' => by simp only [(hz z hz').kind, (hz z hz').start, (hz z hz').matched, h.kind, h.start]
  unfold candidates?
  rw [List.filter_map, List.filter_map]
  have hsame : zs.filter ((fun p => p.item.kind = d.item.kind && p.item.start = d.item.start &&
      !p.matched) ∘ Prod.snd) = zs.filter ((fun p => p.item.kind = c.item.kind &&
      p.item.start = c.item.start && !p.matched) ∘ Prod.fst) :=
    List.filter_congr fun z hz' => (hopen z hz').symm
  rw [hsame]
  refine (Alongside.filterM fun z hz' => ?_).mono fun xs ys => ?_
  · exact h.sameTerms? (hz z (List.mem_of_mem_filter hz'))
  · rintro ⟨ws, hws, hxs, hys⟩
    exact ⟨ws, fun w hw => List.mem_of_mem_filter (hws hw), hxs, hys⟩

theorem verdict?_alike (hM : Money.Congruence M) (hz : ∀ z ∈ zs, z.1.Alike M z.2)
    (h : c.Alike M d) : Alongside (Verdict.Alike zs) (c.verdict? (zs.map Prod.fst))
      (d.verdict? (zs.map Prod.snd)) := by
  unfold verdict?
  refine (candidates?_alike hz h).bind ?_
  rintro _ _ ⟨ws, hws, rfl, rfl⟩
  have hw : ∀ w ∈ ws, w.1.Alike M w.2 := fun w hw => hz w (hws hw)
  have hextent : ∀ w ∈ ws, sameExtent? w.1 c = sameExtent? w.2 d := fun w hmem =>
    Alike.sameExtent? hM (hw w hmem) h
  have hpart : ∀ w ∈ ws, isPartOf? w.1 c = isPartOf? w.2 d := fun w hmem =>
    Alike.isPartOf? hM (hw w hmem) h
  refine (Alongside.findM? hextent).bind ?_
  rintro _ _ ⟨o, ho, rfl, rfl⟩
  cases o with
  | some w => exact .ok (.kept (hws (ho w rfl)))
  | none =>
    dsimp only [Option.map_none]
    rw [← h.kind]
    split
    · refine (Alongside.findM? hpart).bind ?_
      rintro _ _ ⟨o, ho, rfl, rfl⟩
      cases o with
      | some w => exact .ok (.shortened (hws (ho w rfl)))
      | none => exact .ok .cancelled
    · exact .ok .cancelled

theorem repair_alike (hM : Money.Congruence M) (hz : ∀ z ∈ zs, z.1.Alike M z.2) (h : c.Alike M d)
    (hid : c.item.id = d.item.id) {v w : Verdict} (hv : v.Alike zs w) (id id' : Id) :
    Alongside (fun o o' => List.Forall₂ (Item.Alike M) o.toList o'.toList) (c.repair id v)
      (d.repair id' w) := by
  have hmade : ∀ {start : Date} {finish : Option Date} {m n : Money}, M m n →
      Alongside (fun o o' => List.Forall₂ (Item.Alike M) o.toList o'.toList)
        (c.item.repair id start finish m none >>= fun i => pure (some i))
        (d.item.repair id' start finish n none >>= fun i => pure (some i)) := fun hm =>
    (Item.repair_alike hM h.item.1 hid hm ..).bind fun i j hij => .ok (.cons hij .nil)
  have hend : c.item.finish = d.item.finish := congrArg Caption.finish h.item.1
  cases hv with
  | kept _ => exact .ok .nil
  | @shortened p q hpq =>
    have hpq : p.Alike M q := hz _ hpq
    simp only [repair, ← h.start, ← h.finish, ← hpq.finish]
    exact (hM.sub hpq.amount h.amount).bind fun m n hm => hmade hm
  | cancelled =>
    simp only [repair, ← h.start, ← h.finish, ← hend]
    exact (hM.neg h.amount).bind fun m n hm => hmade hm

end Charge

/-! ## Settling step by step -/

namespace Ledger

/-- Settles issued charges one after the other: the charges in force, each with its repair if any, and
the proposals with their marks. -/
def trail (ids : Nat → Id) (proposals : List Charge) :
    List Charge → Except Fault (List (Charge × Option Item) × List Charge)
  | [] => .ok ([], proposals)
  | c :: rest =>
    if c.isActive then do
      let v ← (c.verdict? proposals).mapError .decimal
      let r ← c.repair (ids c.handle) v
      let (steps, final) ← trail ids (markProposal proposals v) rest
      .ok ((c, r) :: steps, final)
    else trail ids proposals rest

theorem settle_trail (ids : Nat → Id) (ps cs : List Charge) :
    (settle ids ps cs).repairs = (trail ids ps cs).map (fun x => x.1.flatMap (·.2.toList)) ∧
    ∀ x, trail ids ps cs = .ok x → (settle ids ps cs).ledger.proposed = x.2 := by
  induction cs generalizing ps with
  | nil => exact ⟨rfl, fun x hx => by rw [← Except.ok.inj hx]; rfl⟩
  | cons c cs ih =>
    rw [trail, settle]
    split
    case isTrue =>
      cases hv : c.verdict? ps with
      | error s => exact ⟨rfl, fun x hx => by cases hx⟩
      | ok v =>
        dsimp only [Except.mapError]
        change _ = Except.map _ (c.repair (ids c.handle) v >>= _) ∧
          ∀ x, (c.repair (ids c.handle) v >>= _) = _ → _
        cases c.repair (ids c.handle) v with
        | error f => exact ⟨rfl, fun x hx => by cases hx⟩
        | ok r =>
          obtain ⟨hrepairs, hfinal⟩ := ih (markProposal ps v)
          change Except.map _ _ = Except.map _ (trail ids (markProposal ps v) cs >>= _) ∧
            ∀ x, (trail ids (markProposal ps v) cs >>= _) = _ → _
          rw [hrepairs]
          cases htrail : trail ids (markProposal ps v) cs with
          | error f => exact ⟨rfl, fun x hx => by cases hx⟩
          | ok x => exact ⟨rfl, fun y hy => by rw [← Except.ok.inj hy]; exact hfinal x htrail⟩
    case isFalse => exact ih ps

variable {ids ids' : Nat → Id} {zs ws : List (Charge × Charge)}

theorem mark_twins (h : Twins M zs) {p q : Charge} (hpq : (p, q) ∈ zs) :
    ∃ zs', Twins M zs' ∧ mark p.handle (zs.map Prod.fst) = zs'.map Prod.fst ∧
      mark q.handle (zs.map Prod.snd) = zs'.map Prod.snd := by
  let both (z : Charge × Charge) : Charge × Charge :=
    if z.1.handle = p.handle then
      ({ z.1 with matched := true }, { z.2 with matched := true }) else z
  have hhandle : ∀ z, (both z).1.handle = z.1.handle ∧ (both z).2.handle = z.2.handle := by
    intro z
    simp only [both]
    split <;> exact ⟨rfl, rfl⟩
  refine ⟨zs.map both, ⟨?_, ?_⟩, ?_, ?_⟩
  · intro b hb
    obtain ⟨z, hz, rfl⟩ := List.mem_map.1 hb
    simp only [both]
    split
    · exact (h.alike z hz).mark
    · exact h.alike z hz
  · intro a ha b hb
    obtain ⟨z, hz, rfl⟩ := List.mem_map.1 ha
    obtain ⟨w, hw, rfl⟩ := List.mem_map.1 hb
    rw [(hhandle z).1, (hhandle z).2, (hhandle w).1, (hhandle w).2]
    exact h.handles z hz w hw
  · rw [mark, List.map_map, List.map_map]
    refine List.map_congr_left fun z _ => ?_
    simp only [Function.comp, both]
    split <;> rfl
  · rw [mark, List.map_map, List.map_map]
    refine List.map_congr_left fun z hz => ?_
    simp only [Function.comp, both, ← h.handles z hz _ hpq]
    split <;> rfl

theorem markProposal_twins (h : Twins M zs) {v w : Verdict} (hv : v.Alike zs w) :
    ∃ zs', Twins M zs' ∧ markProposal (zs.map Prod.fst) v = zs'.map Prod.fst ∧
      markProposal (zs.map Prod.snd) w = zs'.map Prod.snd := by
  cases hv with
  | kept hpq => exact mark_twins h hpq
  | shortened hpq => exact mark_twins h hpq
  | cancelled => exact ⟨zs, h, rfl, rfl⟩

/-- Whether two steps settle charges that are alike, with repairs that are alike. -/
def StepAlike (M : Money → Money → Prop) (x y : Charge × Option Item) : Prop :=
  x.1.Alike M y.1 ∧ List.Forall₂ (Item.Alike M) x.2.toList y.2.toList

/-- Charges that are alike are settled alike. The induction is on the pairs of issued charges, for any
proposals that are alike. -/
theorem trail_alike (hM : Money.Congruence M) (ids ids' : Nat → Id) (hz : Twins M zs)
    (hw : ∀ w ∈ ws, w.1.Alike M w.2 ∧ w.1.item.id = w.2.item.id) :
    Alongside (fun x y => List.Forall₂ (StepAlike M) x.1 y.1 ∧
        ∃ zs', Twins M zs' ∧ x.2 = zs'.map Prod.fst ∧ y.2 = zs'.map Prod.snd)
      (trail ids (zs.map Prod.fst) (ws.map Prod.fst))
      (trail ids' (zs.map Prod.snd) (ws.map Prod.snd)) := by
  induction ws generalizing zs with
  | nil => exact .ok ⟨.nil, zs, hz, rfl, rfl⟩
  | cons w ws ih =>
    obtain ⟨hlike, hid⟩ := hw w (by simp)
    have ih := fun {zs} (hz : Twins M zs) => ih hz fun x hx => hw x (by simp [hx])
    rw [List.map_cons, List.map_cons, trail, trail, ← hlike.isActive]
    split
    case isFalse => exact ih hz
    case isTrue =>
      refine ((Charge.verdict?_alike hM hz.alike hlike).mapError _).bind fun v v' hv => ?_
      refine (Charge.repair_alike hM hz.alike hlike hid hv _ _).bind fun r r' hr => ?_
      obtain ⟨zs', hz', hfst, hsnd⟩ := markProposal_twins hz hv
      rw [hfst, hsnd]
      refine (ih hz').bind ?_
      rintro ⟨steps, final⟩ ⟨steps', final'⟩ ⟨hsteps, hfinal⟩
      exact .ok ⟨.cons ⟨hlike, hr⟩ hsteps, hfinal⟩

theorem merge_trail (l : Ledger) (ids : Nat → Id) : (l.merge ids).1 =
    (trail ids l.sorted.proposed l.sorted.issued).map fun x =>
      ⟨(x.2.filter (!·.matched)).map (·.item), x.1.flatMap (·.2.toList)⟩ := by
  obtain ⟨hrepairs, hfinal⟩ := settle_trail ids l.sorted.proposed l.sorted.issued
  rw [merge]
  dsimp only
  rw [hrepairs]
  cases htrail : trail ids l.sorted.proposed l.sorted.issued with
  | error f => rfl
  | ok x =>
    dsimp only [Except.map]
    rw [unsettled, hfinal x htrail]

end Ledger

/-! ## Ledgers alike -/

/-- Pairs of charges that are alike, the charges of one side in the order of those of the other. -/
structure Aligned (M : Money → Money → Prop) (zs : List (Charge × Charge)) : Prop where
  alike : ∀ z ∈ zs, z.1.Alike M z.2
  order : ∀ z ∈ zs, ∀ w ∈ zs, z.1.handle < w.1.handle ↔ z.2.handle < w.2.handle

namespace Aligned

variable {zs : List (Charge × Charge)}

theorem subset {ws : List (Charge × Charge)} (h : Aligned M zs) (hws : ws ⊆ zs) : Aligned M ws :=
  ⟨fun w hw => h.alike w (hws hw), fun w hw x hx => h.order w (hws hw) x (hws hx)⟩

theorem twins (h : Aligned M zs) : Twins M zs where
  alike := h.alike
  handles z hz w hw := by
    have hzw := h.order z hz w hw
    have hwz := h.order w hw z hz
    omega

theorem of_pairwise (ha : ∀ z ∈ zs, z.1.Alike M z.2)
    (hfst : (zs.map Prod.fst).Pairwise fun c d => c.handle < d.handle)
    (hsnd : (zs.map Prod.snd).Pairwise fun c d => c.handle < d.handle) : Aligned M zs := by
  rw [List.pairwise_map] at hfst hsnd
  refine ⟨ha, fun z hz w hw => ?_⟩
  have hboth := hfst.and hsnd
  exact List.Pairwise.forall_of_forall_of_flip
    (R := fun z w : Charge × Charge => z.1.handle < w.1.handle ↔ z.2.handle < w.2.handle)
    (fun _ _ => by simp) (hboth.imp fun h => by omega)
    (hboth.imp fun h => by simp only [flip]; omega) hz hw

theorem sorted (h : Aligned M zs) : ∃ ws : List (Charge × Charge), ws.Perm zs ∧
    Charge.sorted (zs.map Prod.fst) = ws.map Prod.fst ∧
    Charge.sorted (zs.map Prod.snd) = ws.map Prod.snd := by
  refine ⟨zs.mergeSort fun a b => !b.1.rank.lex a.1.rank (· < ·), List.mergeSort_perm .., ?_, ?_⟩
  · exact (List.map_mergeSort (f := Prod.fst) fun _ _ _ _ => rfl).symm
  · refine (List.map_mergeSort (f := Prod.snd) fun a ha b hb => ?_).symm
    have hab := h.alike a ha
    have hbb := h.alike b hb
    have horder : (decide ((b.1.handle : Int) < a.1.handle)) =
        decide ((b.2.handle : Int) < a.2.handle) := by
      simp only [Nat.cast_lt, h.order b hb a ha]
    simp only [Charge.rank, hab.start, hbb.start, hab.finish, hbb.finish, hab.kind, hbb.kind,
      List.lex, horder, Bool.and_false, Bool.or_false]

end Aligned

/-- Whether two differences are alike, item by item. -/
structure Difference.Alike (M : Money → Money → Prop) (d e : Difference) : Prop where
  newItems : List.Forall₂ (Item.Alike M) d.newItems e.newItems
  repairs : List.Forall₂ (Item.Alike M) d.repairs e.repairs

theorem Difference.Alike.items {d e : Difference} (h : d.Alike M e) :
    List.Forall₂ (Item.Alike M) d.items e.items := List.rel_append h.newItems h.repairs

theorem Ledger.merge_alike (hM : Money.Congruence M) (ids ids' : Nat → Id)
    {zs ws : List (Charge × Charge)} (hz : Aligned M zs) (hw : Aligned M ws)
    (hid : ∀ w ∈ ws, w.1.item.id = w.2.item.id) :
    Alongside (Difference.Alike M)
      ((⟨ws.map Prod.fst, zs.map Prod.fst⟩ : Ledger).merge ids).1
      ((⟨ws.map Prod.snd, zs.map Prod.snd⟩ : Ledger).merge ids').1 := by
  obtain ⟨zs', hzs, hzfst, hzsnd⟩ := hz.sorted
  obtain ⟨ws', hws, hwfst, hwsnd⟩ := hw.sorted
  rw [merge_trail, merge_trail]
  simp only [Ledger.sorted, hzfst, hzsnd, hwfst, hwsnd]
  refine (trail_alike hM ids ids' (hz.subset hzs.subset).twins fun w hmem =>
    ⟨hw.alike w (hws.subset hmem), hid w (hws.subset hmem)⟩).map ?_
  rintro ⟨steps, _⟩ ⟨steps', _⟩ ⟨hsteps, zs'', hz'', rfl, rfl⟩
  exact ⟨hz''.open_items, List.rel_flatMap hsteps fun _ _ h => h.2⟩

end Invoicing
