import Invoicing.Proofs.Reconciliation.Settling
import Invoicing.Proofs.Run

/-!
# Ledgers together

A reconciliation settles one ledger for each subscription. `ledgers` splits the charges up, each
into one ledger, so that what holds of every ledger holds of all charges together: `settles_ledgers`
puts the settlements together, `settleAll_isOk` and `settleAll_kept` say when there are such. Last,
`reconcile_from` takes the log out: a reconciliation comes to `reconciled`.
-/

namespace Invoicing

/-! ## Splitting by a key -/

namespace Holdings

variable {α : Type} [DecidableEq α]

theorem mem_distinct {x : α} {l : List α} : x ∈ distinct l ↔ x ∈ l := by
  induction l with
  | nil => simp [distinct]
  | cons a l ih =>
    by_cases h : x = a
    · simp [distinct, h]
    · simp [distinct, h, ih]

theorem nodup_distinct (l : List α) : (distinct l).Nodup := by
  induction l with
  | nil => exact .nil
  | cons a l ih =>
    rw [distinct, List.nodup_cons]
    exact ⟨fun h => by simpa using List.of_mem_filter h, ih.filter _⟩

end Holdings

theorem flatMap_filter_perm {α κ : Type} [DecidableEq κ] (key : α → κ) {ks : List κ} {xs : List α}
    (hn : ks.Nodup) (h : ∀ x ∈ xs, key x ∈ ks) :
    (ks.flatMap fun k => xs.filter (key · = k)).Perm xs := by
  induction ks generalizing xs with
  | nil =>
    obtain rfl : xs = [] := List.eq_nil_iff_forall_not_mem.2 fun x hx => by simpa using h x hx
    exact .refl _
  | cons k ks ih =>
    rw [List.nodup_cons] at hn
    have hothers : (ks.flatMap fun j => xs.filter (key · = j)) =
        ks.flatMap fun j => (xs.filter fun x => !decide (key x = k)).filter (key · = j) := by
      refine List.flatMap_congr fun j hj => ?_
      rw [List.filter_filter]
      refine List.filter_congr fun x _ => ?_
      have hne : key x = j → key x ≠ k := fun hx hk => hn.1 (hk.symm.trans hx ▸ hj)
      by_cases hx : key x = j <;> simp_all
    rw [List.flatMap_cons, hothers]
    refine (List.Perm.append_left _ (ih hn.2 fun x hx => ?_)).trans (List.filter_append_perm _ _)
    obtain ⟨hx, hk⟩ := List.mem_filter.1 hx
    simpa [show key x ≠ k by simpa using hk] using h x hx

/-! ## Settling all ledgers -/

/-- Settles ledgers one after the other, without a log. -/
def settleAll (ids : Nat → Id) (ls : List (Option Id × Ledger)) : Except Fault Difference := do
  let ds ← ls.mapM fun l => (l.2.merge ids).1
  return ⟨ds.flatMap (·.newItems), ds.flatMap (·.repairs)⟩

theorem quiet_reconcileLedger (ids : Nat → Id) (s : Option Id) (l : Ledger) :
    Run.Quiet (reconcileLedger ids s l) (l.merge ids).1 := by
  rw [← bind_pure (l.merge ids).1, reconcileLedger]
  refine (Run.Quiet.ofExcept (l.merge ids).1).bind fun d _ => ?_
  dsimp only
  split
  · exact (Run.Quiet.log _ _ _ _).bind (y := fun _ => .ok d) fun _ _ => Run.Quiet.pure d
  · exact Run.Quiet.pure d

theorem quiet_reconcileLedgers (ids : Nat → Id) (ls : List (Option Id × Ledger)) :
    Run.Quiet (reconcileLedgers ids ls) (settleAll ids ls) :=
  (Run.Quiet.mapM ls fun l _ => quiet_reconcileLedger ids l.1 l.2).bind fun _ _ => Run.Quiet.pure _

section

variable {ids : Nat → Id} {issued proposed : List Charge}

/-- The part of some charges that belongs to one subscription. -/
abbrev ofSubscription (s : Option Id) (cs : List Charge) : List Charge :=
  cs.filter (·.item.subscription = s)

theorem subscription_of_mem {s : Option Id} {cs : List Charge} :
    ∀ c ∈ ofSubscription s cs, c.item.subscription = s :=
  fun _ hc => by simpa using List.of_mem_filter hc

/-- The verdicts by which the ledgers of a reconciliation are settled. -/
def verdicts (issued proposed : List Charge) : List (Charge × Verdict) :=
  (ledgers issued proposed).flatMap (·.2.verdicts)

theorem mergeAll_settles {ss : List (Option Id)} {ds : List Difference}
    (hn : (proposed.map (·.handle)).Nodup) (hopen : ∀ p ∈ proposed, p.matched = false)
    (h : (ss.map fun s => (s, (⟨ofSubscription s issued, ofSubscription s proposed⟩ : Ledger))).mapM
      (fun l => (l.2.merge ids).1) = .ok ds) :
    ∃ rest, Settles ids (ss.flatMap fun s => ofSubscription s issued)
      (ss.flatMap fun s => ofSubscription s proposed) (ds.flatMap (·.repairs)) rest
      (ss.flatMap fun s => Ledger.verdicts ⟨ofSubscription s issued, ofSubscription s proposed⟩) ∧
      ds.flatMap (·.newItems) = rest.map (·.item) := by
  induction ss generalizing ds with
  | nil =>
    obtain rfl : [] = ds := by simpa [pure, Except.pure] using h
    exact ⟨[], Settles.nil ids, rfl⟩
  | cons s ss ih =>
    obtain ⟨d, ds, hd, hds, rfl⟩ := mapM_eq_ok_cons.1 h
    obtain ⟨rest', hs', hnew'⟩ := ih hds
    obtain ⟨rest, hs, hnew⟩ := Ledger.merge_settles (s := s)
      (((List.filter_sublist).map _).nodup hn)
      (fun p hp => hopen p (List.mem_of_mem_filter hp)) subscription_of_mem subscription_of_mem hd
    refine ⟨rest ++ rest', hs.append hs', ?_⟩
    rw [List.flatMap_cons, hnew, hnew', List.map_append]

/-- What settling the ledgers of a reconciliation comes to is a settlement of all charges. -/
theorem settles_ledgers {d : Difference} (hn : (proposed.map (·.handle)).Nodup)
    (hopen : ∀ p ∈ proposed, p.matched = false)
    (h : settleAll ids (ledgers issued proposed) = .ok d) :
    ∃ rest, Settles ids issued proposed d.repairs rest (verdicts issued proposed) ∧
      d.newItems = rest.map (·.item) := by
  obtain ⟨ds, hds, rfl⟩ := map_eq_ok_iff.1 h
  obtain ⟨rest, hs, hnew⟩ := mergeAll_settles hn hopen hds
  rw [verdicts, ledgers, List.flatMap_map]
  refine ⟨rest, hs.perm ?_ ?_, hnew⟩ <;>
    refine flatMap_filter_perm (fun c : Charge => c.item.subscription) (Holdings.nodup_distinct _)
      fun c hc => ?_ <;>
    rw [Holdings.mem_distinct] <;> exact List.mem_map_of_mem (by simp [hc])

theorem settleAll_of_merge {P : List Item → Prop} (hP : P []) (happ : ∀ x y, P x → P y → P (x ++ y))
    (h : ∀ s, ∃ d, ((⟨ofSubscription s issued, ofSubscription s proposed⟩ : Ledger).merge ids).1 =
      .ok d ∧ P d.repairs) :
    ∃ d, settleAll ids (ledgers issued proposed) = .ok d ∧ P d.repairs := by
  choose f hf hrep using h
  have hmap := mapM_eq_ok_of_forall (ε := Fault)
    (f := fun l : Option Id × Ledger => (l.2.merge ids).1) (g := fun l => f l.1)
    (l := ledgers issued proposed) fun l hl => by
      obtain ⟨s, _, rfl⟩ := List.mem_map.1 hl
      exact hf s
  refine ⟨_, by rw [settleAll, hmap]; rfl, ?_⟩
  induction ledgers issued proposed with
  | nil => exact hP
  | cons l ls ih => exact happ _ _ (hrep l.1) ih

theorem settleAll_isOk (hc : ∀ c ∈ issued, c.Comparable) (hp : ∀ p ∈ proposed, p.Comparable)
    (hrepair : ∀ c ∈ issued, c.isActive → ∀ v : Verdict, v.Fits c →
      (∀ p ∈ v.proposal?, p ∈ proposed) → ∃ r, c.repair (ids c.handle) v = .ok r) :
    ∃ d, settleAll ids (ledgers issued proposed) = .ok d := by
  suffices h : ∃ d, settleAll ids (ledgers issued proposed) = .ok d ∧ True from
    h.imp fun _ h => h.1
  refine settleAll_of_merge (P := fun _ => True) trivial (fun _ _ _ _ => trivial) fun s => ?_
  have hsorted : ∀ cs : List Charge, ∀ c ∈ Charge.sorted (ofSubscription s cs),
      c ∈ cs ∧ c.item.subscription = s := fun cs c h => by
    have hc := (Ledger.sorted_perm _).mem_iff.1 h
    exact ⟨List.mem_of_mem_filter hc, subscription_of_mem c hc⟩
  obtain ⟨rs, hrs⟩ : ∃ rs, (Ledger.settle ids (Charge.sorted (ofSubscription s proposed))
      (Charge.sorted (ofSubscription s issued))).repairs = .ok rs := Ledger.settle_isOk
    (fun c h => hc c (hsorted _ c h).1) (fun p h => hp p (hsorted _ p h).1)
    (fun p h => (hsorted _ p h).2) (fun c h => (hsorted _ c h).2)
    fun c h ha v hv hm => hrepair c (hsorted _ c h).1 ha v hv
      fun p hp => (hsorted _ p (hm p hp).1).1
  exact ⟨_, by simp only [Ledger.merge, Ledger.sorted, hrs]; rfl, trivial⟩

theorem settleAll_kept (hn : (proposed.map (·.handle)).Nodup)
    (hopen : ∀ p ∈ proposed, p.matched = false) (hc : ∀ c ∈ issued, c.Comparable)
    (hrate : ∀ c ∈ issued, ∀ r ∈ c.item.rate, r.isFinite) (hp : ∀ p ∈ proposed, p.Comparable)
    (hsub : ((issued.filter (·.isActive)).map Charge.terms).Subperm (proposed.map Charge.terms)) :
    ∃ d, settleAll ids (ledgers issued proposed) = .ok d ∧ d.repairs = [] := by
  refine settleAll_of_merge (P := fun rs => rs = []) rfl (fun x y hx hy => by rw [hx, hy]; rfl)
    fun s => ?_
  have hperm : ∀ cs : List Charge,
      (Charge.sorted (ofSubscription s cs)).Perm (ofSubscription s cs) :=
    fun cs => Ledger.sorted_perm _
  have hsorted : ∀ cs : List Charge, ∀ c ∈ Charge.sorted (ofSubscription s cs),
      c ∈ cs ∧ c.item.subscription = s := fun cs c h => by
    have hc := (hperm cs).mem_iff.1 h
    exact ⟨List.mem_of_mem_filter hc, subscription_of_mem c hc⟩
  have hterms : ∀ cs : List Charge, (ofSubscription s cs).map Charge.terms =
      (cs.map Charge.terms).filter (·.subscription = s) := fun cs => by
    rw [List.filter_map]; rfl
  have hopen' : (Charge.sorted (ofSubscription s proposed)).filter (!·.matched) =
      Charge.sorted (ofSubscription s proposed) :=
    List.filter_eq_self.2 fun p h => by simp [hopen p (hsorted _ p h).1]
  have hactive : ((Charge.sorted (ofSubscription s issued)).filter (·.isActive)).Perm
      (ofSubscription s (issued.filter (·.isActive))) := by
    refine ((hperm issued).filter _).trans ?_
    rw [List.filter_comm]
  have hrs := Ledger.settle_kept ids s
    (((((hperm proposed).map _).nodup_iff).2 (((List.filter_sublist).map _).nodup hn)))
    (fun c h => hc c (hsorted issued c h).1) (fun c h => hrate c (hsorted issued c h).1)
    (fun p h => hp p (hsorted _ p h).1) (fun p h => (hsorted _ p h).2)
    (fun c h => (hsorted _ c h).2) (by
      rw [hopen']
      refine ((hactive.map _).subperm).trans (List.Subperm.trans ?_
        ((hperm proposed).map _).symm.subperm)
      rw [hterms, hterms]
      exact hsub.filter _)
  exact ⟨_, by simp only [Ledger.merge, Ledger.sorted, hrs]; rfl, rfl⟩

end

/-! ## Reconciliation without its log -/

/-- The proposed items as charges, numbered from 0 on. -/
def proposals (items : List Item) : List Charge :=
  items.zipIdx.map fun (item, handle) => Charge.proposed handle item

/-- What a reconciliation comes to whose repairs get the ids of `ids`. -/
def reconciled (ids : Nat → Id) (existing proposed : List Item) (pinned : List Id) :
    Except Fault Reconciliation := do
  let holdings := Holdings.ofItems existing pinned
  let issued ← holdings.issued proposed.length
  let difference ← settleAll ids (ledgers issued (proposals proposed))
  return ⟨difference, holdings.untouched⟩

theorem Engine.traced_from {α : Type} {e : Engine} {arguments : List (String × Value)}
    {call : Run α}
    {s : Session} {x : Except Fault α}
    (h : ∃ s', call.from_ s = (x, s') ∧ s.minted ≤ s'.minted) :
    ∃ s', (e.traced arguments call).from_ s = (x, s') ∧ s.minted ≤ s'.minted := by
  obtain ⟨s', h, hle⟩ := h
  unfold traced
  cases x with
  | error f => exact ⟨s', Run.from_bind_error h, hle⟩
  | ok a =>
    rw [Run.from_bind_ok h]
    obtain ⟨s'', h', hm⟩ := (Run.Quiet.log _ _ _ _).bind (y := fun _ => .ok a)
      (fun _ _ => Run.Quiet.pure a) s'
    exact ⟨s'', h', by omega⟩

theorem quiet_logOrphans (orphans : List (Id × List Item)) :
    Run.Quiet (logOrphans orphans) (.ok ()) :=
  Run.Quiet.forM orphans fun _ _ => Run.Quiet.log _ _ _ _

/-- A reconciliation depends on its session only by the ids of the repairs. -/
theorem reconcile_from (existing proposed : List Item) (pinned : List Id) (s : Session) :
    ∃ s', (reconcile existing proposed pinned).from_ s =
      (reconciled (fun i => .minted (s.minted + i)) existing proposed pinned, s') ∧
      s.minted ≤ s'.minted := by
  refine Engine.traced_from ?_
  obtain ⟨s₁, h₁, hm₁⟩ := quiet_logOrphans (Holdings.ofItems existing pinned).orphans s
  rw [Run.from_bind_ok h₁, ← hm₁]
  unfold reconciled
  dsimp only
  cases (Holdings.ofItems existing pinned).issued proposed.length with
  | error f => exact ⟨s₁, Run.from_bind_error (Run.from_lift _), le_rfl⟩
  | ok issued =>
    rw [Run.from_bind_ok (Run.from_lift _), Run.from_bind_ok (Run.from_mintMany _)]
    obtain ⟨s₂, h₂, hm₂⟩ := quiet_reconcileLedgers (fun i => .minted (s₁.minted + i))
      (ledgers issued (proposals proposed))
      { s₁ with minted := s₁.minted + (existing.length + proposed.length) }
    have hle : s₁.minted ≤ s₂.minted := by rw [hm₂]; exact Nat.le_add_right ..
    change ∃ s', _ = (settleAll _ _ >>= _, s') ∧ _
    cases hd : settleAll (fun i => .minted (s₁.minted + i))
        (ledgers issued (proposals proposed)) with
    | error f =>
      rw [hd] at h₂
      exact ⟨s₂, Run.from_bind_error h₂, hle⟩
    | ok d =>
      rw [hd] at h₂
      obtain ⟨s₃, h₃, hm₃⟩ := Run.Quiet.log .info reconciliationLogger "reconciliation_completed"
        [("existing_count", .int existing.length), ("proposed_count", .int proposed.length),
         ("new_count", .int d.newItems.length), ("repair_count", .int d.repairs.length),
         ("pinned_count", .int (Holdings.ofItems existing pinned).untouched.length)] s₂
      exact ⟨s₃, (Run.from_bind_ok h₂).trans (Run.from_bind_ok h₃), hle.trans hm₃.ge⟩

theorem reconciled_of_run {existing proposed : List Item} {pinned : List Id} {s s' : Session}
    {r : Reconciliation} (h : (reconcile existing proposed pinned).from_ s = (.ok r, s')) :
    ∃ ids, reconciled ids existing proposed pinned = .ok r := by
  obtain ⟨s'', hrun, -⟩ := reconcile_from existing proposed pinned s
  exact ⟨_, (Prod.ext_iff.1 (hrun.symm.trans h)).1⟩

end Invoicing
