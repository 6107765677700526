import Invoicing.Proofs.Cycle.Counts
import Invoicing.Proofs.Decimal.Monotone

/-!
# Segments cut off

An end that is put to a segment leaves the cycles up to it as they are and takes those away that start on
it or later. The cycle in progress is shortened: it is still part of the same period, so it does not
count for more than before (`BillingCycle.inAdvance_cut`).
-/

namespace Invoicing

/-! ## Lists cut off -/

/-- Whether a list is another one cut off: its first elements stay, all others go, except that one in
between may be shortened. -/
inductive CutOff {α : Type} (stays goes : α → Prop) (shortens : α → α → Prop) :
    List α → List α → Prop
  | gone {xs : List α} : (∀ x ∈ xs, goes x) → CutOff stays goes shortens xs []
  | within {x y : α} {xs : List α} : shortens x y → (∀ z ∈ xs, goes z) →
      CutOff stays goes shortens (x :: xs) [y]
  | keep {x : α} {xs ys : List α} : stays x → CutOff stays goes shortens xs ys →
      CutOff stays goes shortens (x :: xs) (x :: ys)

namespace CutOff

variable {α β ε : Type} {stays goes : α → Prop} {shortens : α → α → Prop} {xs ys zs : List α}

theorem parts (h : CutOff stays goes shortens xs ys) :
    ∃ (same : List α) (cut : Option (α × α)) (gone : List α),
    xs = same ++ (cut.map Prod.fst).toList ++ gone ∧ ys = same ++ (cut.map Prod.snd).toList ∧
    (∀ x ∈ same, stays x) ∧ (∀ p ∈ cut, shortens p.1 p.2) ∧ ∀ x ∈ gone, goes x := by
  induction h with
  | @gone xs hgone => exact ⟨[], none, xs, rfl, rfl, by simp, by simp, hgone⟩
  | @within x y xs hcut hgone =>
    exact ⟨[], some (x, y), xs, rfl, rfl, by simp, by rintro _ ⟨⟩; exact hcut, hgone⟩
  | @keep x xs ys hstays _ ih =>
    obtain ⟨same, cut, gone, rfl, rfl, hsame, hcut, hgone⟩ := ih
    exact ⟨x :: same, cut, gone, rfl, rfl, List.forall_mem_cons.2 ⟨hstays, hsame⟩, hcut, hgone⟩

theorem append_left (hzs : ∀ z ∈ zs, stays z) (h : CutOff stays goes shortens xs ys) :
    CutOff stays goes shortens (zs ++ xs) (zs ++ ys) := by
  induction zs with
  | nil => exact h
  | cons z zs ih =>
    obtain ⟨hz, hzs⟩ := List.forall_mem_cons.1 hzs
    exact .keep hz (ih hzs)

theorem imp {stays' goes' : α → Prop} {shortens' : α → α → Prop}
    (h : CutOff stays goes shortens xs ys) (hstays : ∀ x ∈ xs, stays x → stays' x)
    (hgoes : ∀ x ∈ xs, goes x → goes' x)
    (hshortens : ∀ x ∈ xs, ∀ y ∈ ys, shortens x y → shortens' x y) :
    CutOff stays' goes' shortens' xs ys := by
  induction h with
  | gone hgone => exact .gone fun x hx => hgoes x hx (hgone x hx)
  | within hcut hgone =>
    exact .within (hshortens _ (by simp) _ (by simp) hcut) fun x hx =>
      hgoes x (by simp [hx]) (hgone x hx)
  | keep hkeep _ ih =>
    exact .keep (hstays _ (by simp) hkeep) (ih (fun x hx => hstays x (by simp [hx]))
      (fun x hx => hgoes x (by simp [hx])) fun x hx y hy => hshortens x (by simp [hx]) y (by simp [hy]))

theorem mapM {f : α → Except ε β} {stays' goes' : β → Prop} {shortens' : β → β → Prop}
    {as bs : List β} (h : CutOff stays goes shortens xs ys) (hxs : xs.mapM f = .ok as)
    (hys : ys.mapM f = .ok bs) (hstays : ∀ x b, stays x → f x = .ok b → stays' b)
    (hgoes : ∀ x b, goes x → f x = .ok b → goes' b)
    (hshortens : ∀ x y a b, shortens x y → f x = .ok a → f y = .ok b → shortens' a b) :
    CutOff stays' goes' shortens' as bs := by
  have hgone : ∀ {xs : List α} {as : List β}, (∀ x ∈ xs, goes x) → xs.mapM f = .ok as →
      ∀ a ∈ as, goes' a := by
    intro xs as hgone hxs a ha
    obtain ⟨x, hx, hxa⟩ := mem_of_mapM hxs ha
    exact hgoes x a (hgone x hx) hxa
  induction h generalizing as bs with
  | gone hall =>
    obtain rfl : [] = bs := Except.ok.inj hys
    exact .gone (hgone hall hxs)
  | within hcut hall =>
    obtain ⟨a, as, ha, has, rfl⟩ := mapM_eq_ok_cons.1 hxs
    obtain ⟨b, bs, hb, hbs, rfl⟩ := mapM_eq_ok_cons.1 hys
    obtain rfl : [] = bs := Except.ok.inj hbs
    exact .within (hshortens _ _ a b hcut ha hb) (hgone hall has)
  | keep hkeep _ ih =>
    obtain ⟨a, as, ha, has, rfl⟩ := mapM_eq_ok_cons.1 hxs
    obtain ⟨b, bs, hb, hbs, rfl⟩ := mapM_eq_ok_cons.1 hys
    obtain rfl : a = b := Except.ok.inj (ha.symm.trans hb)
    exact .keep (hstays _ a hkeep ha) (ih has hbs)

end CutOff

/-! ## Cycles cut off -/

theorem Tiles.finish_le {start stop : Date} {cs : List BillingCycle} (h : Tiles start cs stop) :
    ∀ c ∈ cs, c.finish ≤ stop := by
  induction h with
  | nil d => simp
  | cons hlt hrest ih => exact List.forall_mem_cons.2 ⟨hrest.le, ih⟩

namespace BillingCycle

/-- Whether a cycle is another one up to a day within it. -/
structure PartTo (f : Date) (c c' : BillingCycle) : Prop where
  start : c'.start = c.start
  finish : c'.finish = f
  start_lt : c.start < f
  lt_finish : f < c.finish

/-- Whether a cycle is another one up to a day within it, and counts for no more. -/
structure Shortens (f : Date) (c c' : BillingCycle) : Prop extends PartTo f c c' where
  counts : ∃ n x m y, c.count = .finite false n x ∧ c'.count = .finite false m y
  count_le : c'.count.toRat ≤ c.count.toRat

variable {first start target f : Date} {day : Int} {period : BillingPeriod} {months k : Nat}
  {hm : 0 < months} {cs cs' : List BillingCycle}

theorem cyclesFrom_cut (h : cyclesFrom first none target day months hm k = .ok cs)
    (h' : cyclesFrom first (some f) target day months hm k = .ok cs') :
    CutOff (·.finish ≤ f) (f ≤ ·.start) (PartTo f) cs cs' := by
  -- The induction is on the cycles without an end, from boundary to boundary.
  induction cs generalizing k cs' with
  | nil =>
    obtain ⟨s, hs, ⟨-, hout⟩ | ⟨-, next, -, ⟨_, ⟨⟩, -⟩ | ⟨-, rest, -, hcs⟩⟩⟩ := cyclesFrom_cases h
    · have hnil : cyclesFrom first (some f) target day months hm k = .ok [] :=
        cyclesFrom_nil hs (.inl (hout.resolve_right (by simp)))
      obtain rfl : [] = cs' := Except.ok.inj (hnil.symm.trans h')
      exact .gone (by simp)
    · cases hcs
  | cons c cs ih =>
    obtain ⟨s, hs, ⟨hcs, -⟩ | ⟨hdue, next, hnext, ⟨_, ⟨⟩, -⟩ | ⟨-, rest, hrest, hcs⟩⟩⟩ :=
      cyclesFrom_cases h
    · cases hcs
    have hlater := start_le_of_mem_cyclesFrom hs h
    obtain ⟨rfl, rfl⟩ := List.cons.inj hcs
    obtain ⟨s', hs', hcases⟩ := cyclesFrom_cases h'
    obtain rfl : s = s' := Except.ok.inj (hs.symm.trans hs')
    obtain ⟨rfl, hout⟩ | ⟨-, next', hnext', hcases⟩ := hcases
    · obtain ⟨_, ⟨⟩, hfs⟩ := hout.resolve_left (not_lt.2 hdue)
      exact .gone fun x hx => hfs.trans (hlater x hx)
    obtain rfl : next = next' := Except.ok.inj (hnext.symm.trans hnext')
    obtain ⟨_, ⟨⟩, hsf, hfn, rfl⟩ | ⟨hlong, rest', hrest', rfl⟩ := hcases
    · exact .within ⟨rfl, rfl, hsf, hfn⟩ fun x hx =>
        hfn.le.trans (start_le_of_mem_cyclesFrom hnext hrest x hx)
    · exact .keep (hlong f rfl) (ih hrest hrest')

theorem inAdvance_parts (h : inAdvance start none target day period = .ok cs)
    (h' : inAdvance start (some f) target day period = .ok cs') :
    CutOff (·.finish ≤ f) (f ≤ ·.start) (PartTo f) cs cs' := by
  obtain ⟨rfl, hout⟩ | ⟨hdue, -, hm, first, hfirst, hcases⟩ := inAdvance_cases h
  · have hlt : target < start := hout.resolve_left (by simp)
    obtain ⟨rfl, -⟩ | ⟨hdue', -⟩ := inAdvance_cases h'
    · exact .gone (by simp)
    · exact absurd hdue' (not_le.2 hlt)
  obtain ⟨stop, htiles, -⟩ := inAdvance_tiles h hdue
  obtain ⟨rfl, hout⟩ | ⟨-, hopen, _, first', hfirst', hcases'⟩ := inAdvance_cases h'
  · obtain rfl : f = start := Option.some.inj (hout.resolve_right (not_lt.2 hdue))
    exact .gone htiles.start_le
  obtain rfl : first = first' := Except.ok.inj (hfirst.symm.trans hfirst')
  obtain ⟨rfl, hcs⟩ | ⟨hlt, previous, hprevious, ⟨_, ⟨⟩, -⟩ | ⟨-, rest, hrest, rfl⟩⟩ := hcases
  · obtain ⟨-, hcs'⟩ | ⟨hlt, -⟩ := hcases'
    · exact cyclesFrom_cut hcs hcs'
    · exact absurd hlt (lt_irrefl _)
  · obtain ⟨heq, -⟩ | ⟨-, previous', hprevious', hcases'⟩ := hcases'
    · exact absurd hlt (heq ▸ lt_irrefl _)
    obtain rfl : previous = previous' := Except.ok.inj (hprevious.symm.trans hprevious')
    obtain ⟨_, ⟨⟩, hff, rfl⟩ | ⟨hlong, rest', hrest', rfl⟩ := hcases'
    · exact .within ⟨rfl, rfl, hopen f rfl, hff⟩ fun x hx =>
        hff.le.trans (start_le_of_mem_cyclesFrom (grid_zero hfirst) hrest x hx)
    · exact .keep (hlong f rfl) (cyclesFrom_cut hrest hrest')

/-- An end that is put to a segment takes the cycles away that start on it or later, and shortens the
one in progress. -/
theorem inAdvance_cut (h : inAdvance start none target day period = .ok cs)
    (h' : inAdvance start (some f) target day period = .ok cs') :
    CutOff (·.finish ≤ f) (f ≤ ·.start) (Shortens f) cs cs' := by
  refine (inAdvance_parts h h').imp (fun _ _ => id) (fun _ _ => id) fun c hc c' hc' hpart => ?_
  obtain ⟨n, x, hcount⟩ := count_of_mem h c hc
  obtain ⟨m, y, hcount'⟩ := count_of_mem h' c' hc'
  refine ⟨hpart, ⟨n, x, m, y, hcount, hcount'⟩, ?_⟩
  -- Both are parts of the period that they start in.
  obtain ⟨p, q, hperiod, hin⟩ := mem_inAdvance h c hc
  obtain ⟨p', q', hperiod', hin'⟩ := mem_inAdvance h' c' hc'
  obtain ⟨rfl, rfl⟩ := hperiod.unique hperiod'
    (hin.start_le.trans_lt (hpart.start ▸ hin'.start_lt.trans_le hin'.finish_le))
    (hin'.start_le.trans_lt (hpart.start ▸ hin.start_lt.trans_le hin.finish_le))
  rw [hin.count_eq, hin'.count_eq]
  exact Decimal.ratio_mono (by decide) hin'.days_le.1
    (Date.daysUntil_le hpart.start.ge (hpart.finish ▸ hpart.lt_finish.le)) hin.days_le.2

theorem finish_le_of_mem_inAdvance (h : inAdvance start (some f) target day period = .ok cs) :
    ∀ c ∈ cs, c.finish ≤ f := by
  intro c hc
  obtain ⟨rfl, -⟩ | ⟨hdue, hopen, -⟩ := inAdvance_cases h
  · simp at hc
  obtain ⟨stop, htiles, hstop⟩ := inAdvance_tiles h hdue
  refine (htiles.finish_le c hc).trans (not_lt.1 fun hlt => ?_)
  exact absurd (((hstop f (hopen f rfl).le).1 hlt).1 f rfl) (lt_irrefl f)

end BillingCycle

end Invoicing
