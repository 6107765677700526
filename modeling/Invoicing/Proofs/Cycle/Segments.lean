import Invoicing.Proofs.Cycle.Grid

/-!
# The cycles of a segment

The periods of a segment start on the dates of its grid (`OnGrid`): its first boundary and the
boundaries that lie whole periods behind it. As long as the calendar has the boundaries that are asked
for, a segment that has begun is split into cycles up to its end, or up to the first date of the grid
behind the target date if that comes earlier (`BillingCycle.inAdvance_tiles_segment`).
-/

namespace Invoicing.BillingCycle

variable {first start target d s next : Date} {finish : Option Date} {day : Int} {months k j : Nat}
  {hm : 0 < months} {cs : List BillingCycle}

/-- Whether a date is the start of a period: the boundary that lies a number of periods behind the
first one. -/
def OnGrid (first : Date) (day : Int) (months : Nat) (d : Date) : Prop :=
  ∃ k : Nat, d.monthIndex = first.monthIndex + k * months ∧ d.IsBoundary day

theorem onGrid_iff : OnGrid first day months d ↔ ∃ k, grid first day months k = .ok d := by
  refine exists_congr fun k => ?_
  rw [grid, Date.boundary_eq_ok_iff]
  push_cast
  rfl

/-- Whether the grid has a date behind the target date, or one on which the segment is over. -/
def Reaches (first : Date) (finish : Option Date) (target : Date) (day : Int) (months : Nat) : Prop :=
  ∃ b, OnGrid first day months b ∧ (target < b ∨ ∃ f ∈ finish, f ≤ b)

theorem grid_isOk {b : Date} (hb : grid first day months j = .ok b) (h : k ≤ j) :
    ∃ s, grid first day months k = .ok s := by
  obtain ⟨hindex, hboundary⟩ := Date.boundary_eq_ok_iff.1 hb
  have hle : ((k * months : Nat) : Int) ≤ (j * months : Nat) :=
    Int.ofNat_le.2 (Nat.mul_le_mul_right months h)
  have hlow := first.le_monthIndex
  have hhigh := b.monthIndex_lt
  exact Date.boundary_isOk hboundary.one_le_day (by omega) (by omega)

theorem cyclesFrom_isOk {b : Date} (h : k ≤ j) (hb : grid first day months j = .ok b)
    (hend : target < b ∨ ∃ f ∈ finish, f ≤ b) :
    ∃ cs, cyclesFrom first finish target day months hm k = .ok cs := by
  -- The induction is on the number of periods up to the date that is far enough.
  obtain ⟨n, rfl⟩ := Nat.exists_eq_add_of_le h
  clear h
  induction n generalizing k with
  | zero => exact ⟨[], cyclesFrom_nil hb hend⟩
  | succ n ih =>
    obtain ⟨s, hs⟩ := grid_isOk hb (by omega : k ≤ k + (n + 1))
    obtain ⟨next, hnext⟩ := grid_isOk hb (by omega : k + 1 ≤ k + (n + 1))
    obtain ⟨rest, hrest⟩ := ih (k := k + 1) (by rw [← hb]; congr 1; omega)
    by_cases hout : target < s ∨ ∃ f ∈ finish, f ≤ s
    · exact ⟨[], cyclesFrom_nil hs hout⟩
    · push Not at hout
      rw [cyclesFrom_eq hs hout.1 hout.2 hnext, hrest]
      split <;> exact ⟨_, rfl⟩

theorem mem_dropLast_cons {α : Type} {a x : α} {l : List α} (h : x ∈ (a :: l).dropLast) :
    l ≠ [] ∧ (x = a ∨ x ∈ l.dropLast) := by
  cases l with
  | nil => simp at h
  | cons b l => exact ⟨List.cons_ne_nil b l, by simpa using h⟩

theorem finish_onGrid (h : cyclesFrom first finish target day months hm k = .ok cs) :
    ∀ c ∈ cs.dropLast, OnGrid first day months c.finish := by
  induction cs generalizing k with
  | nil => simp
  | cons c cs ih =>
    intro x hx
    obtain ⟨hne, hx⟩ := mem_dropLast_cons hx
    obtain ⟨s, -, ⟨hcs, -⟩ | ⟨-, next, hnext, ⟨f, -, -, -, hcs⟩ | ⟨-, rest, hrest, hcs⟩⟩⟩ :=
      cyclesFrom_cases h
    · cases hcs
    · exact absurd (List.cons.inj hcs).2 hne
    · obtain ⟨rfl, rfl⟩ := List.cons.inj hcs
      rcases hx with rfl | hx
      · exact onGrid_iff.2 ⟨k + 1, hnext⟩
      · exact ih hrest x hx

/-! ## Segments that have begun -/

variable {period : BillingPeriod} {previous : Date}

theorem inAdvance_isOk (hm : 0 < period.months) (hopen : ∀ f ∈ finish, start < f)
    (hdue : start ≤ target) (hfirst : firstBoundary start day = .ok first)
    (hprevious : start < first → ∃ p, first.boundary (-period.months) day = .ok p)
    (hreach : Reaches first finish target day period.months) :
    ∃ cs, inAdvance start finish target day period = .ok cs := by
  obtain ⟨b, hb, hend⟩ := hreach
  obtain ⟨j, hb⟩ := onGrid_iff.1 hb
  obtain ⟨rest, hrest⟩ : ∃ rest, cyclesFrom first finish target day period.months hm 0 = .ok rest :=
    cyclesFrom_isOk (Nat.zero_le j) hb hend
  obtain ⟨horder, hbegun⟩ := not_backward_nor_over hopen hdue
  simp only [inAdvance, horder, dif_pos hm, if_neg hbegun, mapError_eq_ok_iff, bind_eq_ok_iff]
  refine exists_comm.1 ⟨first, ?_⟩
  split
  case isFalse => exact ⟨rest, hfirst, hrest⟩
  case isTrue hlt =>
  obtain ⟨previous, hprevious⟩ := hprevious hlt
  cases hin : finish.filter (· < first) with
  | some f => exact ⟨_, hfirst, bind_eq_ok_iff.2 ⟨previous, hprevious, rfl⟩⟩
  | none =>
    exact ⟨_, hfirst, bind_eq_ok_iff.2 ⟨previous, hprevious,
      bind_eq_ok_iff.2 ⟨rest, hrest, rfl⟩⟩⟩

theorem finish_onGrid_of_inAdvance (h : inAdvance start finish target day period = .ok cs)
    (hfirst : firstBoundary start day = .ok first) :
    ∀ c ∈ cs.dropLast, OnGrid first day period.months c.finish := by
  rcases inAdvance_cases h with ⟨rfl, -⟩ | ⟨-, -, hm, first', hfirst', hcases⟩
  · simp
  obtain rfl : first = first' := Except.ok.inj (hfirst.symm.trans hfirst')
  rcases hcases with ⟨-, hcs⟩ | ⟨-, previous, -, ⟨f, -, -, rfl⟩ | ⟨-, rest, hrest, rfl⟩⟩
  · exact finish_onGrid hcs
  · simp
  · intro c hc
    obtain ⟨-, rfl | hc⟩ := mem_dropLast_cons hc
    · exact onGrid_iff.2 ⟨0, grid_zero hfirst⟩
    · exact finish_onGrid hrest c hc

theorem billed_iff (hfirst : firstBoundary start day = .ok first) :
    Billed start finish target day period d ↔
      ∀ x, x ∈ finish ∨ OnGrid first day period.months x ∧ target < x → d < x := by
  constructor
  · rintro ⟨hfinish, hgrid⟩ x (hx | ⟨hx, htx⟩)
    · exact hfinish x hx
    · obtain ⟨j, hx⟩ := onGrid_iff.1 hx
      exact hgrid first hfirst j x hx htx
  · refine fun h => ⟨fun f hf => h f (.inl hf), fun first' hfirst' j g hg htg => ?_⟩
    obtain rfl : first = first' := Except.ok.inj (hfirst.symm.trans hfirst')
    exact h g (.inr ⟨onGrid_iff.2 ⟨j, hg⟩, htg⟩)

theorem isLeast_of_lt_iff {S : Set Date} {stop : Date} (hS : ∀ x ∈ S, start ≤ x)
    (hle : start ≤ stop) (h : ∀ d, start ≤ d → (d < stop ↔ ∀ x ∈ S, d < x)) : IsLeast S stop := by
  have hlower : ∀ x ∈ S, stop ≤ x := fun x hx =>
    not_lt.1 fun hlt => lt_irrefl x ((h x (hS x hx)).1 hlt x hx)
  have hsome : ∃ x ∈ S, x ≤ stop := by
    by_contra hnone
    push Not at hnone
    exact lt_irrefl stop ((h stop hle).2 hnone)
  obtain ⟨x, hx, hxs⟩ := hsome
  obtain rfl := le_antisymm hxs (hlower x hx)
  exact ⟨hx, hlower⟩

/-- A segment that has begun has a cycle, and cycles follow each other from its start on. Each begins
up to the target date, all but the last end on the grid, and the last ends where the segment does or on
the first date of the grid behind the target date, whichever comes first. -/
theorem inAdvance_tiles_segment (hm : 0 < period.months) (hopen : ∀ f ∈ finish, start < f)
    (hdue : start ≤ target) (hfirst : IsLeast {d | start ≤ d ∧ d.IsBoundary day} first)
    (hprevious : start < first → ∃ p : Date, p.monthIndex = first.monthIndex - period.months)
    (hreach : Reaches first finish target day period.months) :
    ∃ cs stop, inAdvance start finish target day period = .ok cs ∧ cs ≠ [] ∧ Tiles start cs stop ∧
      (∀ c ∈ cs, c.start ≤ target) ∧ (∀ c ∈ cs.dropLast, OnGrid first day period.months c.finish) ∧
      IsLeast {d | d ∈ finish ∨ OnGrid first day period.months d ∧ target < d} stop := by
  have hfirst' := firstBoundary_eq_ok_iff.2 hfirst
  have hday := hfirst.1.2.one_le_day
  have hbefore : start < first → ∃ p, first.boundary (-period.months) day = .ok p := by
    intro hlt
    obtain ⟨p, hp⟩ := hprevious hlt
    have hlow := p.le_monthIndex
    have hhigh := p.monthIndex_lt
    exact Date.boundary_isOk hday (by omega) (by omega)
  obtain ⟨cs, hcs⟩ := inAdvance_isOk hm hopen hdue hfirst' hbefore hreach
  obtain ⟨stop, htiles, hstop⟩ := inAdvance_tiles hcs hdue
  have hlater : ∀ x, x ∈ finish ∨ OnGrid first day period.months x ∧ target < x → start < x := by
    rintro x (hx | ⟨-, htx⟩)
    · exact hopen x hx
    · exact hdue.trans_lt htx
  have hlt : start < stop := (hstop start le_rfl).2 ((billed_iff hfirst').2 hlater)
  refine ⟨cs, stop, hcs, ?_, htiles, start_le_target hcs, finish_onGrid_of_inAdvance hcs hfirst', ?_⟩
  · rintro rfl
    cases htiles
    exact lt_irrefl _ hlt
  · exact isLeast_of_lt_iff (fun x hx => (hlater x hx).le) htiles.le fun d hd =>
      (hstop d hd).trans (billed_iff hfirst')

/-- A day between two boundaries on the 31st. -/
def midJanuary : Date := (Date.of? 2024 1 15).get rfl

/-- The boundary of a month that has no 31st. -/
def endOfApril : Date := (Date.of? 2024 4 30).get rfl

def tenthOfMay : Date := (Date.of? 2024 5 10).get rfl

/-- From the middle of a month, over the end of a leap February: the segment ends before the grid has
a date behind the target date, which is itself a boundary. -/
theorem inAdvance_tiles_segment_leap :
    ∃ cs, inAdvance midJanuary (some tenthOfMay) endOfApril 31 .monthly = .ok cs ∧ cs ≠ [] ∧
      Tiles midJanuary cs tenthOfMay := by
  let endOfJanuary : Date := (Date.of? 2024 1 31).get rfl
  let endOfMay : Date := (Date.of? 2024 5 31).get rfl
  have hfirst : IsLeast {d | midJanuary ≤ d ∧ d.IsBoundary 31} endOfJanuary :=
    firstBoundary_eq_ok_iff.1 rfl
  have hgrid : OnGrid endOfJanuary 31 1 endOfMay := ⟨4, by decide, by decide⟩
  obtain ⟨cs, stop, hcs, hne, htiles, -, -, hstop⟩ :=
    inAdvance_tiles_segment (by decide : 0 < BillingPeriod.monthly.months)
      (by decide : ∀ f ∈ some tenthOfMay, midJanuary < f) (by decide : midJanuary ≤ endOfApril) hfirst
      (fun _ => ⟨(Date.of? 2023 12 31).get rfl, by decide⟩)
      ⟨endOfMay, hgrid, .inl (by decide)⟩
  have hleast : IsLeast {d | d ∈ some tenthOfMay ∨ OnGrid endOfJanuary 31 1 d ∧ endOfApril < d}
      tenthOfMay := by
    refine ⟨.inl rfl, fun d hd => ?_⟩
    rcases hd with hd | ⟨⟨k, -, hboundary⟩, hlt⟩
    · exact (Option.mem_some_iff.1 hd).le
    · have hmonth := (Date.IsBoundary.lt_iff (by decide : endOfApril.IsBoundary 31) hboundary).1 hlt
      have hmay : endOfMay ≤ d :=
        (Date.IsBoundary.le_iff (by decide : endOfMay.IsBoundary 31) hboundary).2 hmonth
      exact le_trans (by decide) hmay
  obtain rfl := hstop.unique hleast
  exact ⟨cs, hcs, hne, htiles⟩

end Invoicing.BillingCycle
