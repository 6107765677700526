import Invoicing.Cycle
import Invoicing.Proofs.Calendar.Order
import Invoicing.Proofs.Outcome

/-!
# Cycles tile a segment

The cycles of a segment follow each other without a gap or an overlap (`Tiles`), so a day is in one
of them or in none (`Tiles.count_eq`). `BillingCycle.inAdvance_tiles` says up to which day they run:
to the end of the segment, and to the first boundary behind the target date. A later target only
adds cycles that start after the earlier one (`BillingCycle.inAdvance_target`).
-/

namespace Invoicing

/-- Whether cycles follow each other from one day up to another. -/
inductive Tiles : Date → List BillingCycle → Date → Prop
  | nil (d : Date) : Tiles d [] d
  | cons {c : BillingCycle} {cs : List BillingCycle} {stop : Date} :
      c.start < c.finish → Tiles c.finish cs stop → Tiles c.start (c :: cs) stop

namespace BillingCycle

/-- Whether a day is in a cycle. -/
def holds (c : BillingCycle) (d : Date) : Bool := c.start ≤ d && d < c.finish

end BillingCycle

namespace Tiles

variable {start stop : Date} {cs : List BillingCycle}

theorem le (h : Tiles start cs stop) : start ≤ stop := by
  induction h with
  | nil d => exact le_rfl
  | cons hlt _ ih => exact hlt.le.trans ih

theorem start_le (h : Tiles start cs stop) : ∀ c ∈ cs, start ≤ c.start := by
  induction h with
  | nil d => simp
  | cons hlt _ ih =>
    rintro c (_ | ⟨_, hc⟩)
    · exact le_rfl
    · exact hlt.le.trans (ih c hc)

theorem start_lt (h : Tiles start cs stop) : ∀ c ∈ cs, c.start < c.finish := by
  induction h with
  | nil d => simp
  | cons hlt _ ih =>
    rintro c (_ | ⟨_, hc⟩)
    · exact hlt
    · exact ih c hc

/-- A day from the first cycle on up to the end of the last is in one cycle, any other in none. -/
theorem count_eq (h : Tiles start cs stop) (d : Date) :
    cs.countP (·.holds d) = if start ≤ d ∧ d < stop then 1 else 0 := by
  induction h with
  | nil e => rw [if_neg fun h => absurd (h.1.trans_lt h.2) (lt_irrefl e)]; rfl
  | @cons c cs stop hlt hrest ih =>
    have hle := hrest.le
    rw [List.countP_cons, ih, BillingCycle.holds]
    by_cases hc : c.start ≤ d
    · by_cases hd : d < c.finish
      · have hstop : d < stop := hd.trans_le hle
        simp [hc, hd, hstop, not_le.2 hd]
      · simp [hc, hd, not_lt.1 hd]
    · have : ¬ c.finish ≤ d := fun h => hc (hlt.le.trans h)
      simp [hc, this]

end Tiles

namespace Date

variable {first a b : Date} {m n day : Int}

theorem boundary_lt (ha : first.boundary m day = .ok a) (hb : first.boundary n day = .ok b)
    (h : m < n) : a < b := by
  have ha := monthIndex_boundary ha
  have hb := monthIndex_boundary hb
  exact lt_of_monthIndex_lt (by omega)

theorem boundary_le (ha : first.boundary m day = .ok a) (hb : first.boundary n day = .ok b)
    (h : m ≤ n) : a ≤ b := by
  rcases lt_or_eq_of_le h with h | rfl
  · exact (boundary_lt ha hb h).le
  · rw [ha] at hb
    exact (Except.ok.inj hb).le

theorem boundary_eq (d : Date) (months day : Int) :
    d.boundary months day = alignedDate ((d.monthIndex + months) / 12)
      ((d.monthIndex + months) % 12 + 1) day := rfl

theorem alignedDate_eq (d : Date) (day : Int) :
    alignedDate d.year d.month day = d.boundary 0 day := by
  rw [boundary_eq, add_zero, ← year_eq, ← month_eq]

theorem boundary_of_boundary {start : Date} (h : start.boundary m day = .ok a) (n : Int) :
    a.boundary n day = start.boundary (m + n) day := by
  rw [boundary_eq, boundary_eq, monthIndex_boundary h, add_assoc]

theorem boundary_zero {start : Date} (h : start.boundary m day = .ok a) :
    a.boundary 0 day = .ok a := by
  rw [boundary_of_boundary h, add_zero, h]

end Date

namespace BillingCycle

variable {first start s next target : Date} {finish : Option Date} {day : Int} {months k : Nat}
  {hm : 0 < months} {cs rest : List BillingCycle}

/-- The start of the `k`-th period. -/
abbrev grid (first : Date) (day : Int) (months k : Nat) : Except CalendarFault Date :=
  first.boundary (k * months : Nat) day

theorem grid_lt {a b : Date} {j : Nat} (hm : 0 < months) (ha : grid first day months k = .ok a)
    (hb : grid first day months j = .ok b) (h : k < j) : a < b := by
  refine Date.boundary_lt ha hb ?_
  exact_mod_cast Nat.mul_lt_mul_of_pos_right h hm

theorem grid_le {a b : Date} {j : Nat} (ha : grid first day months k = .ok a)
    (hb : grid first day months j = .ok b) (h : k ≤ j) : a ≤ b := by
  refine Date.boundary_le ha hb ?_
  exact_mod_cast Nat.mul_le_mul_right months h

theorem cyclesFrom_cases (h : cyclesFrom first finish target day months hm k = .ok cs) :
    ∃ start, grid first day months k = .ok start ∧
      (cs = [] ∧ (target < start ∨ ∃ f ∈ finish, f ≤ start) ∨
      start ≤ target ∧ ∃ next, grid first day months (k + 1) = .ok next ∧
        ((∃ f ∈ finish, start < f ∧ f < next ∧ cs = [partOf start f start next]) ∨
        (∀ f ∈ finish, next ≤ f) ∧ ∃ rest,
          cyclesFrom first finish target day months hm (k + 1) = .ok rest ∧
          cs = whole start next :: rest)) := by
  rw [cyclesFrom] at h
  split at h
  case h_1 => simp at h
  case h_2 start hs =>
  refine ⟨start, hs, ?_⟩
  split at h
  case isTrue hout =>
    left
    refine ⟨(Except.ok.inj h).symm, hout.imp_right fun hf => ?_⟩
    obtain ⟨f, hf, hle⟩ := (Option.any_eq_true _ _).1 hf
    exact ⟨f, hf, by simpa using hle⟩
  case isFalse hin =>
  rw [not_or, not_lt] at hin
  obtain ⟨hdue, hopen⟩ := hin
  have hopen : ∀ f ∈ finish, start < f := by
    rintro f hf
    rw [show finish = some f from hf] at hopen
    simpa using hopen
  refine .inr ⟨hdue, ?_⟩
  split at h
  case h_1 => simp at h
  case h_2 next hnext =>
  refine ⟨next, hnext, ?_⟩
  split at h
  case h_1 f hf =>
    left
    obtain ⟨hf, hlt⟩ := Option.filter_eq_some_iff.1 hf
    exact ⟨f, hf, hopen f hf, by simpa using hlt, (Except.ok.inj h).symm⟩
  case h_2 hnone =>
    right
    refine ⟨fun f hf => ?_, ?_⟩
    · rw [show finish = some f from hf] at hnone
      simpa [Option.filter] using hnone
    · obtain ⟨rest, hrest, rfl⟩ := map_eq_ok_iff.1 h
      exact ⟨rest, hrest, rfl⟩

theorem cyclesFrom_nil (hs : grid first day months k = .ok s)
    (hout : target < s ∨ ∃ f ∈ finish, f ≤ s) :
    cyclesFrom first finish target day months hm k = .ok [] := by
  have hout : target < s ∨ finish.any (· ≤ s) = true :=
    hout.imp_right fun ⟨f, hf, hle⟩ => (Option.any_eq_true _ _).2 ⟨f, hf, decide_eq_true hle⟩
  rw [cyclesFrom]
  split
  case h_1 e he => cases hs.symm.trans he
  case h_2 s' hs' =>
    obtain rfl : s = s' := Except.ok.inj (hs.symm.trans hs')
    exact if_pos hout

theorem cyclesFrom_eq (hs : grid first day months k = .ok s) (hdue : s ≤ target)
    (hopen : ∀ f ∈ finish, s < f) (hnext : grid first day months (k + 1) = .ok next) :
    cyclesFrom first finish target day months hm k =
      match finish.filter (· < next) with
      | some f => .ok [partOf s f s next]
      | none =>
        (cyclesFrom first finish target day months hm (k + 1)).map (whole s next :: ·) := by
  have hin : ¬ (target < s ∨ finish.any (· ≤ s) = true) := by
    rintro (hlt | hany)
    · exact not_lt.2 hdue hlt
    · obtain ⟨f, hf, hle⟩ := (Option.any_eq_true _ _).1 hany
      exact not_le.2 (hopen f hf) (of_decide_eq_true hle)
  have hnext : first.boundary ((k + 1) * months : Nat) day = .ok next := hnext
  rw [cyclesFrom]
  split
  case h_1 e he => cases hs.symm.trans he
  case h_2 s' hs' =>
    obtain rfl : s = s' := Except.ok.inj (hs.symm.trans hs')
    refine (if_neg hin).trans ?_
    cases hlast : finish.filter (· < next) <;> simp only [hnext, hlast]

theorem cyclesFrom_last {f : Date} (hs : grid first day months k = .ok s) (hdue : s ≤ target)
    (hsf : s < f) (hnext : grid first day months (k + 1) = .ok next) (hfn : f < next) :
    cyclesFrom first (some f) target day months hm k = .ok [partOf s f s next] := by
  have hfilter : (some f).filter (· < next) = some f :=
    Option.filter_eq_some_iff.2 ⟨rfl, decide_eq_true hfn⟩
  rw [cyclesFrom_eq hs hdue (by rintro _ ⟨⟩; exact hsf) hnext, hfilter]

theorem cyclesFrom_whole (hs : grid first day months k = .ok s) (hdue : s ≤ target)
    (hnext : grid first day months (k + 1) = .ok next) (hlong : ∀ f ∈ finish, next ≤ f)
    (hrest : cyclesFrom first finish target day months hm (k + 1) = .ok rest) :
    cyclesFrom first finish target day months hm k = .ok (whole s next :: rest) := by
  have hsn : s < next := grid_lt hm hs hnext (Nat.lt_succ_self k)
  have hnone : finish.filter (· < next) = none :=
    Option.filter_eq_none_iff.2 fun f hf => by simpa using hlong f hf
  rw [cyclesFrom_eq hs hdue (fun f hf => hsn.trans_le (hlong f hf)) hnext, hnone, hrest]
  rfl

/-- Whether a day is before the end of the segment and before each of the boundaries from the `k`-th
on that lie behind the target date. -/
def Due (first : Date) (finish : Option Date) (target : Date) (day : Int) (months k : Nat)
    (d : Date) : Prop :=
  (∀ f ∈ finish, d < f) ∧ ∀ j, k ≤ j → ∀ g, grid first day months j = .ok g → target < g → d < g

theorem cyclesFrom_tiles (hs : grid first day months k = .ok start)
    (h : cyclesFrom first finish target day months hm k = .ok cs) :
    ∃ stop, Tiles start cs stop ∧
      ∀ d, start ≤ d → (d < stop ↔ Due first finish target day months k d) := by
  -- The induction goes from boundary to boundary.
  induction cs generalizing k start with
  | nil =>
    obtain ⟨s, hs', hcase⟩ := cyclesFrom_cases h
    obtain rfl : start = s := Except.ok.inj (hs.symm.trans hs')
    refine ⟨start, .nil start, fun d hd => ⟨fun hlt => absurd hlt (not_lt.2 hd), fun hdue => ?_⟩⟩
    rcases hcase with ⟨-, hlt | ⟨f, hf, hle⟩⟩ | ⟨-, next, -, ⟨f, -, -, -, hcs⟩ | ⟨-, rest, -, hcs⟩⟩
    · exact hdue.2 k le_rfl start hs hlt
    · exact (hdue.1 f hf).trans_le hle
    · simp at hcs
    · simp at hcs
  | cons c cs ih =>
    obtain ⟨s, hs', hcase⟩ := cyclesFrom_cases h
    obtain rfl : start = s := Except.ok.inj (hs.symm.trans hs')
    rcases hcase with
      ⟨hcs, -⟩ | ⟨hdue, next, hnext, ⟨f, hf, hsf, hfn, hcs⟩ | ⟨hlong, rest, hrest, hcs⟩⟩
    · simp at hcs
    · -- The segment ends within the period.
      obtain ⟨rfl, rfl⟩ := List.cons.inj hcs
      refine ⟨f, .cons (c := partOf start f start next) hsf (.nil f),
        fun d hd => ⟨fun hlt => ⟨?_, ?_⟩, fun h => h.1 f hf⟩⟩
      · intro f' hf'
        obtain rfl : f = f' := Option.some.inj (hf.symm.trans hf')
        exact hlt
      · intro j hj g hg htg
        rcases lt_or_eq_of_le hj with hj | rfl
        · exact (hlt.trans hfn).trans_le (grid_le hnext hg hj)
        · obtain rfl : start = g := Except.ok.inj (hs.symm.trans hg)
          exact absurd htg (not_lt.2 hdue)
    · obtain ⟨rfl, rfl⟩ := List.cons.inj hcs
      obtain ⟨stop, htiles, hstop⟩ := ih hnext hrest
      have hsn : start < next := grid_lt hm hs hnext (Nat.lt_succ_self k)
      refine ⟨stop, .cons (c := whole start next) hsn htiles, fun d hd => ?_⟩
      by_cases hdn : next ≤ d
      · rw [hstop d hdn]
        refine ⟨fun hd' => ⟨hd'.1, fun j hj g hg htg => ?_⟩,
          fun hd' => ⟨hd'.1, fun j hj => hd'.2 j (by omega)⟩⟩
        rcases lt_or_eq_of_le hj with hj | rfl
        · exact hd'.2 j hj g hg htg
        · obtain rfl : start = g := Except.ok.inj (hs.symm.trans hg)
          exact absurd htg (not_lt.2 hdue)
      · rw [not_le] at hdn
        refine ⟨fun _ => ⟨fun f hf => hdn.trans_le (hlong f hf), fun j hj g hg htg => ?_⟩,
          fun _ => hdn.trans_le htiles.le⟩
        rcases lt_or_eq_of_le hj with hj | rfl
        · exact hdn.trans_le (grid_le hnext hg hj)
        · obtain rfl : start = g := Except.ok.inj (hs.symm.trans hg)
          exact absurd htg (not_lt.2 hdue)

/-! ## Whole segments -/

variable {period : BillingPeriod} {previous : Date}

theorem firstBoundary_spec (h : firstBoundary start day = .ok first) :
    start ≤ first ∧ first.boundary 0 day = .ok first := by
  unfold firstBoundary at h
  rw [Date.alignedDate_eq] at h
  split at h
  case h_1 => simp at h
  case h_2 d hd =>
  split at h
  case isTrue =>
    refine ⟨(Date.lt_of_monthIndex_lt ?_).le, Date.boundary_zero h⟩
    rw [Date.monthIndex_boundary h]; omega
  case isFalse hle =>
    obtain rfl := Except.ok.inj h
    exact ⟨not_lt.1 hle, Date.boundary_zero hd⟩

theorem grid_zero (h : firstBoundary start day = .ok first) :
    grid first day months 0 = .ok first := by
  simpa [grid] using (firstBoundary_spec h).2

theorem inAdvance_cases (h : inAdvance start finish target day period = .ok cs) :
    (cs = [] ∧ (finish = some start ∨ target < start)) ∨
    start ≤ target ∧ (∀ f ∈ finish, start < f) ∧ ∃ hm : 0 < period.months, ∃ first,
      firstBoundary start day = .ok first ∧
      (start = first ∧ cyclesFrom first finish target day period.months hm 0 = .ok cs ∨
      start < first ∧ ∃ previous, first.boundary (-period.months) day = .ok previous ∧
        ((∃ f ∈ finish, f < first ∧ cs = [partOf start f previous first]) ∨
        (∀ f ∈ finish, first ≤ f) ∧ ∃ rest,
          cyclesFrom first finish target day period.months hm 0 = .ok rest ∧
          cs = partOf start first previous first :: rest)) := by
  unfold inAdvance at h
  split at h
  case h_1 => simp at h
  case h_2 horder =>
  split at h
  case isFalse => simp at h
  case isTrue hm =>
  split at h
  case isTrue hout => exact .inl ⟨(Except.ok.inj h).symm, hout⟩
  case isFalse hin =>
  rw [not_or, not_lt] at hin
  obtain ⟨hne, hdue⟩ := hin
  have hopen : ∀ f ∈ finish, start < f := by
    intro f hf
    rw [show finish = some f from hf] at horder hne
    have hle : start ≤ f := by simpa [Option.filter] using horder
    exact lt_of_le_of_ne hle fun he => hne (by rw [he])
  obtain ⟨first, hfirst, h⟩ := bind_eq_ok_iff.1 (mapError_eq_ok_iff.1 h)
  refine .inr ⟨hdue, hopen, hm, first, hfirst, ?_⟩
  split at h
  case isFalse hle =>
    exact .inl ⟨le_antisymm (firstBoundary_spec hfirst).1 (not_lt.1 hle), h⟩
  case isTrue hlt =>
  obtain ⟨previous, hprevious, h⟩ := bind_eq_ok_iff.1 h
  refine .inr ⟨hlt, previous, hprevious, ?_⟩
  split at h
  case h_1 f hf =>
    obtain ⟨hf, hff⟩ := Option.filter_eq_some_iff.1 hf
    exact .inl ⟨f, hf, by simpa using hff, (Except.ok.inj h).symm⟩
  case h_2 hnone =>
    right
    refine ⟨fun f hf => ?_, ?_⟩
    · rw [show finish = some f from hf] at hnone
      simpa [Option.filter] using hnone
    · obtain ⟨rest, hrest, h⟩ := bind_eq_ok_iff.1 h
      exact ⟨rest, hrest, (Except.ok.inj h).symm⟩

theorem not_backward_nor_over (hopen : ∀ f ∈ finish, start < f) (hdue : start ≤ target) :
    finish.filter (· < start) = none ∧ ¬ (finish = some start ∨ target < start) := by
  constructor
  · rw [Option.filter_eq_none_iff]
    exact fun f hf => by simpa using (hopen f hf).le
  · rintro (hf | hlt)
    · exact lt_irrefl start (hopen start hf)
    · exact not_lt.2 hdue hlt

theorem inAdvance_inOrder (h : inAdvance start finish target day period = .ok cs) :
    0 < period.months ∧ finish.filter (· < start) = none := by
  unfold inAdvance at h
  split at h
  case h_1 => cases h
  case h_2 horder =>
  split at h
  case isTrue hm => exact ⟨hm, horder⟩
  case isFalse => cases h

theorem inAdvance_nil (hm : 0 < period.months) (horder : finish.filter (· < start) = none)
    (hout : finish = some start ∨ target < start) :
    inAdvance start finish target day period = .ok [] := by
  simp only [inAdvance, horder, dif_pos hm, if_pos hout]

theorem inAdvance_aligned (hm : 0 < period.months) (hopen : ∀ f ∈ finish, start < f)
    (hdue : start ≤ target) (hfirst : firstBoundary start day = .ok start)
    (h : cyclesFrom start finish target day period.months hm 0 = .ok cs) :
    inAdvance start finish target day period = .ok cs := by
  obtain ⟨horder, hbegun⟩ := not_backward_nor_over hopen hdue
  simp only [inAdvance, horder, dif_pos hm, if_neg hbegun, mapError_eq_ok_iff, bind_eq_ok_iff]
  exact ⟨start, hfirst, by rw [if_neg (lt_irrefl start)]; exact h⟩

theorem inAdvance_short {f : Date} (hm : 0 < period.months) (hsf : start < f)
    (hdue : start ≤ target) (hfirst : firstBoundary start day = .ok first) (hff : f < first)
    (hprevious : first.boundary (-period.months) day = .ok previous) :
    inAdvance start (some f) target day period = .ok [partOf start f previous first] := by
  obtain ⟨horder, hbegun⟩ :=
    not_backward_nor_over (show ∀ x ∈ some f, start < x by rintro _ ⟨⟩; exact hsf) hdue
  have hsome : (some f).filter (· < first) = some f :=
    Option.filter_eq_some_iff.2 ⟨rfl, decide_eq_true hff⟩
  simp only [inAdvance, horder, dif_pos hm, if_neg hbegun, mapError_eq_ok_iff, bind_eq_ok_iff]
  refine ⟨first, hfirst, ?_⟩
  rw [if_pos (hsf.trans hff), hsome]
  exact bind_eq_ok_iff.2 ⟨previous, hprevious, rfl⟩

theorem inAdvance_leading (hm : 0 < period.months) (hdue : start ≤ target)
    (hfirst : firstBoundary start day = .ok first) (hlt : start < first)
    (hprevious : first.boundary (-period.months) day = .ok previous)
    (hlong : ∀ f ∈ finish, first ≤ f)
    (h : cyclesFrom first finish target day period.months hm 0 = .ok cs) :
    inAdvance start finish target day period = .ok (partOf start first previous first :: cs) := by
  obtain ⟨horder, hbegun⟩ := not_backward_nor_over (fun f hf => hlt.trans_le (hlong f hf)) hdue
  have hnone : finish.filter (· < first) = none :=
    Option.filter_eq_none_iff.2 fun f hf => by simpa using hlong f hf
  simp only [inAdvance, horder, dif_pos hm, if_neg hbegun, mapError_eq_ok_iff, bind_eq_ok_iff]
  refine ⟨first, hfirst, ?_⟩
  rw [if_pos hlt, hnone]
  exact bind_eq_ok_iff.2 ⟨previous, hprevious, bind_eq_ok_iff.2 ⟨cs, h, rfl⟩⟩

/-- Whether a day of a segment is billed by a target date: it is before the end of the segment, and
before the first period that starts behind the target date. -/
def Billed (start : Date) (finish : Option Date) (target : Date) (day : Int)
    (period : BillingPeriod)
    (d : Date) : Prop :=
  (∀ f ∈ finish, d < f) ∧ ∀ first, firstBoundary start day = .ok first →
    ∀ j g, grid first day period.months j = .ok g → target < g → d < g

/-- The cycles of a segment that has begun tile the days to be billed. -/
theorem inAdvance_tiles (h : inAdvance start finish target day period = .ok cs)
    (hdue : start ≤ target) : ∃ stop, Tiles start cs stop ∧
      ∀ d, start ≤ d → (d < stop ↔ Billed start finish target day period d) := by
  rcases inAdvance_cases h with ⟨rfl, hout⟩ | ⟨-, hopen, hm, first, hfirst, hcases⟩
  · refine ⟨start, .nil start, fun d hd => ⟨fun hlt => absurd hlt (not_lt.2 hd), fun hb => ?_⟩⟩
    exact hb.1 start (hout.resolve_right (not_lt.2 hdue))
  have hzero : grid first day period.months 0 = .ok first := grid_zero hfirst
  have hbilled : ∀ d, Billed start finish target day period d ↔
      Due first finish target day period.months 0 d := fun d =>
    ⟨fun hb => ⟨hb.1, fun j _ => hb.2 first hfirst j⟩, fun hb => ⟨hb.1, fun first' h' j g => by
      obtain rfl : first = first' := Except.ok.inj (hfirst.symm.trans h')
      exact hb.2 j (Nat.zero_le j) g⟩⟩
  simp only [hbilled]
  rcases hcases with
    ⟨rfl, hcs⟩ | ⟨hlt, previous, -, ⟨f, hf, hff, rfl⟩ | ⟨hlong, rest, hrest, rfl⟩⟩
  · exact cyclesFrom_tiles hzero hcs
  · -- The segment ends before its first boundary.
    refine ⟨f, .cons (c := partOf start f previous first) (hopen f hf) (.nil f),
      fun d hd => ⟨fun hdf => ⟨?_, ?_⟩, fun hb => hb.1 f hf⟩⟩
    · intro f' hf'
      obtain rfl : f = f' := Option.some.inj (hf.symm.trans hf')
      exact hdf
    · exact fun j hj g hg _ => (hdf.trans hff).trans_le (grid_le hzero hg hj)
  · obtain ⟨stop, htiles, hstop⟩ := cyclesFrom_tiles hzero hrest
    refine ⟨stop, .cons (c := partOf start first previous first) hlt htiles, fun d hd => ?_⟩
    by_cases hdf : first ≤ d
    · exact hstop d hdf
    · rw [not_le] at hdf
      exact ⟨fun _ => ⟨fun f hf => hdf.trans_le (hlong f hf), fun j hj g hg _ =>
        hdf.trans_le (grid_le hzero hg hj)⟩, fun _ => hdf.trans_le htiles.le⟩

/-! ## An earlier target -/

variable {target' : Date}

theorem start_le_of_mem_cyclesFrom (hs : grid first day months k = .ok s)
    (h : cyclesFrom first finish target day months hm k = .ok cs) : ∀ c ∈ cs, s ≤ c.start := by
  obtain ⟨stop, htiles, -⟩ := cyclesFrom_tiles hs h
  exact htiles.start_le

theorem filter_cons_due {c : BillingCycle} (h : c.start ≤ target) :
    (c :: cs).filter (·.start ≤ target) = c :: cs.filter (·.start ≤ target) :=
  List.filter_cons_of_pos (decide_eq_true h)

theorem filter_due_eq_nil (h : ∀ c ∈ cs, target < c.start) :
    cs.filter (·.start ≤ target) = [] :=
  List.filter_eq_nil_iff.2 fun c hc => by simpa using h c hc

theorem cyclesFrom_target (ht : target ≤ target')
    (h : cyclesFrom first finish target' day months hm k = .ok cs) :
    cyclesFrom first finish target day months hm k = .ok (cs.filter (·.start ≤ target)) := by
  -- The induction is on the cycles up to the later one.
  induction cs generalizing k with
  | nil =>
    obtain ⟨s, hs, ⟨-, hout⟩ | ⟨-, next, -, ⟨f, -, -, -, hcs⟩ | ⟨-, rest, -, hcs⟩⟩⟩ :=
      cyclesFrom_cases h
    · exact cyclesFrom_nil hs (hout.imp_left ht.trans_lt)
    · cases hcs
    · cases hcs
  | cons c cs ih =>
    obtain ⟨s, hs, hcases⟩ := cyclesFrom_cases h
    by_cases hlt : target < s
    · rw [filter_due_eq_nil fun x hx => hlt.trans_le (start_le_of_mem_cyclesFrom hs h x hx)]
      exact cyclesFrom_nil hs (.inl hlt)
    have hdue : s ≤ target := not_lt.1 hlt
    obtain ⟨hcs, -⟩ | ⟨-, next, hnext, ⟨f, rfl, hsf, hfn, hcs⟩ | ⟨hlong, rest, hrest, hcs⟩⟩ := hcases
    · cases hcs
    · rw [hcs, filter_cons_due (c := partOf s f s next) hdue]
      exact cyclesFrom_last hs hdue hsf hnext hfn
    · obtain ⟨rfl, rfl⟩ := List.cons.inj hcs
      rw [filter_cons_due (c := whole s next) hdue]
      exact cyclesFrom_whole hs hdue hnext hlong (ih hrest)

/-- Up to an earlier target date a segment has the cycles that start up to it. -/
theorem inAdvance_target (ht : target ≤ target')
    (h : inAdvance start finish target' day period = .ok cs) :
    inAdvance start finish target day period = .ok (cs.filter (·.start ≤ target)) := by
  obtain ⟨hm, horder⟩ := inAdvance_inOrder h
  obtain ⟨rfl, hout⟩ | ⟨hdue', hopen, hm, first, hfirst, hcases⟩ := inAdvance_cases h
  · exact inAdvance_nil hm horder (hout.imp_right ht.trans_lt)
  by_cases hlt : target < start
  · obtain ⟨stop, htiles, -⟩ := inAdvance_tiles h hdue'
    rw [filter_due_eq_nil fun x hx => hlt.trans_le (htiles.start_le x hx)]
    exact inAdvance_nil hm horder (.inr hlt)
  have hdue : start ≤ target := not_lt.1 hlt
  obtain ⟨rfl, hcs⟩ | ⟨hoff, previous, hprevious, ⟨f, rfl, hff, rfl⟩ | ⟨hlong, rest, hrest, rfl⟩⟩ :=
    hcases
  · exact inAdvance_aligned hm hopen hdue hfirst (cyclesFrom_target ht hcs)
  · rw [filter_cons_due (c := partOf start f previous first) hdue]
    exact inAdvance_short hm (hopen f rfl) hdue hfirst hff hprevious
  · rw [filter_cons_due (c := partOf start first previous first) hdue]
    exact inAdvance_leading hm hdue hfirst hoff hprevious hlong (cyclesFrom_target ht hrest)

theorem start_le_target (h : inAdvance start finish target day period = .ok cs) :
    ∀ c ∈ cs, c.start ≤ target := by
  simpa using List.filter_eq_self.1 (Except.ok.inj ((inAdvance_target le_rfl h).symm.trans h))

end BillingCycle

end Invoicing
