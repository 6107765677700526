import Invoicing.Calendar.Zone
import Mathlib.Data.List.Chain

/-!
# Clocks set back over midnight

A zone's days come in the order of the instants as long as its clocks are not set back into the day
before (`Zone.dayAt_le`). Clocks that go back at one minute past midnight are, and so are those of a
place that changes sides of the date line from east to west.
-/

namespace Invoicing.Zone

/-- Number of the day that a zone's clocks show at an instant. -/
def dayAt (z : Zone) (instant : Int) : Int := (instant + z.offsetAt instant) / 86400

/-- The changes that set a zone's clocks back over midnight: right after such a change they show an
earlier day than in the second before. -/
def setBacks (z : Zone) : List OffsetChange :=
  go z.first z.changes
where
  go (current : Int) : List OffsetChange → List OffsetChange
    | [] => []
    | c :: rest =>
      if (c.instant + c.offset) / 86400 < (c.instant - 1 + current) / 86400 then
        c :: go c.offset rest
      else go c.offset rest

/-- Whether a clock is set back over midnight after one instant and up to another. -/
def SetBackBetween (z : Zone) (x y : Int) : Prop := ∃ c ∈ z.setBacks, x < c.instant ∧ c.instant ≤ y

theorem offsetAt_go_eq {current x : Int} {changes : List OffsetChange}
    (h : ∀ c ∈ changes, x < c.instant) : offsetAt.go x current changes = current := by
  cases changes with
  | nil => rfl
  | cons c rest => exact if_neg (by have := h c (by simp); omega)

theorem setBacks_go_subset (current : Int) (c : OffsetChange) (rest : List OffsetChange) :
    setBacks.go c.offset rest ⊆ setBacks.go current (c :: rest) := by
  intro x hx
  unfold setBacks.go
  split
  · exact List.mem_cons_of_mem _ hx
  · exact hx

theorem dayAt_go_le {changes : List OffsetChange} {x y : Int}
    (hs : changes.Pairwise fun a b => a.instant < b.instant) (hxy : x ≤ y) :
    ∀ current, (∀ c ∈ setBacks.go current changes, x < c.instant → ¬ c.instant ≤ y) →
      (x + offsetAt.go x current changes) / 86400 ≤ (y + offsetAt.go y current changes) / 86400 := by
  induction changes generalizing x with
  | nil =>
    intro current _
    show (x + current) / 86400 ≤ (y + current) / 86400
    omega
  | cons c rest ih =>
    intro current hback
    have hrest : ∀ d ∈ rest, c.instant < d.instant := fun d => List.rel_of_pairwise_cons hs
    have hback' : ∀ d ∈ setBacks.go c.offset rest, x < d.instant → ¬ d.instant ≤ y :=
      fun d hd => hback d (setBacks_go_subset current c rest hd)
    unfold offsetAt.go
    by_cases hx : c.instant ≤ x
    · rw [if_pos hx, if_pos (Int.le_trans hx hxy)]
      exact ih hs.of_cons hxy c.offset hback'
    · rw [if_neg hx]
      by_cases hy : c.instant ≤ y
      · rw [if_pos hy]
        have hturn : ¬ (c.instant + c.offset) / 86400 < (c.instant - 1 + current) / 86400 := by
          intro hlt
          exact hback c (by rw [setBacks.go, if_pos hlt]; simp) (by omega) hy
        have hafter := ih hs.of_cons hy c.offset fun d hd h => hback' d hd (by omega)
        rw [offsetAt_go_eq hrest] at hafter
        omega
      · rw [if_neg hy]
        omega

theorem dayAt_le {z : Zone} {x y : Int} (hxy : x ≤ y) (h : ¬ z.SetBackBetween x y) :
    z.dayAt x ≤ z.dayAt y :=
  dayAt_go_le z.ordered hxy z.first fun c hc hx hy => h ⟨c, hc, hx, hy⟩

end Invoicing.Zone
