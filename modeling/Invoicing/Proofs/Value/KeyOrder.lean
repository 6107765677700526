import Invoicing.Value.Json
import Mathlib.Data.List.Perm.Basic

/-!
# Keys that can be sorted

Two keys have an order just if they are of one kind (`Value.before?_isSome_iff`): both texts, both
numbers, both dates, and so on. So entries can be sorted just if their keys are pairwise of one kind
(`Value.sortEntries?_isSome_iff`), and sorting keeps all of them (`Value.perm_of_sortEntries?`).
-/

namespace Invoicing

/-- The kinds of keys that have an order among themselves. -/
inductive KeyKind where
  | text | number | bytes | date
  /-- Timestamps, either all with a place or all without. -/
  | time (placed : Bool)
  deriving DecidableEq

theorem Timestamp.before?_isSome_iff (t u : Timestamp) :
    (t.before? u).isSome ↔ t.place.isSome = u.place.isSome := by
  have hnone : ∀ t : Timestamp, t.instant? = none ↔ t.place = none := by
    intro t
    rw [instant?, offset?, Option.map_eq_none_iff, Option.map_eq_none_iff]
  unfold before?
  split
  case isTrue hplace => simp [hplace]
  case isFalse hplace =>
    have hsome : ∀ t : Timestamp, t.place.isSome = t.instant?.isSome := by
      intro t
      rw [instant?, offset?, Option.isSome_map, Option.isSome_map]
    rw [hsome, hsome]
    rcases ht : t.instant? with _ | x <;> rcases hu : u.instant? with _ | y
    -- without a place on either side the two places would be the same
    · exact absurd (((hnone t).1 ht).trans ((hnone u).1 hu).symm) hplace
    all_goals simp

namespace Value

variable {a b c : Value}

/-- The kind of a key, if it has an order. -/
def keyKind? : Value → Option KeyKind
  | .text _ | .member _ _ => some .text
  | .flag _ | .int _ | .real _ => some .number
  | .bytes _ => some .bytes
  | .date _ => some .date
  | .timestamp t => some (.time t.place.isSome)
  | _ => none

/-- Whether two keys are of one kind that has an order. -/
def Comparable (a b : Value) : Prop := a.keyKind?.isSome ∧ a.keyKind? = b.keyKind?

theorem Comparable.symm (h : Comparable a b) : Comparable b a := ⟨h.2 ▸ h.1, h.2.symm⟩

theorem Comparable.trans (h : Comparable a b) (h' : Comparable b c) : Comparable a c :=
  ⟨h.1, h.2.trans h'.2⟩

theorem before?_isSome_iff (a b : Value) : (before? a b).isSome ↔ Comparable a b := by
  unfold Comparable
  cases a <;> cases b <;> simp [before?, keyKind?, asText?, isNumber]
  case timestamp.timestamp t u => exact Timestamp.before?_isSome_iff t u

/-! ## Sorting -/

variable {x : Value × Value} {sorted entries result : List (Value × Value)}

theorem perm_of_insertSorted? (h : insertSorted? x sorted = some result) :
    result.Perm (x :: sorted) := by
  induction sorted generalizing result with
  | nil =>
    obtain rfl : [x] = result := Option.some.inj h
    exact .refl _
  | cons y rest ih =>
    obtain ⟨isBefore, -, h⟩ := Option.bind_eq_some_iff.1 h
    split at h
    case isTrue =>
      obtain rfl := Option.some.inj h
      exact .refl _
    case isFalse =>
      obtain ⟨tail, htail, rfl⟩ := Option.map_eq_some_iff.1 h
      exact ((ih htail).cons y).trans (.swap x y rest)

theorem insertSorted?_isSome_iff (h : sorted.Pairwise fun a b => Comparable a.1 b.1) :
    (insertSorted? x sorted).isSome ↔ ∀ y ∈ sorted, Comparable x.1 y.1 := by
  induction sorted with
  | nil => simp [insertSorted?]
  | cons y rest ih =>
    obtain ⟨hy, hrest⟩ := List.pairwise_cons.1 h
    rw [insertSorted?, List.forall_mem_cons]
    constructor
    · intro hsome
      obtain ⟨r, hr⟩ := Option.isSome_iff_exists.1 hsome
      obtain ⟨isBefore, hbefore, -⟩ := Option.bind_eq_some_iff.1 hr
      have hxy : Comparable x.1 y.1 := (before?_isSome_iff _ _).1 (by rw [hbefore]; rfl)
      exact ⟨hxy, fun z hz => hxy.trans (hy z hz)⟩
    · rintro ⟨hxy, hxrest⟩
      obtain ⟨isBefore, hbefore⟩ := Option.isSome_iff_exists.1 ((before?_isSome_iff _ _).2 hxy)
      rw [hbefore]
      cases isBefore with
      | true => rfl
      | false =>
        have hplace := (ih hrest).2 hxrest
        simpa using hplace

theorem foldlM_insertSorted?_isSome_iff (h : sorted.Pairwise fun a b => Comparable a.1 b.1) :
    (entries.foldlM (fun sorted x => insertSorted? x sorted) sorted).isSome ↔
      (sorted ++ entries).Pairwise fun a b => Comparable a.1 b.1 := by
  induction entries generalizing sorted with
  | nil => simpa [pure] using h
  | cons x rest ih =>
    rw [List.foldlM_cons]
    cases hplace : insertSorted? x sorted with
    | none =>
      have hnone : ¬ ∀ y ∈ sorted, Comparable x.1 y.1 := by
        rw [← insertSorted?_isSome_iff h, hplace]
        simp
      refine iff_of_false (by simp) fun hall => hnone fun y hy => ?_
      exact ((List.pairwise_append.1 hall).2.2 y hy x (by simp)).symm
    | some next =>
      -- the entries sorted so far are others in each step, but only up to their order
      have hperm := perm_of_insertSorted? hplace
      have hsymm : ∀ a b : Value × Value, Comparable a.1 b.1 → Comparable b.1 a.1 := fun _ _ h => h.symm
      have hall : ∀ y ∈ sorted, Comparable x.1 y.1 := by
        rw [← insertSorted?_isSome_iff h, hplace]
        rfl
      have hnext : next.Pairwise fun a b => Comparable a.1 b.1 :=
        (hperm.pairwise_iff (hsymm _ _)).2 (List.pairwise_cons.2 ⟨hall, h⟩)
      rw [Option.bind_eq_bind, Option.bind_some, ih hnext]
      refine List.Perm.pairwise_iff (hsymm _ _) ?_
      exact (hperm.append_right rest).trans List.perm_middle.symm

/-- Entries can be sorted just if their keys are pairwise of one kind. -/
theorem sortEntries?_isSome_iff (entries : List (Value × Value)) :
    (sortEntries? entries).isSome ↔ entries.Pairwise fun a b => Comparable a.1 b.1 :=
  foldlM_insertSorted?_isSome_iff .nil

theorem perm_of_foldlM_insertSorted?
    (h : entries.foldlM (fun sorted x => insertSorted? x sorted) sorted = some result) :
    result.Perm (sorted ++ entries) := by
  induction entries generalizing sorted with
  | nil =>
    obtain rfl : sorted = result := Option.some.inj h
    simp
  | cons x rest ih =>
    rw [List.foldlM_cons] at h
    obtain ⟨next, hplace, h⟩ := Option.bind_eq_some_iff.1 h
    exact (ih h).trans (((perm_of_insertSorted? hplace).append_right rest).trans List.perm_middle.symm)

theorem perm_of_sortEntries? (h : sortEntries? entries = some result) : result.Perm entries :=
  perm_of_foldlM_insertSorted? h

end Value

end Invoicing
