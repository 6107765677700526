import Mathlib.Data.List.Forall2

/-!
# Outcomes

Computations that may fail, taken apart: what a chain of steps, a pass over a list, a filter and a
search that succeed say about their parts.
-/

namespace Invoicing

variable {ε α β : Type}

theorem bind_eq_ok_iff {x : Except ε α} {f : α → Except ε β} {b : β} :
    (x >>= f) = .ok b ↔ ∃ a, x = .ok a ∧ f a = .ok b := by
  cases x <;> simp [bind, Except.bind]

theorem bind_eq_error_iff {x : Except ε α} {f : α → Except ε β} {e : ε} :
    (x >>= f) = .error e ↔ x = .error e ∨ ∃ a, x = .ok a ∧ f a = .error e := by
  cases x <;> simp [bind, Except.bind]

theorem isOk_iff {x : Except ε α} : x.isOk = true ↔ ∃ a, x = .ok a := by
  cases x <;> simp [Except.isOk, Except.toBool]

theorem toOption_any_iff {x : Except ε α} {p : α → Bool} :
    x.toOption.any p = true ↔ ∃ a, x = .ok a ∧ p a = true := by
  cases x <;> simp [Except.toOption]

theorem map_eq_ok_iff {x : Except ε α} {f : α → β} {b : β} :
    x.map f = .ok b ↔ ∃ a, x = .ok a ∧ f a = b := by
  cases x <;> simp [Except.map]

theorem mapError_eq_ok_iff {ε' : Type} {x : Except ε α} {f : ε → ε'} {a : α} :
    x.mapError f = .ok a ↔ x = .ok a := by
  cases x <;> simp [Except.mapError]

theorem mapM_eq_ok_cons {f : α → Except ε β} {a : α} {l : List α} {r : List β} :
    (a :: l).mapM f = .ok r ↔ ∃ b bs, f a = .ok b ∧ l.mapM f = .ok bs ∧ r = b :: bs := by
  rw [List.mapM_cons, bind_eq_ok_iff]
  simp only [bind_eq_ok_iff, pure, Except.pure, Except.ok.injEq]
  constructor
  · rintro ⟨b, hb, bs, hbs, rfl⟩; exact ⟨b, bs, hb, hbs, rfl⟩
  · rintro ⟨b, bs, hb, hbs, rfl⟩; exact ⟨b, hb, bs, hbs, rfl⟩

theorem mapM_eq_ok_of_forall {f : α → Except ε β} {g : α → β} {l : List α}
    (h : ∀ a ∈ l, f a = .ok (g a)) : l.mapM f = .ok (l.map g) := by
  induction l with
  | nil => rfl
  | cons a l ih =>
    exact mapM_eq_ok_cons.2
      ⟨g a, l.map g, h a (by simp), ih fun x hx => h x (by simp [hx]), rfl⟩

theorem mapM_eq_ok_iff_forall₂ {f : α → Except ε β} {l : List α} {r : List β} :
    l.mapM f = .ok r ↔ List.Forall₂ (fun a b => f a = .ok b) l r := by
  induction l generalizing r with
  | nil => simp [pure, Except.pure, eq_comm, List.forall₂_nil_left_iff]
  | cons a l ih =>
    rw [mapM_eq_ok_cons]
    constructor
    · rintro ⟨b, bs, hb, hbs, rfl⟩
      exact .cons hb (ih.1 hbs)
    · rintro (_ | ⟨hb, hbs⟩)
      exact ⟨_, _, hb, ih.2 hbs, rfl⟩

theorem mapM_filter {f : α → Except ε β} {p : α → Bool} {q : β → Bool} {l : List α} {r : List β}
    (h : l.mapM f = .ok r) (hq : ∀ a ∈ l, ∀ b, f a = .ok b → q b = p a) :
    (l.filter p).mapM f = .ok (r.filter q) := by
  induction l generalizing r with
  | nil =>
    obtain rfl : [] = r := Except.ok.inj h
    rfl
  | cons a l ih =>
    obtain ⟨b, bs, hb, hbs, rfl⟩ := mapM_eq_ok_cons.1 h
    have hrest := ih hbs fun x hx => hq x (by simp [hx])
    have hab := hq a (by simp) b hb
    by_cases hp : p a
    · rw [List.filter_cons_of_pos hp, List.filter_cons_of_pos (hab.trans hp)]
      exact mapM_eq_ok_cons.2 ⟨b, _, hb, hrest, rfl⟩
    · rw [List.filter_cons_of_neg hp, List.filter_cons_of_neg (by rw [hab]; exact hp)]
      exact hrest

theorem flatten_mapM_filter {f g : α → Except ε (List β)} {q : β → Bool} {l : List α}
    {r : List (List β)} (hg : l.mapM g = .ok r)
    (h : ∀ a ∈ l, ∀ x, g a = .ok x → f a = .ok (x.filter q)) :
    (l.mapM f).map List.flatten = .ok (r.flatten.filter q) := by
  have hf : l.mapM f = .ok (r.map (·.filter q)) := by
    rw [mapM_eq_ok_iff_forall₂] at hg ⊢
    rw [List.forall₂_map_right_iff]
    exact List.forall₂_iff_get.2 ⟨hg.length_eq, fun i hi hi' =>
      h _ (List.getElem_mem hi) _ (hg.get hi hi')⟩
  rw [hf, List.filter_flatten]
  rfl

theorem mem_of_mapM {f : α → Except ε β} {l : List α} {r : List β} (h : l.mapM f = .ok r) {b : β}
    (hb : b ∈ r) : ∃ a ∈ l, f a = .ok b := by
  induction l generalizing r with
  | nil =>
    obtain rfl : [] = r := Except.ok.inj h
    simp at hb
  | cons a l ih =>
    obtain ⟨x, xs, hx, hxs, rfl⟩ := mapM_eq_ok_cons.1 h
    rcases List.mem_cons.1 hb with rfl | hb
    · exact ⟨a, by simp, hx⟩
    · obtain ⟨c, hc, hcb⟩ := ih hxs hb
      exact ⟨c, by simp [hc], hcb⟩

theorem exists_of_mapM {f : α → Except ε β} {l : List α} {r : List β} (h : l.mapM f = .ok r) {a : α}
    (ha : a ∈ l) : ∃ b ∈ r, f a = .ok b := by
  induction l generalizing r with
  | nil => simp at ha
  | cons x l ih =>
    obtain ⟨b, bs, hb, hbs, rfl⟩ := mapM_eq_ok_cons.1 h
    rcases List.mem_cons.1 ha with rfl | ha
    · exact ⟨b, by simp, hb⟩
    · obtain ⟨c, hc, hac⟩ := ih hbs ha
      exact ⟨c, by simp [hc], hac⟩

/-- Whether a test succeeds with the answer yes. -/
def holds (x : Except ε Bool) : Bool :=
  match x with
  | .ok b => b
  | .error _ => false

theorem holds_iff {x : Except ε Bool} : holds x = true ↔ x = .ok true := by
  unfold holds
  split <;> simp

theorem filterAuxM_eq_ok {p : α → Except ε Bool} {l acc r : List α}
    (h : List.filterAuxM p l acc = .ok r) :
    r = (l.filter fun a => holds (p a)).reverse ++ acc := by
  induction l generalizing acc with
  | nil => simpa [List.filterAuxM, pure, Except.pure, eq_comm] using h
  | cons a l ih =>
    rw [List.filterAuxM, bind_eq_ok_iff] at h
    obtain ⟨b, hb, h⟩ := h
    cases b with
    | true => simpa [holds, hb] using ih h
    | false => simpa [holds, hb] using ih h

theorem filterM_eq_ok {p : α → Except ε Bool} {l r : List α} (h : l.filterM p = .ok r) :
    r = l.filter fun a => holds (p a) := by
  rw [List.filterM, bind_eq_ok_iff] at h
  obtain ⟨s, hs, h⟩ := h
  simp only [pure, Except.pure, Except.ok.injEq] at h
  simp [← h, filterAuxM_eq_ok hs]

theorem filterAuxM_isOk {p : α → Except ε Bool} {l : List α} (h : ∀ a ∈ l, ∃ b, p a = .ok b)
    (acc : List α) : ∃ r, List.filterAuxM p l acc = .ok r := by
  induction l generalizing acc with
  | nil => exact ⟨acc, rfl⟩
  | cons a l ih =>
    obtain ⟨b, hb⟩ := h a (by simp)
    obtain ⟨r, hr⟩ := ih (fun x hx => h x (by simp [hx])) (cond b (a :: acc) acc)
    exact ⟨r, by rw [List.filterAuxM]; exact bind_eq_ok_iff.2 ⟨b, hb, hr⟩⟩

theorem filterM_isOk {p : α → Except ε Bool} {l : List α} (h : ∀ a ∈ l, ∃ b, p a = .ok b) :
    l.filterM p = .ok (l.filter fun a => holds (p a)) := by
  obtain ⟨r, hr⟩ := filterAuxM_isOk h []
  have hok : l.filterM p = .ok r.reverse := by
    rw [List.filterM]
    exact bind_eq_ok_iff.2 ⟨r, hr, rfl⟩
  rw [hok, filterM_eq_ok hok]

theorem filterAuxM_filter {p : α → Except ε Bool} {q : α → Bool} {l : List α}
    (h : ∀ a ∈ l, q a = false → p a = .ok false) (acc : List α) :
    List.filterAuxM p (l.filter q) acc = List.filterAuxM p l acc := by
  induction l generalizing acc with
  | nil => rfl
  | cons a l ih =>
    have ih := ih fun x hx => h x (by simp [hx])
    cases hq : q a with
    | true =>
      rw [List.filter_cons_of_pos hq, List.filterAuxM, List.filterAuxM]
      simp only [ih]
    | false =>
      rw [List.filter_cons_of_neg (by simp [hq]), List.filterAuxM, h a (by simp) hq]
      exact ih acc

theorem filterM_filter {p : α → Except ε Bool} {q : α → Bool} {l : List α}
    (h : ∀ a ∈ l, q a = false → p a = .ok false) : (l.filter q).filterM p = l.filterM p := by
  rw [List.filterM, List.filterM, filterAuxM_filter h]

theorem findM?_eq_some {p : α → Except ε Bool} {l : List α} {a : α}
    (h : l.findM? p = .ok (some a)) : a ∈ l ∧ p a = .ok true := by
  induction l with
  | nil => simp [List.findM?, pure, Except.pure] at h
  | cons x l ih =>
    rw [List.findM?, bind_eq_ok_iff] at h
    obtain ⟨b, hb, h⟩ := h
    cases b with
    | true =>
      obtain rfl : x = a := by simpa [pure, Except.pure] using h
      exact ⟨by simp, hb⟩
    | false =>
      obtain ⟨hm, ha⟩ := ih h
      exact ⟨by simp [hm], ha⟩

theorem findM?_eq_none {p : α → Except ε Bool} {l : List α} (h : l.findM? p = .ok none) :
    ∀ a ∈ l, p a = .ok false := by
  induction l with
  | nil => simp
  | cons x l ih =>
    rw [List.findM?, bind_eq_ok_iff] at h
    obtain ⟨b, hb, h⟩ := h
    cases b with
    | true => simp [pure, Except.pure] at h
    | false => simpa [hb] using ih h

theorem findM?_isOk {p : α → Except ε Bool} {l : List α} (h : ∀ a ∈ l, ∃ b, p a = .ok b) :
    ∃ r, l.findM? p = .ok r := by
  induction l with
  | nil => exact ⟨none, rfl⟩
  | cons x l ih =>
    obtain ⟨b, hb⟩ := h x (by simp)
    cases b with
    | true => exact ⟨some x, by rw [List.findM?]; exact bind_eq_ok_iff.2 ⟨true, hb, rfl⟩⟩
    | false =>
      obtain ⟨r, hr⟩ := ih fun a ha => h a (by simp [ha])
      exact ⟨r, by rw [List.findM?]; exact bind_eq_ok_iff.2 ⟨false, hb, hr⟩⟩

/-! ## Ways to fail -/

/-- Whether a computation fails only with errors of a kind. -/
def FailsOnly (P : ε → Prop) (x : Except ε α) : Prop := ∀ e, x = .error e → P e

namespace FailsOnly

variable {P Q : ε → Prop} {x : Except ε α}

theorem ok (a : α) : FailsOnly P (.ok a : Except ε α) := by
  intro e h
  cases h

theorem error {e : ε} (h : P e) : FailsOnly P (.error e : Except ε α) := by
  intro e' h'
  cases h'
  exact h

theorem mono (h : FailsOnly P x) (hPQ : ∀ e, P e → Q e) : FailsOnly Q x :=
  fun e he => hPQ e (h e he)

theorem bind {f : α → Except ε β} (hx : FailsOnly P x) (hf : ∀ a, x = .ok a → FailsOnly P (f a)) :
    FailsOnly P (x >>= f) := by
  cases x with
  | error e => exact error (hx e rfl)
  | ok a => exact hf a rfl

theorem map {f : α → β} (hx : FailsOnly P x) : FailsOnly P (x.map f) := by
  cases x with
  | error e => exact error (hx e rfl)
  | ok a => exact ok (f a)

theorem mapError {ε' : Type} {P : ε' → Prop} {g : ε → ε'} (h : ∀ e, P (g e)) :
    FailsOnly P (x.mapError g) := by
  cases x with
  | error e => exact error (h e)
  | ok a => exact ok a

theorem mapM {f : α → Except ε β} {l : List α} (h : ∀ a ∈ l, FailsOnly P (f a)) :
    FailsOnly P (l.mapM f) := by
  induction l with
  | nil => exact ok []
  | cons a l ih =>
    rw [List.mapM_cons]
    refine (h a (by simp)).bind fun b _ => ?_
    exact (ih fun x hx => h x (by simp [hx])).bind fun bs _ => ok (b :: bs)

end FailsOnly

end Invoicing
