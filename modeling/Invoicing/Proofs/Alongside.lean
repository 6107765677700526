import Invoicing.Proofs.Outcome

/-!
# Outcomes side by side

Two computations run `Alongside` each other if both fail with one error or both succeed with results
that are related. That is kept by every way to put computations together, so two runs of one function
are compared step by step.
-/

namespace Invoicing

variable {ε α β γ δ : Type}

/-- Whether two computations fail with the same error or come to related results. -/
def Alongside (R : α → β → Prop) : Except ε α → Except ε β → Prop
  | .ok a, .ok b => R a b
  | .error e, .error e' => e = e'
  | _, _ => False

namespace Alongside

variable {R R' : α → β → Prop} {S : γ → δ → Prop} {x : Except ε α} {y : Except ε β}

theorem ok {a : α} {b : β} (h : R a b) : Alongside R (.ok a : Except ε α) (.ok b) := h

theorem error (e : ε) : Alongside R (.error e) (.error e) := rfl

theorem refl {R : α → α → Prop} (h : ∀ a, R a a) (x : Except ε α) : Alongside R x x := by
  cases x with
  | error e => exact error e
  | ok a => exact ok (h a)

theorem eq {y : Except ε α} (h : Alongside (· = ·) x y) : x = y := by
  match x, y, h with
  | .ok _, .ok _, h => exact congrArg Except.ok h
  | .error _, .error _, h => exact congrArg Except.error h

theorem mono (h : Alongside R x y) (hR : ∀ a b, R a b → R' a b) : Alongside R' x y := by
  match x, y, h with
  | .ok a, .ok b, h => exact hR a b h
  | .error _, .error _, h => exact h

theorem bind {f : α → Except ε γ} {g : β → Except ε δ} (h : Alongside R x y)
    (hf : ∀ a b, R a b → Alongside S (f a) (g b)) : Alongside S (x >>= f) (y >>= g) := by
  match x, y, h with
  | .ok a, .ok b, h => exact hf a b h
  | .error _, .error _, h => exact h

theorem map {f : α → γ} {g : β → δ} (h : Alongside R x y) (hf : ∀ a b, R a b → S (f a) (g b)) :
    Alongside S (x.map f) (y.map g) := by
  match x, y, h with
  | .ok a, .ok b, h => exact hf a b h
  | .error _, .error _, h => exact h

theorem mapError {ε' : Type} (f : ε → ε') (h : Alongside R x y) :
    Alongside R (x.mapError f) (y.mapError f) := by
  match x, y, h with
  | .ok _, .ok _, h => exact h
  | .error _, .error _, h => exact congrArg f h

theorem error_or_ok (h : Alongside R x y) :
    (∃ e, x = .error e ∧ y = .error e) ∨ ∃ a b, x = .ok a ∧ y = .ok b ∧ R a b := by
  match x, y, h with
  | .ok a, .ok b, h => exact .inr ⟨a, b, rfl, rfl, h⟩
  | .error e, .error _, h => exact .inl ⟨e, rfl, congrArg Except.error h.symm⟩

theorem exists_ok {a : α} (h : Alongside R x y) (hx : x = .ok a) : ∃ b, y = .ok b ∧ R a b := by
  subst hx
  match y, h with
  | .ok b, h => exact ⟨b, rfl, h⟩

theorem mapM {f : α → Except ε γ} {g : β → Except ε δ} {as : List α} {bs : List β}
    (h : List.Forall₂ R as bs) (hf : ∀ a b, R a b → Alongside S (f a) (g b)) :
    Alongside (List.Forall₂ S) (as.mapM f) (bs.mapM g) := by
  induction h with
  | nil => exact ok .nil
  | cons hab _ ih =>
    rw [List.mapM_cons, List.mapM_cons]
    exact (hf _ _ hab).bind fun c d hcd => ih.bind fun cs ds hcds => ok (.cons hcd hcds)

end Alongside

/-! ## Pairs tested by their sides -/

theorem filterAuxM_map {p : β → Except ε Bool} (g : α → β) (l acc : List α) :
    List.filterAuxM p (l.map g) (acc.map g) =
      (List.filterAuxM (fun a => p (g a)) l acc).map (List.map g) := by
  induction l generalizing acc with
  | nil => rfl
  | cons a l ih =>
    rw [List.map_cons, List.filterAuxM, List.filterAuxM]
    cases p (g a) with
    | error e => rfl
    | ok b =>
      cases b with
      | true => exact ih (a :: acc)
      | false => exact ih acc

theorem filterM_map {p : β → Except ε Bool} (g : α → β) (l : List α) :
    (l.map g).filterM p = (l.filterM fun a => p (g a)).map (List.map g) := by
  have h := filterAuxM_map (p := p) g l []
  rw [List.map_nil] at h
  rw [List.filterM, List.filterM, h]
  cases List.filterAuxM (fun a => p (g a)) l [] with
  | error e => rfl
  | ok r => exact congrArg Except.ok (List.map_reverse).symm

theorem findM?_map {p : β → Except ε Bool} (g : α → β) (l : List α) :
    (l.map g).findM? p = (l.findM? fun a => p (g a)).map (Option.map g) := by
  induction l with
  | nil => rfl
  | cons a l ih =>
    rw [List.map_cons, List.findM?, List.findM?, ih]
    cases p (g a) with
    | error e => rfl
    | ok b => cases b <;> rfl

section

variable {p : α → Except ε Bool} {q : β → Except ε Bool} {zs : List (α × β)}

theorem filterAuxM_congr {p q : α → Except ε Bool} {l : List α} (h : ∀ a ∈ l, p a = q a)
    (acc : List α) : List.filterAuxM p l acc = List.filterAuxM q l acc := by
  induction l generalizing acc with
  | nil => rfl
  | cons a l ih =>
    have ih := ih fun x hx => h x (by simp [hx])
    rw [List.filterAuxM, List.filterAuxM, h a (by simp)]
    simp only [ih]

theorem Alongside.filterM (h : ∀ z ∈ zs, p z.1 = q z.2) :
    Alongside (fun xs ys => ∃ ws, ws ⊆ zs ∧ xs = ws.map Prod.fst ∧ ys = ws.map Prod.snd)
      ((zs.map Prod.fst).filterM p) ((zs.map Prod.snd).filterM q) := by
  have hsame : (zs.filterM fun z => p z.1) = zs.filterM fun z => q z.2 := by
    rw [List.filterM, List.filterM, filterAuxM_congr h]
  rw [filterM_map, filterM_map, ← hsame]
  cases hr : zs.filterM fun z => p z.1 with
  | error e => exact .error e
  | ok ws =>
    refine .ok ⟨ws, ?_, rfl, rfl⟩
    rw [filterM_eq_ok hr]
    exact List.filter_subset_self _

theorem Alongside.findM? (h : ∀ z ∈ zs, p z.1 = q z.2) :
    Alongside (fun x y => ∃ o : Option (α × β), (∀ z ∈ o, z ∈ zs) ∧ x = o.map Prod.fst ∧
      y = o.map Prod.snd) ((zs.map Prod.fst).findM? p) ((zs.map Prod.snd).findM? q) := by
  have hsame : (zs.findM? fun z => p z.1) = zs.findM? fun z => q z.2 := by
    induction zs with
    | nil => rfl
    | cons z zs ih =>
      rw [List.findM?, List.findM?, h z (by simp), ih fun w hw => h w (by simp [hw])]
  rw [findM?_map, findM?_map, ← hsame]
  cases hr : zs.findM? fun z => p z.1 with
  | error e => exact .error e
  | ok o =>
    refine .ok ⟨o, fun z hz => ?_, rfl, rfl⟩
    obtain rfl : o = some z := hz
    exact (findM?_eq_some hr).1

end

end Invoicing
