import Invoicing.Proofs.Item
import Invoicing.Proofs.Run
import Invoicing.Proposal

/-!
# Drafts of items

A proposal mints an id for each item, and otherwise depends on nothing in its session. A draft is an
item without these ids, and `Run.Drafts` says that a run makes the items of some drafts, whatever
the session: they get the ids minted next, one after the other (`numbered`). The lemmas here follow
the ways in which proposals are put together.
-/

namespace Invoicing

namespace Item

/-- The item without the ids that are minted for it. -/
def draft (i : Item) : Item := { i with id := .minted 0, invoice := none }

/-- An item made from a draft. -/
def issuedAs (i : Item) (id : Id) (invoice : Option Id) : Item :=
  { i with id := id, invoice := invoice }

end Item

/-- Drafts made items of, with the ids minted from `n` on. -/
def numbered (invoice : Option Id) (n : Nat) (drafts : List Item) : List Item :=
  (drafts.zipIdx n).map fun (i, k) => i.issuedAs (.minted k) invoice

section

variable (invoice : Option Id) (n : Nat)

@[simp] theorem numbered_nil : numbered invoice n [] = [] := rfl

theorem numbered_append (xs ys : List Item) : numbered invoice n (xs ++ ys) =
    numbered invoice n xs ++ numbered invoice (n + xs.length) ys := by
  rw [numbered, List.zipIdx_append, List.map_append]; rfl

theorem map_id_numbered (xs : List Item) :
    (numbered invoice n xs).map (·.id) = (List.range' n xs.length).map Id.minted := by
  rw [numbered, List.map_map, ← List.zipIdx_map_snd n xs, List.map_map]; rfl

theorem map_numbered {β : Type} (g : Item → β) (hg : ∀ i id v, g (i.issuedAs id v) = g i)
    (xs : List Item) : (numbered invoice n xs).map g = xs.map g := by
  rw [numbered, List.map_map]
  conv_rhs => rw [← List.zipIdx_map_fst n xs, List.map_map]
  exact List.map_congr_left fun x _ => hg ..

theorem filter_numbered {β : Type} (g : Item → β) (hg : ∀ i id v, g (i.issuedAs id v) = g i)
    (q : Item → Bool) (hq : ∀ i id v, q (i.issuedAs id v) = q i) (xs : List Item) :
    ((numbered invoice n xs).filter q).map g = (xs.filter q).map g := by
  rw [numbered, List.filter_map, List.map_map]
  conv_rhs => rw [← List.zipIdx_map_fst n xs, List.filter_map, List.map_map]
  have hfun : (q ∘ fun x : Item × Nat => x.1.issuedAs (.minted x.2) invoice) = q ∘ Prod.fst :=
    funext fun x => hq ..
  rw [hfun]
  exact List.map_congr_left fun x _ => hg ..

end

namespace Run

variable {α β γ : Type} {invoice : Option Id}

/-- Whether a run that started with `n` ids minted has made the items of some drafts, or failed if
there are none. `view` says which items a result holds. -/
def Made (invoice : Option Id) (view : α → List Item) (n : Nat) (out : Except Fault α × Session) :
    Except Fault (List Item) → Prop
  | .error f => ∃ s', out = (.error f, s') ∧ n ≤ s'.minted
  | .ok drafts => ∃ a s', out = (.ok a, s') ∧ view a = numbered invoice n drafts ∧
      s'.minted = n + drafts.length

/-- Whether a run makes the items of some drafts in every session. -/
def Drafts (invoice : Option Id) (view : α → List Item) (r : Run α)
    (plan : Except Fault (List Item)) :
    Prop :=
  ∀ s : Session, Made invoice view s.minted (r.from_ s) plan

namespace Drafts

variable {view : α → List Item} {r : Run α} {plan : Except Fault (List Item)}

theorem pure_nil {a : α} (h : view a = []) : Drafts invoice view (pure a) (.ok []) :=
  fun s => ⟨a, s, rfl, h, rfl⟩

theorem quiet_bind {q : Run β} {x : Except Fault β} {f : β → Run α}
    {plan : β → Except Fault (List Item)} (hq : Quiet q x)
    (hf : ∀ b, x = .ok b → Drafts invoice view (f b) (plan b)) :
    Drafts invoice view (q >>= f) (x >>= plan) := by
  intro s
  obtain ⟨s₁, h₁, hm⟩ := hq s
  cases x with
  | error e => exact ⟨s₁, from_bind_error h₁, Nat.le_of_eq hm.symm⟩
  | ok b =>
    change Made invoice view s.minted ((q >>= f).from_ s) (plan b)
    rw [from_bind_ok h₁, ← hm]
    exact hf b rfl s₁

theorem bind_quiet {f : α → Run β} {g : α → β} {view' : β → List Item}
    (hr : Drafts invoice view r plan) (hf : ∀ a, Quiet (f a) (.ok (g a)))
    (hg : ∀ a, view' (g a) = view a) : Drafts invoice view' (r >>= f) plan := by
  intro s
  have h := hr s
  cases plan with
  | error e =>
    obtain ⟨s₁, h₁, hm⟩ := h
    exact ⟨s₁, from_bind_error h₁, hm⟩
  | ok drafts =>
    obtain ⟨a, s₁, h₁, hview, hm⟩ := h
    obtain ⟨s₂, h₂, hm₂⟩ := hf a s₁
    exact ⟨g a, s₂, (from_bind_ok h₁).trans h₂, (hg a).trans hview, hm₂.trans hm⟩

theorem pair {q : Run β} {plan' : Except Fault (List Item)} {view' : β → List Item}
    {g : α → β → γ} {view'' : γ → List Item} (hr : Drafts invoice view r plan)
    (hq : Drafts invoice view' q plan') (hg : ∀ a b, view'' (g a b) = view a ++ view' b) :
    Drafts invoice view'' (r >>= fun a => q >>= fun b => pure (g a b))
      (plan >>= fun xs => plan' >>= fun ys => .ok (xs ++ ys)) := by
  intro s
  have h := hr s
  cases plan with
  | error e =>
    obtain ⟨s₁, h₁, hm⟩ := h
    exact ⟨s₁, from_bind_error h₁, hm⟩
  | ok xs =>
    obtain ⟨a, s₁, h₁, hview, hm⟩ := h
    have h' := hq s₁
    cases plan' with
    | error e =>
      obtain ⟨s₂, h₂, hm₂⟩ := h'
      exact ⟨s₂, (from_bind_ok h₁).trans (from_bind_error h₂), by omega⟩
    | ok ys =>
      obtain ⟨b, s₂, h₂, hview₂, hm₂⟩ := h'
      refine ⟨g a b, s₂, (from_bind_ok h₁).trans (from_bind_ok h₂), ?_, ?_⟩
      · rw [hg, hview, hview₂, hm, numbered_append]
      · rw [hm₂, hm, List.length_append]; omega

theorem mint (view : α → List Item) (g : Item → α) {make : Id → Except Fault Item}
    {draft : Except Fault Item} (hmake : ∀ id, make id = draft.map (·.issuedAs id invoice))
    (hg : ∀ i, view (g i) = [i]) :
    Drafts invoice view (Run.mint >>= fun id =>
        (liftM (make id) : Run Item) >>= fun i => pure (g i))
      (draft.map ([·])) := by
  intro s
  have h₁ := from_mint (s := s)
  cases draft with
  | error e =>
    have h₂ : (liftM (make (.minted s.minted)) : Run Item).from_ { s with minted := s.minted + 1 } =
        (.error e, { s with minted := s.minted + 1 }) := by rw [from_lift, hmake]; rfl
    exact ⟨_, (from_bind_ok h₁).trans (from_bind_error h₂), Nat.le_succ _⟩
  | ok d =>
    have h₂ : (liftM (make (.minted s.minted)) : Run Item).from_ { s with minted := s.minted + 1 } =
        (.ok (d.issuedAs (.minted s.minted) invoice), { s with minted := s.minted + 1 }) := by
      rw [from_lift, hmake]; rfl
    exact ⟨_, _, (from_bind_ok h₁).trans (from_bind_ok h₂), hg _, rfl⟩

theorem mapM {δ : Type} {f : δ → Run α} {plan : δ → Except Fault (List Item)} (l : List δ)
    (h : ∀ a ∈ l, Drafts invoice view (f a) (plan a)) :
    Drafts invoice (fun as => as.flatMap view) (l.mapM f) ((l.mapM plan).map List.flatten) := by
  induction l with
  | nil => exact pure_nil rfl
  | cons a l ih =>
    rw [List.mapM_cons, List.mapM_cons]
    have hpair : Drafts invoice (fun as => as.flatMap view)
        (f a >>= fun b => l.mapM f >>= fun bs => pure (b :: bs))
        (plan a >>= fun xs => (l.mapM plan).map List.flatten >>= fun ys => .ok (xs ++ ys)) :=
      (h a (by simp)).pair (ih fun x hx => h x (by simp [hx])) fun _ _ => rfl
    have hplan : (plan a >>= fun xs => (l.mapM plan).map List.flatten >>=
          fun ys => .ok (xs ++ ys)) =
        (plan a >>= fun x => l.mapM plan >>= fun xs => pure (x :: xs)).map List.flatten := by
      cases plan a <;> cases l.mapM plan <;> rfl
    rw [hplan] at hpair
    exact hpair

end Drafts

end Run

end Invoicing
