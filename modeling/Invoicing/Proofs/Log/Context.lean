import Invoicing.Log.Process
import Mathlib.Data.List.TakeWhile

/-!
# Blocks of bound fields

What bound fields are behind the block they are bound for. `Context.get_restore` says it of any state
that the block may have left: the fields of the binding are what they were before, the others stay.
A `Script` sets fields, binds them for a block, fails, and goes on after a failure; its blocks may be
nested. A value that cannot be written ends the loop that gives values to fields
(`Context.giveEach_eq`): a block is not entered then, and the fields before it keep their texts.
`Script.run_eq` says what is left of a script: its bindings are closed, and the context has the values
that were given to fields outside of all blocks that bind them (`Script.given`).
-/

namespace Invoicing.Log

variable {c d : Context} {f : Field} {fields : List (Field × String)}

namespace Context

theorem ext_get (h : ∀ f, c.get f = d.get f) : c = d := by
  obtain ⟨_, _, _⟩ := c
  obtain ⟨_, _, _⟩ := d
  rw [Context.mk.injEq]
  exact ⟨h .correlation, h .account, h .invoice⟩

theorem get_put (c : Context) (f g : Field) (v : Option String) :
    (c.put f v).get g = if g = f then v else c.get g := by
  split
  case isTrue h => rw [h, get_put_self]
  case isFalse h => exact get_put_of_ne c v h

/-! ## Values given to fields -/

/-- The last value that a field is given. -/
def lastGiven? (f : Field) (fields : List (Field × String)) : Option String :=
  ((fields.filter (·.1 = f)).getLast?).map (·.2)

theorem lastGiven?_append (f : Field) (xs ys : List (Field × String)) :
    lastGiven? f (xs ++ ys) = (lastGiven? f ys).or (lastGiven? f xs) := by
  unfold lastGiven?
  rw [List.filter_append, List.getLast?_append]
  cases (ys.filter (·.1 = f)).getLast? <;> rfl

theorem lastGiven?_eq_none (h : f ∉ fields.map (·.1)) : lastGiven? f fields = none := by
  have hnil : fields.filter (·.1 = f) = [] := by
    refine List.filter_eq_nil_iff.2 fun x hx hxf => h ?_
    exact List.mem_map.2 ⟨x, hx, of_decide_eq_true hxf⟩
  rw [lastGiven?, hnil]
  rfl

theorem lastGiven?_filter {p : Field × String → Bool} (h : ∀ x ∈ fields, x.1 = f → p x = true) :
    lastGiven? f (fields.filter p) = lastGiven? f fields := by
  have hsame : fields.filter (fun x => x.1 = f && p x) = fields.filter (·.1 = f) := by
    refine List.filter_congr fun x hx => ?_
    by_cases hf : x.1 = f
    · simp [hf, h x hx hf]
    · simp [hf]
  rw [lastGiven?, List.filter_filter, hsame, lastGiven?]

theorem set_append (c : Context) (xs ys : List (Field × String)) :
    c.set (xs ++ ys) = (c.set xs).set ys := List.foldl_append

theorem get_set (c : Context) (fields : List (Field × String)) (f : Field) :
    (c.set fields).get f = (lastGiven? f fields).or (c.get f) := by
  induction fields generalizing c with
  | nil => rfl
  | cons x rest ih =>
    have hcons : lastGiven? f (x :: rest) = (lastGiven? f rest).or (lastGiven? f [x]) :=
      lastGiven?_append f [x] rest
    have hstep : (c.set (x :: rest)).get f =
        (lastGiven? f rest).or ((c.put x.1 (some x.2)).get f) := ih _
    rw [hstep, hcons, get_put, Option.or_assoc]
    congr 1
    by_cases hf : f = x.1
    · subst hf
      simp [lastGiven?]
    · rw [if_neg hf, lastGiven?_eq_none (by simpa using hf), Option.none_or]

/-! ## Bindings -/

theorem bind_eq (c : Context) (fields : List (Field × String)) :
    c.bind fields = fields.foldl (fun state x => bindField state x.1 x.2) (c, []) := rfl

theorem fst_foldl_bindField (saved : Saved) :
    (fields.foldl (fun state x => bindField state x.1 x.2) (c, saved)).1 = c.set fields := by
  induction fields generalizing c saved with
  | nil => rfl
  | cons x rest ih => exact ih _

theorem fst_bind (c : Context) (fields : List (Field × String)) : (c.bind fields).1 = c.set fields := by
  rw [bind_eq, fst_foldl_bindField]

theorem snd_foldl_bindField (c : Context) (saved : Saved) (fields : List (Field × String)) :
    ∃ own, (fields.foldl (fun state x => bindField state x.1 x.2) (c, saved)).2 = own ++ saved ∧ ∀ d f,
      (restore d own).get f = if f ∈ fields.map (·.1) then c.get f else d.get f := by
  induction fields generalizing c saved with
  | nil => exact ⟨[], rfl, fun d f => rfl⟩
  | cons x rest ih =>
    obtain ⟨own, hown, hrestore⟩ := ih (c.put x.1 (some x.2)) ((x.1, c.get x.1) :: saved)
    refine ⟨own ++ [(x.1, c.get x.1)], ?_, ?_⟩
    · rw [List.foldl_cons, List.append_assoc]
      exact hown
    · intro d f
      have hlast : restore d (own ++ [(x.1, c.get x.1)]) = (restore d own).put x.1 (c.get x.1) :=
        List.foldl_append
      rw [hlast, get_put, hrestore, get_put, List.map_cons]
      by_cases hf : f = x.1
      · simp [hf]
      · have hmem : f ∈ x.1 :: rest.map (·.1) ↔ f ∈ rest.map (·.1) := by simp [hf]
        rw [if_neg hf, if_neg hf]
        by_cases hrest : f ∈ rest.map (·.1)
        · rw [if_pos hrest, if_pos (hmem.2 hrest)]
        · rw [if_neg hrest, if_neg (mt hmem.1 hrest)]

/-- A binding puts its own fields back, and nothing else. -/
theorem get_restore (c d : Context) (fields : List (Field × String)) (f : Field) :
    (d.restore (c.bind fields).2).get f = if f ∈ fields.map (·.1) then c.get f else d.get f := by
  obtain ⟨own, hown, hrestore⟩ := snd_foldl_bindField c [] fields
  rw [bind_eq, hown, List.append_nil]
  exact hrestore d f

theorem restore_bind (c : Context) (fields : List (Field × String)) :
    (c.bind fields).1.restore (c.bind fields).2 = c := by
  refine ext_get fun f => ?_
  rw [get_restore, fst_bind, get_set]
  split
  case isTrue => rfl
  case isFalse hf => rw [lastGiven?_eq_none hf, Option.none_or]

/-! ## Values that fields are given -/

theorem ofName?_name (f : Field) : Field.ofName? f.name = some f := by
  cases f <;> decide

theorem name_of_ofName? {name : String} (h : Field.ofName? name = some f) : f.name = name := by
  simpa using List.find?_some h

theorem fieldOf?_eq_some_iff {x : String × Value} {v : Value} :
    fieldOf? x = some (f, v) ↔ x = (f.name, v) ∧ v ≠ .null := by
  obtain ⟨name, w⟩ := x
  rw [fieldOf?, Option.bind_eq_some_iff]
  constructor
  · rintro ⟨g, hg, hw⟩
    split at hw
    case h_1 => cases hw
    case h_2 hnull =>
      obtain ⟨rfl, rfl⟩ := Prod.mk.inj (Option.some.inj hw)
      exact ⟨by rw [name_of_ofName? hg], hnull⟩
  · rintro ⟨⟨⟩, hv⟩
    refine ⟨f, ofName?_name f, ?_⟩
    split
    case h_1 hnull => exact absurd hnull hv
    case h_2 => rfl

/-- The values that are for fields. -/
def known (values : List (String × Value)) : List (Field × Value) := values.filterMap fieldOf?

/-- The texts of the values for fields before the first one that cannot be written. -/
def texts (values : List (String × Value)) : List (Field × String) :=
  ((known values).takeWhile (·.2.isWritable)).map fun x => (x.1, x.2.shown)

/-- Whether some named values bind a field: they have a value for it that is there. -/
def Binds (values : List (String × Value)) (f : Field) : Prop :=
  ∃ v, (f.name, v) ∈ values ∧ v ≠ .null

/-- Whether all values for fields can be written. -/
def Writable (values : List (String × Value)) : Prop :=
  ∀ x ∈ known values, x.2.isWritable = true

instance (values : List (String × Value)) : Decidable (Writable values) :=
  inferInstanceAs (Decidable (∀ x ∈ known values, x.2.isWritable = true))

theorem mem_known_iff {values : List (String × Value)} {v : Value} :
    (f, v) ∈ known values ↔ (f.name, v) ∈ values ∧ v ≠ .null := by
  rw [known, List.mem_filterMap]
  simp only [fieldOf?_eq_some_iff]
  exact ⟨fun ⟨_, hmem, hx, hv⟩ => ⟨hx ▸ hmem, hv⟩, fun ⟨hmem, hv⟩ => ⟨_, hmem, rfl, hv⟩⟩

/-- The loop over named values gives their texts, up to the first value that has none. -/
theorem giveEach_eq {α : Type} (give : α → Field → String → α) (a : α)
    (values : List (String × Value)) : giveEach give a values =
      (if Writable values then .ok () else .error .tooManyDigits,
        (texts values).foldl (fun a x => give a x.1 x.2) a) := by
  induction values generalizing a with
  | nil => rfl
  | cons x rest ih =>
    unfold giveEach
    cases hx : fieldOf? x with
    | none =>
      have hknown : known (x :: rest) = known rest := List.filterMap_cons_none hx
      simp only [Writable, texts, hknown]
      exact ih a
    | some y =>
      have hknown : known (x :: rest) = y :: known rest := List.filterMap_cons_some hx
      dsimp only
      by_cases hy : y.2.isWritable = true
      · simp only [hy, if_true, Writable, texts, hknown, List.forall_mem_cons, true_and,
          List.takeWhile_cons_of_pos, List.map_cons, List.foldl_cons]
        exact ih _
      · simp [hy, Writable, texts, hknown]

variable {values : List (String × Value)}

theorem texts_of_writable (h : Writable values) :
    texts values = (known values).map fun x => (x.1, x.2.shown) := by
  rw [texts, List.takeWhile_eq_self_iff.2 h]

theorem mem_texts_iff (h : Writable values) : f ∈ (texts values).map (·.1) ↔ Binds values f := by
  rw [texts_of_writable h, List.map_map]
  constructor
  · intro hf
    obtain ⟨⟨g, v⟩, hmem, rfl⟩ := List.mem_map.1 hf
    exact ⟨v, mem_known_iff.1 hmem⟩
  · rintro ⟨v, hv⟩
    exact List.mem_map.2 ⟨(f, v), mem_known_iff.2 hv, rfl⟩

end Context

namespace Logging

variable {l : Logging} {values : List (String × Value)}

theorem set_eq (l : Logging) (values : List (String × Value)) : l.set values =
    (if Context.Writable values then .ok () else .error .tooManyDigits,
      { l with context := l.context.set (Context.texts values) }) := by
  unfold set
  rw [Context.giveEach_eq]
  rfl

theorem enter_of_writable (h : Context.Writable values) : l.enter values =
    (.ok (), { l with
      context := (l.context.bind (Context.texts values)).1
      bindings := (l.context.bind (Context.texts values)).2 :: l.bindings }) := by
  unfold enter
  rw [Context.giveEach_eq, if_pos h]
  rfl

theorem enter_of_not_writable (h : ¬ Context.Writable values) :
    l.enter values = (.error .tooManyDigits, (l.set values).2) := by
  unfold enter
  rw [Context.giveEach_eq, if_neg h, set_eq, ← Context.fst_bind]
  rfl

theorem enter_eq_ok_iff {inside : Logging} : l.enter values = (.ok (), inside) ↔
    Context.Writable values ∧ inside = { l with
      context := (l.context.bind (Context.texts values)).1
      bindings := (l.context.bind (Context.texts values)).2 :: l.bindings } := by
  by_cases h : Context.Writable values
  · rw [enter_of_writable h, Prod.mk.injEq]
    exact ⟨fun hin => ⟨h, hin.2.symm⟩, fun hin => ⟨rfl, hin.2.symm⟩⟩
  · rw [enter_of_not_writable h]
    exact ⟨nofun, fun hin => absurd hin.1 h⟩

end Logging

/-! ## Scripts -/

/-- What a program does with the log context. -/
inductive Script where
  | skip
  | set (values : List (String × Value))
  | fail
  /-- Binds values for a block. -/
  | block (values : List (String × Value)) (body : Script)
  | andThen (first second : Script)
  /-- Goes on with another script after a failure of the first. -/
  | rescue (body handler : Script)

namespace Script

/-- Runs a script: whether it fails, and the state it leaves. A block that is entered is left in the same
way whether it fails or not. -/
def run : Script → Logging → Bool × Logging
  | skip, l => (false, l)
  | set values, l =>
    match l.set values with
    | (.ok (), l) => (false, l)
    | (.error _, l) => (true, l)
  | fail, l => (true, l)
  | block values body, l =>
    match l.enter values with
    | (.ok (), l) =>
      let (fails, l) := run body l
      (fails, l.exit)
    | (.error _, l) => (true, l)
  | andThen first second, l =>
    match run first l with
    | (true, l) => (true, l)
    | (false, l) => run second l
  | rescue body handler, l =>
    match run body l with
    | (true, l) => run handler l
    | (false, l) => (false, l)

/-- Whether a script fails. -/
def fails : Script → Bool
  | skip => false
  | set values => ¬ Context.Writable values
  | fail => true
  | block values body => ¬ Context.Writable values || body.fails
  | andThen first second => first.fails || second.fails
  | rescue body handler => body.fails && handler.fails

/-- The values that a script gives to fields, the last one last, without those given inside of a block that
binds the field. -/
def given : Script → List (Field × String)
  | skip | fail => []
  | set values => Context.texts values
  | block values body =>
    if Context.Writable values then
      body.given.filter fun x => x.1 ∉ (Context.texts values).map (·.1)
    else Context.texts values
  | andThen first second => first.given ++ if first.fails then [] else second.given
  | rescue body handler => body.given ++ if body.fails then handler.given else []

theorem get_restore_given (c : Context) (fields given : List (Field × String)) :
    ((c.set fields).set given).restore (c.bind fields).2 =
      c.set (given.filter fun x => x.1 ∉ fields.map (·.1)) := by
  refine Context.ext_get fun f => ?_
  rw [Context.get_restore, Context.get_set, Context.get_set, Context.get_set]
  split
  case isTrue h =>
    rw [Context.lastGiven?_eq_none, Option.none_or]
    intro hmem
    obtain ⟨x, hx, rfl⟩ := List.mem_map.1 hmem
    exact of_decide_eq_true (List.mem_filter.1 hx).2 h
  case isFalse h =>
    rw [Context.lastGiven?_eq_none h, Option.none_or, Context.lastGiven?_filter]
    rintro x - rfl
    simpa using h

theorem run_block_of_not_writable {values : List (String × Value)} (h : ¬ Context.Writable values)
    (body : Script) (l : Logging) : (block values body).run l = (true, (l.set values).2) := by
  rw [run, Logging.enter_of_not_writable h]

/-- What is left of a script: it closes its bindings, and the fields have the values it gave them. -/
theorem run_eq (p : Script) (l : Logging) :
    p.run l = (p.fails, { l with context := l.context.set p.given }) := by
  induction p generalizing l with
  | skip => rfl
  | set values =>
    rw [run, Logging.set_eq, fails, given]
    by_cases h : Context.Writable values
    · simp [h]
    · simp [h]
  | fail => rfl
  | block values body ih =>
    by_cases h : Context.Writable values
    · rw [run, Logging.enter_of_writable h]
      dsimp only
      rw [ih]
      simp only [fails, given, h, if_true, Logging.exit, Context.fst_bind, get_restore_given,
        not_true_eq_false, decide_false, Bool.false_or]
    · rw [run_block_of_not_writable h, Logging.set_eq]
      simp [fails, given, h]
  | andThen first second ih₁ ih₂ =>
    have hfirst := ih₁ l
    simp only [run, fails, given, hfirst]
    cases first.fails with
    | true => simp
    | false =>
      simp only [Bool.false_or, Bool.false_eq_true, if_false, Context.set_append]
      exact ih₂ _
  | rescue body handler ih₁ ih₂ =>
    have hbody := ih₁ l
    simp only [run, fails, given, hbody]
    cases body.fails with
    | true =>
      simp only [Bool.true_and, if_true, Context.set_append]
      exact ih₂ _
    | false => simp

theorem context_run_block {values : List (String × Value)} {body : Script} {l inside : Logging}
    (h : l.enter values = (.ok (), inside)) :
    ((block values body).run l).2.context =
      (body.run inside).2.context.restore (l.context.bind (Context.texts values)).2 := by
  obtain ⟨-, rfl⟩ := Logging.enter_eq_ok_iff.1 h
  rw [run, h]
  dsimp only
  rw [run_eq body]
  rfl

end Script

end Invoicing.Log
