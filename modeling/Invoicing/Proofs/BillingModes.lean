import Invoicing.BillingModes
import Mathlib.Data.List.Nodup
import Mathlib.Data.String.Basic

/-!
# The strategies in force

The registered strategies are a finite map from modes (`BillingModes.find?_put`,
`BillingModes.find?_unregister`), and no call loses, doubles or swaps one: after any calls the strategy
of a mode is that of the last registration which was not refused and not taken back since
(`BillingModes.Reflects`, `BillingModes.run_reflects`). The strategies at the start are a registration
like others, the first one.
-/

namespace Invoicing

namespace BillingMode

variable {mode : BillingMode} {text : String}

theorem ofName?_eq_some_iff : ofName? text = some mode ↔ mode.name = text := by
  constructor
  · intro h
    simpa using List.find?_some h
  · rintro rfl
    cases mode <;> rfl

theorem name_injective : Function.Injective name := by
  intro a b h
  exact Option.some.inj ((ofName?_eq_some_iff.2 h).symm.trans (ofName?_eq_some_iff.2 rfl))

end BillingMode

namespace BillingModes

variable {r : BillingModes} {mode k : BillingMode} {s t : Strategy} {replace : Bool}

/-! ## The map -/

/-- The modes that have a strategy, in the order in which they came. -/
def modes (r : BillingModes) : List BillingMode := r.map (·.1)

theorem find?_cons (r : BillingModes) (k mode : BillingMode) (s : Strategy) :
    find? ((k, s) :: r) mode = if k = mode then some s else r.find? mode := by
  rw [find?, List.lookup_cons]
  by_cases h : k = mode
  · rw [if_pos h, h, beq_self_eq_true]
  · rw [if_neg h, beq_false_of_ne (Ne.symm h)]
    rfl

theorem mem_modes_iff : mode ∈ r.modes ↔ ∃ s, r.find? mode = some s := by
  induction r with
  | nil => simp [modes, find?]
  | cons e r ih =>
    obtain ⟨k, t⟩ := e
    rw [find?_cons, modes, List.map_cons, List.mem_cons, ← modes, ih]
    by_cases h : k = mode
    · simp [h]
    · simp [h, Ne.symm h]

theorem find?_put (r : BillingModes) (mode k : BillingMode) (s : Strategy) :
    (r.put mode s).find? k = if mode = k then some s else r.find? k := by
  induction r with
  | nil => rw [put, find?_cons]
  | cons e r ih =>
    obtain ⟨m, t⟩ := e
    rw [put]
    split
    case isTrue h =>
      subst h
      rw [find?_cons, find?_cons]
      split <;> rfl
    case isFalse h =>
      rw [find?_cons, find?_cons, ih]
      split <;> split <;> simp_all

theorem modes_put (r : BillingModes) (mode : BillingMode) (s : Strategy) :
    (r.put mode s).modes = if mode ∈ r.modes then r.modes else r.modes ++ [mode] := by
  induction r with
  | nil => rfl
  | cons e r ih =>
    obtain ⟨m, t⟩ := e
    rw [put]
    split
    case isTrue h => simp [modes, h]
    case isFalse h =>
      have hne : mode ≠ m := Ne.symm h
      simp only [modes, List.map_cons, List.mem_cons, hne, false_or] at ih ⊢
      rw [ih]
      by_cases hmem : mode ∈ r.map (·.1) <;> simp [hmem]

theorem nodup_put (h : r.modes.Nodup) (mode : BillingMode) (s : Strategy) :
    (r.put mode s).modes.Nodup := by
  rw [modes_put]
  split
  case isTrue => exact h
  case isFalse hmem =>
    rw [← List.concat_eq_append]
    exact h.concat hmem

theorem find?_unregister (r : BillingModes) (mode k : BillingMode) :
    (r.unregister mode).find? k = if mode = k then none else r.find? k := by
  induction r with
  | nil => split <;> rfl
  | cons e r ih =>
    obtain ⟨m, t⟩ := e
    rw [unregister, List.filter_cons, ← unregister, find?_cons]
    by_cases hm : m = mode
    · rw [if_neg (by simpa using hm), ih, hm]
      split <;> rfl
    · rw [if_pos (by simpa using hm), find?_cons, ih]
      split <;> split <;> simp_all

theorem nodup_unregister (h : r.modes.Nodup) (mode : BillingMode) : (r.unregister mode).modes.Nodup :=
  (List.filter_sublist.map _).nodup h

/-! ## Names -/

theorem perm_names (r : BillingModes) : r.names.Perm (r.modes.map BillingMode.name) := by
  rw [names, modes, List.map_map]
  exact List.mergeSort_perm ..

theorem mem_names_iff {name : String} :
    name ∈ r.names ↔ ∃ mode s, mode.name = name ∧ r.find? mode = some s := by
  rw [r.perm_names.mem_iff, List.mem_map]
  simp only [mem_modes_iff]
  constructor
  · rintro ⟨mode, ⟨s, hs⟩, hname⟩
    exact ⟨mode, s, hname, hs⟩
  · rintro ⟨mode, s, hname, hs⟩
    exact ⟨mode, ⟨s, hs⟩, hname⟩

theorem nodup_names (h : r.modes.Nodup) : r.names.Nodup :=
  r.perm_names.nodup_iff.2 (h.map BillingMode.name_injective)

theorem sorted_names (r : BillingModes) : r.names.Pairwise (· ≤ ·) := by
  refine (List.pairwise_mergeSort (fun a b c hab hbc => ?_) (fun a b => ?_) _).imp of_decide_eq_true
  · exact decide_eq_true ((of_decide_eq_true hab).trans (of_decide_eq_true hbc))
  · simpa using le_total a b

/-! ## Calls -/

/-- What the strategies in force can be asked to do. Modes are looked up by their names. -/
inductive Call where
  | register (mode : BillingMode) (s : Strategy) (replace : Bool)
  | unregister (mode : BillingMode)
  | get (text : String)
  | has (text : String)

/-- What comes back from a call. -/
inductive Answer where
  | done
  | strategy (s : Strategy)
  | flag (b : Bool)
  | refused (f : Fault)

/-- A call's answer, and the strategies in force after it. -/
def call (r : BillingModes) : Call → Answer × BillingModes
  | .register mode s replace =>
    match r.register mode s replace with
    | .ok r' => (.done, r')
    | .error f => (.refused f, r)
  | .unregister mode => (.done, r.unregister mode)
  | .get text => (match r.get text with | .ok s => .strategy s | .error f => .refused f, r)
  | .has text => (.flag (r.has text), r)

/-- Calls with their answers, in the order in which they were made. -/
abbrev History := List (Call × Answer)

/-- Calls made one after the other: what came back, and the strategies in force in the end. -/
def run (r : BillingModes) : List Call → History × BillingModes
  | [] => ([], r)
  | c :: cs =>
    let (answer, r') := r.call c
    let (history, last) := run r' cs
    ((c, answer) :: history, last)

/-- Whether a call decides which strategy a mode has: a registration that was not refused, or one that
is taken back. -/
def Decides (mode : BillingMode) : Call × Answer → Prop
  | (.register k _ _, .done) => k = mode
  | (.unregister k, _) => k = mode
  | _ => False

/-- Whether a strategy is that of the last registration for a mode which was not refused, and the mode
was not taken back since. -/
def InForce (h : History) (mode : BillingMode) (s : Strategy) : Prop :=
  ∃ earlier replace later, h = earlier ++ (.register mode s replace, .done) :: later ∧
    ∀ e ∈ later, ¬ Decides mode e

theorem inForce_concat {h : History} {e : Call × Answer} : InForce (h ++ [e]) mode s ↔
    (∃ replace, e = (.register mode s replace, .done)) ∨ ¬ Decides mode e ∧ InForce h mode s := by
  constructor
  · rintro ⟨earlier, replace, later, heq, hlater⟩
    rcases List.eq_nil_or_concat later with rfl | ⟨later, last, rfl⟩
    · obtain ⟨-, he⟩ := List.append_inj' heq rfl
      exact .inl ⟨replace, List.singleton_inj.1 he⟩
    · rw [List.concat_eq_append, ← List.cons_append, ← List.append_assoc] at heq
      obtain ⟨rfl, he⟩ := List.append_inj' heq rfl
      obtain rfl := List.singleton_inj.1 he
      exact .inr ⟨hlater e (by simp), earlier, replace, later, rfl, fun d hd => hlater d (by simp [hd])⟩
  · rintro (⟨replace, rfl⟩ | ⟨he, earlier, replace, later, rfl, hlater⟩)
    · exact ⟨h, replace, [], rfl, by simp⟩
    · refine ⟨earlier, replace, later ++ [e], by simp, fun d hd => ?_⟩
      rcases List.mem_append.1 hd with hd | hd
      · exact hlater d hd
      · rw [List.mem_singleton.1 hd]
        exact he

theorem register_cases (r : BillingModes) (mode : BillingMode) (s : Strategy) (replace : Bool) :
    r.register mode s replace = .ok (r.put mode s) ∧ (replace = true ∨ ∀ t, r.find? mode ≠ some t) ∨
      replace = false ∧ ∃ t, r.find? mode = some t ∧
        r.register mode s replace = .error (.modeTaken mode.name t.name) := by
  unfold register
  cases hfind : r.find? mode with
  | none => exact .inl ⟨rfl, .inr fun t => by simp⟩
  | some t =>
    cases replace with
    | true => exact .inl ⟨rfl, .inl rfl⟩
    | false => exact .inr ⟨rfl, t, rfl, rfl⟩

theorem find?_call (r : BillingModes) (c : Call) : (r.call c).2.find? mode = some s ↔
    (∃ replace, (c, (r.call c).1) = (.register mode s replace, .done)) ∨
      ¬ Decides mode (c, (r.call c).1) ∧ r.find? mode = some s := by
  cases c with
  | register k t replace =>
    obtain ⟨hr, -⟩ | ⟨-, u, -, hr⟩ := r.register_cases k t replace
    · simp only [call, hr, find?_put, Decides]
      by_cases hk : k = mode
      · simp [hk]
      · simp [hk]
    · simp [call, hr, Decides]
  | unregister k =>
    simp only [call, find?_unregister, Decides]
    by_cases hk : k = mode
    · simp [hk]
    · simp [hk]
  | get text => simp [call, Decides]
  | has text => simp [call, Decides]

theorem nodup_call (h : r.modes.Nodup) (c : Call) : (r.call c).2.modes.Nodup := by
  cases c with
  | register k t replace =>
    obtain ⟨hr, -⟩ | ⟨-, u, -, hr⟩ := r.register_cases k t replace
    · simpa [call, hr] using nodup_put h k t
    · simpa [call, hr] using h
  | unregister k => exact nodup_unregister h k
  | get text => exact h
  | has text => exact h

/-! ## Runs -/

/-- Whether the strategies in force are what is left of the calls made. -/
structure Records (h : History) (r : BillingModes) : Prop where
  nodup : r.modes.Nodup
  find?_iff : ∀ mode s, r.find? mode = some s ↔ InForce h mode s

theorem Records.call {h : History} (hr : Records h r) (c : Call) :
    Records (h ++ [(c, (r.call c).1)]) (r.call c).2 where
  nodup := nodup_call hr.nodup c
  find?_iff mode s := by rw [find?_call, inForce_concat, hr.find?_iff]

theorem Records.run {h : History} (hr : Records h r) (calls : List Call) :
    Records (h ++ (r.run calls).1) (r.run calls).2 := by
  induction calls generalizing h r with
  | nil => simpa [BillingModes.run] using hr
  | cons c cs ih => simpa [BillingModes.run] using ih (hr.call c)

/-- The registration that the strategies at the start come from. -/
def startUp : Call × Answer := (.register .inAdvance .inAdvance false, .done)

theorem records_initial : Records [startUp] initial := by
  have hempty : Records [] [] := ⟨List.nodup_nil, fun mode s => by simp [find?, InForce]⟩
  exact hempty.call startUp.1

/-- The laws of the strategies in force after some calls. -/
structure Reflects (h : History) (r : BillingModes) : Prop where
  /-- The strategy of a mode is that of the last registration. -/
  get_eq_ok_iff : ∀ text s, r.get text = .ok s ↔
    ∃ mode, BillingMode.ofName? text = some mode ∧ InForce h mode s
  /-- Without one, the names of the modes that have a strategy are reported. -/
  get_eq_error_iff : ∀ text f, r.get text = .error f ↔ f = .unsupportedMode text r.names ∧
    ∀ mode s, BillingMode.ofName? text = some mode → ¬ InForce h mode s
  has_iff : ∀ text, r.has text = true ↔ ∃ s, r.get text = .ok s
  names_sorted : r.names.Pairwise (· ≤ ·)
  names_nodup : r.names.Nodup
  mem_names_iff : ∀ name, name ∈ r.names ↔ ∃ mode s, mode.name = name ∧ InForce h mode s
  unsupported : ∀ text f, r.get text = .error f → f.errorClass = "UnsupportedBillingModeError" ∧
    f.error? = some (.unsupportedMode, [.text text, .list (r.names.map .text)])
  /-- A registration is refused for a mode that has a strategy which is not to be replaced. -/
  register_eq_error_iff : ∀ mode s replace f, r.register mode s replace = .error f ↔
    replace = false ∧ ∃ t, InForce h mode t ∧ f = .modeTaken mode.name t.name
  /-- The refusal names the strategy in force. -/
  taken : ∀ mode s replace f, r.register mode s replace = .error f → f.errorClass = "ValueError" ∧
    ∃ t, InForce h mode t ∧ f.refusal? =
      some ("Billing mode already registered for " ++ mode.name ++ ": " ++ t.name)
  /-- What is refused changes nothing. -/
  refused_unchanged : ∀ c f, (r.call c).1 = .refused f → (r.call c).2 = r
  /-- Asking changes nothing. -/
  asked_unchanged : ∀ text, (r.call (.get text)).2 = r ∧ (r.call (.has text)).2 = r

theorem refused_unchanged {c : Call} {f : Fault} (h : (r.call c).1 = .refused f) : (r.call c).2 = r := by
  cases c with
  | register mode s replace =>
    obtain ⟨hr, -⟩ | ⟨-, t, -, hr⟩ := r.register_cases mode s replace
    · simp [call, hr] at h
    · simp [call, hr]
  | unregister mode => cases h
  | get text => rfl
  | has text => rfl

theorem get_eq_ok_iff {text : String} : r.get text = .ok s ↔
    ∃ mode, BillingMode.ofName? text = some mode ∧ r.find? mode = some s := by
  rw [← Option.bind_eq_some_iff, get]
  cases (BillingMode.ofName? text).bind r.find? <;> simp

theorem get_eq_error_iff {text : String} {f : Fault} : r.get text = .error f ↔
    f = .unsupportedMode text r.names ∧
      ∀ mode s, BillingMode.ofName? text = some mode → r.find? mode ≠ some s := by
  have hnone : (∀ mode s, BillingMode.ofName? text = some mode → r.find? mode ≠ some s) ↔
      (BillingMode.ofName? text).bind r.find? = none := by
    rw [Option.eq_none_iff_forall_ne_some]
    simp only [ne_eq, Option.bind_eq_some_iff, not_exists, not_and]
    exact ⟨fun h s mode => h mode s, fun h mode s => h s mode⟩
  rw [hnone, get]
  cases (BillingMode.ofName? text).bind r.find? <;> simp [eq_comm]

theorem register_eq_error_iff {f : Fault} : r.register mode s replace = .error f ↔
    replace = false ∧ ∃ t, r.find? mode = some t ∧ f = .modeTaken mode.name t.name := by
  obtain ⟨hr, hfree⟩ | ⟨hreplace, t, ht, hr⟩ := r.register_cases mode s replace
  · rw [hr]
    refine iff_of_false nofun ?_
    rintro ⟨rfl, t, ht, -⟩
    exact (hfree.resolve_left nofun) t ht
  · rw [hr]
    simp [hreplace, ht, eq_comm]

theorem has_iff {text : String} : r.has text = true ↔ ∃ s, r.get text = .ok s := by
  rw [has, get]
  cases (BillingMode.ofName? text).bind r.find? <;> simp

theorem Records.reflects {h : History} (hr : Records h r) : Reflects h r where
  get_eq_ok_iff text s := by simp only [BillingModes.get_eq_ok_iff, hr.find?_iff]
  get_eq_error_iff text f := by simp only [BillingModes.get_eq_error_iff, ne_eq, hr.find?_iff]
  has_iff _ := BillingModes.has_iff
  names_sorted := r.sorted_names
  names_nodup := nodup_names hr.nodup
  mem_names_iff name := by simp only [BillingModes.mem_names_iff, hr.find?_iff]
  unsupported text f hf := by
    obtain ⟨rfl, -⟩ := BillingModes.get_eq_error_iff.1 hf
    exact ⟨rfl, rfl⟩
  register_eq_error_iff mode s replace f := by
    simp only [BillingModes.register_eq_error_iff, hr.find?_iff]
  taken mode s replace f hf := by
    obtain ⟨-, t, ht, rfl⟩ := BillingModes.register_eq_error_iff.1 hf
    exact ⟨rfl, t, (hr.find?_iff mode t).1 ht, rfl⟩
  refused_unchanged _ _ := BillingModes.refused_unchanged
  asked_unchanged _ := ⟨rfl, rfl⟩

/-- After any calls from the start on, the strategies in force are those of the registrations that were
not refused and not taken back. -/
theorem run_reflects (calls : List Call) :
    Reflects (startUp :: (initial.run calls).1) (initial.run calls).2 :=
  (records_initial.run calls).reflects

end BillingModes

end Invoicing
