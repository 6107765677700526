import Invoicing.Config.Source
import Invoicing.Proofs.Config.CurrencyCodes
import Invoicing.Proofs.Outcome
import Invoicing.Proofs.Value.KeyOrder

/-!
# Refused configurations

What a section of plain data is refused with. The checks of single settings refuse a setting by its name,
with two exceptions: a value with a whole number too long to be written cannot be reported
(`RefusedAs`), and a rounding that is a list or a mapping cannot be looked up
(`Config.roundingOf_collection`). Of unknown keys the first in their order is reported, so they must have
one (`Config.parse_unsortable`). `Config.parse_faults` says that in all other cases a section is parsed,
or one of its entries is refused.
-/

namespace Invoicing

variable {key v : Value} {entries : List (Value × Value)}

/-! ## Values that can be written -/

theorem Value.isWritable_of_mem (h : (Value.mapping entries).isWritable = true) :
    ∀ e ∈ entries, e.1.isWritable = true ∧ e.2.isWritable = true := by
  change entriesWritable entries = true at h
  induction entries with
  | nil => simp
  | cons e entries ih =>
    obtain ⟨k, v⟩ := e
    simp only [entriesWritable, Bool.and_eq_true] at h
    exact List.forall_mem_cons.2 ⟨h.1, ih h.2⟩

/-! ## Single settings -/

/-- Whether a fault refuses a setting, or says that the setting cannot be reported. -/
def RefusedAs (key v : Value) (f : Fault) : Prop :=
  (∃ reason, f = .badSetting key v reason) ∨
    (f = .tooManyDigits ∧ ¬ (key.isWritable = true ∧ v.isWritable = true))

theorem RefusedAs.ne_wrongKind {f : Fault} (h : RefusedAs key v f) : f ≠ .wrongKind := by
  rintro rfl
  rcases h with ⟨_, h⟩ | ⟨h, -⟩ <;> cases h

/-- Whether a value is a list or a mapping. -/
def Value.IsCollection (v : Value) : Prop := (∃ xs, v = .list xs) ∨ ∃ es, v = .mapping es

namespace Config

theorem refuse_fails {α : Type} (key v : Value) (reason : String) :
    FailsOnly (RefusedAs key v) (refuse key v reason : Except Fault α) := by
  unfold refuse
  split
  case isTrue => exact .error (.inl ⟨reason, rfl⟩)
  case isFalse h => exact .error (.inr ⟨rfl, by simpa using h⟩)

theorem monthsOf_fails (v : Value) :
    FailsOnly (RefusedAs (.text "max_months_in_future") v) (monthsOf v) := by
  unfold monthsOf
  split
  · split
    · exact refuse_fails _ _ _
    · exact .ok _
  · exact refuse_fails _ _ _

theorem textOf_fails (name : String) (v : Value) : FailsOnly (RefusedAs (.text name) v) (textOf v) := by
  unfold textOf
  split
  case isTrue => exact .ok _
  case isFalse h => exact .error (.inr ⟨rfl, fun hboth => h hboth.2⟩)

theorem currencyOf_fails (h : v.IsPlain) :
    FailsOnly (RefusedAs (.text "default_currency") v) (currencyOf v) := by
  unfold currencyOf
  refine (textOf_fails _ v).bind fun shown hshown => ?_
  have hshown : v.shown = shown := by
    unfold textOf at hshown
    split at hshown
    · exact Except.ok.inj hshown
    · cases hshown
  subst hshown
  dsimp only
  split
  case isTrue hcode =>
    split
    case isTrue => exact .ok _
    case isFalse htext =>
      rw [h.ofCode?_shown (Option.not_isSome_iff_eq_none.1 htext)] at hcode
      cases hcode
  case isFalse => exact refuse_fails _ _ _

theorem levelOf_fails (v : Value) : FailsOnly (RefusedAs (.text "log_level") v) (levelOf v) := by
  unfold levelOf
  refine (textOf_fails _ v).bind fun shown _ => ?_
  split
  · exact .ok _
  · exact refuse_fails _ _ _

theorem roundingOf_collection (h : v.IsCollection) : roundingOf v = .error .wrongKind := by
  rcases h with ⟨xs, rfl⟩ | ⟨es, rfl⟩ <;> rfl

theorem roundingOf_fails (h : v.IsPlain) (hv : ¬ v.IsCollection) :
    FailsOnly (RefusedAs (.text "rounding") v) (roundingOf v) := by
  have hkey : v.isKey = true ∨ ∃ xs, v = .set xs := by
    cases h with
    | leaf h => exact .inl (by cases v <;> first | rfl | exact False.elim h)
    | list => exact absurd (.inl ⟨_, rfl⟩) hv
    | pairs => exact absurd (.inl ⟨_, rfl⟩) hv
    | set => exact .inr ⟨_, rfl⟩
    | mapping => exact absurd (.inr ⟨_, rfl⟩) hv
  unfold roundingOf
  split
  case h_1 => exact .ok _
  case h_2 =>
  split
  case h_1 => exact refuse_fails _ _ _
  case h_2 hset =>
  rcases hkey with hkey | ⟨xs, rfl⟩
  · rw [if_pos hkey]
    exact refuse_fails _ _ _
  · exact (hset xs _ rfl HEq.rfl).elim

/-! ## Settings among entries -/

/-- What a setting is where nothing is said. -/
def usual (name : String) : Value := (initial.settings.lookup name).getD .null

/-- The value of a setting among some entries. -/
def valueOf (entries : List (Value × Value)) (name : String) : Value :=
  setting (settingsOf entries) name (usual name)

theorem ofSettings_settingsOf (entries : List (Value × Value)) :
    ofSettings (settingsOf entries) = (do
      let months ← monthsOf (valueOf entries "max_months_in_future")
      let currency ← currencyOf (valueOf entries "default_currency")
      let rounding ← roundingOf (valueOf entries "rounding")
      let level ← levelOf (valueOf entries "log_level")
      return ⟨months, currency.1, rounding.1, level, currency.2, rounding.2⟩) := rfl

/-- Whether a fault refuses an entry, or says that it cannot be reported. -/
def RefusesSome (entries : List (Value × Value)) (f : Fault) : Prop := ∃ e ∈ entries, RefusedAs e.1 e.2 f

theorem RefusesSome.ne_wrongKind {f : Fault} (h : RefusesSome entries f) : f ≠ .wrongKind := by
  obtain ⟨e, -, h⟩ := h
  exact h.ne_wrongKind

section

variable {name : String} (h : (Value.mapping entries).IsPlain)

include h

theorem valueOf_cases (name : String) :
    (.text name, valueOf entries name) ∈ entries ∨ valueOf entries name = usual name := by
  unfold valueOf setting
  cases hlookup : (settingsOf entries).lookup name with
  | none => exact .inr rfl
  | some v =>
    obtain ⟨before, after, hsettings, -⟩ := List.lookup_eq_some_iff.1 hlookup
    have hmem : (name, v) ∈ settingsOf entries := by
      rw [hsettings]
      simp
    obtain ⟨⟨k, w⟩, he, hkv⟩ := List.mem_filterMap.1 hmem
    obtain ⟨_, hk, hpair⟩ := Option.map_eq_some_iff.1 hkv
    obtain ⟨rfl, rfl⟩ := Prod.mk.inj hpair
    have hleaf := h.isLeaf_key he
    refine .inl ?_
    cases k <;> first | exact False.elim hleaf | cases hk
    exact he

theorem valueOf_isPlain (husual : (usual name).IsLeaf) : (valueOf entries name).IsPlain := by
  rcases valueOf_cases h name with hmem | heq
  · exact h.isPlain_value hmem
  · rw [heq]
    exact .leaf husual

theorem check_fails {α : Type} {check : Value → Except Fault α}
    (hcheck : FailsOnly (RefusedAs (.text name) (valueOf entries name)) (check (valueOf entries name)))
    (husual : (check (usual name)).isOk = true) :
    FailsOnly (RefusesSome entries) (check (valueOf entries name)) := by
  rcases valueOf_cases h name with hmem | heq
  · exact hcheck.mono fun f hf => ⟨_, hmem, hf⟩
  · rw [heq]
    obtain ⟨a, ha⟩ := isOk_iff.1 husual
    rw [ha]
    exact .ok a

theorem months_fails :
    FailsOnly (RefusesSome entries) (monthsOf (valueOf entries "max_months_in_future")) :=
  check_fails h (monthsOf_fails _) rfl

theorem currency_fails :
    FailsOnly (RefusesSome entries) (currencyOf (valueOf entries "default_currency")) :=
  check_fails h (currencyOf_fails (valueOf_isPlain h trivial)) (by decide +kernel)

theorem rounding_fails (hrounding : ¬ (valueOf entries "rounding").IsCollection) :
    FailsOnly (RefusesSome entries) (roundingOf (valueOf entries "rounding")) :=
  check_fails h (roundingOf_fails (valueOf_isPlain h trivial) hrounding) (by decide +kernel)

theorem level_fails : FailsOnly (RefusesSome entries) (levelOf (valueOf entries "log_level")) :=
  check_fails h (levelOf_fails _) (by decide +kernel)

theorem ofSettings_fails : FailsOnly (fun f => RefusesSome entries f ∨ f = .wrongKind)
    (ofSettings (settingsOf entries)) := by
  rw [ofSettings_settingsOf]
  refine ((months_fails h).mono fun _ => .inl).bind fun months _ => ?_
  refine ((currency_fails h).mono fun _ => .inl).bind fun currency _ => ?_
  refine FailsOnly.bind ?_ fun rounding _ => ?_
  · by_cases hrounding : (valueOf entries "rounding").IsCollection
    · rw [roundingOf_collection hrounding]
      exact .error (.inr rfl)
    · exact (rounding_fails h hrounding).mono fun _ => .inl
  · exact ((level_fails h).mono fun _ => .inl).bind fun level _ => .ok _

/-- Whether the settings that are checked before the rounding are right, and the rounding is a list or a
mapping. -/
def UnfitRounding (entries : List (Value × Value)) : Prop :=
  (∃ months, monthsOf (valueOf entries "max_months_in_future") = .ok months) ∧
    (∃ currency, currencyOf (valueOf entries "default_currency") = .ok currency) ∧
    (valueOf entries "rounding").IsCollection

theorem ofSettings_eq_wrongKind_iff :
    ofSettings (settingsOf entries) = .error .wrongKind ↔ UnfitRounding entries := by
  rw [ofSettings_settingsOf]
  constructor
  · intro hfault
    -- months and currency only fail by a refusal, so the fault comes from behind them
    rcases bind_eq_error_iff.1 hfault with hmonths | ⟨months, hmonths, hfault⟩
    · exact absurd rfl (months_fails h _ hmonths).ne_wrongKind
    rcases bind_eq_error_iff.1 hfault with hcurrency | ⟨currency, hcurrency, hfault⟩
    · exact absurd rfl (currency_fails h _ hcurrency).ne_wrongKind
    refine ⟨⟨months, hmonths⟩, ⟨currency, hcurrency⟩, ?_⟩
    by_contra hrounding
    rcases bind_eq_error_iff.1 hfault with hround | ⟨rounding, -, hfault⟩
    · exact (rounding_fails h hrounding _ hround).ne_wrongKind rfl
    rcases bind_eq_error_iff.1 hfault with hlevel | ⟨level, -, hfault⟩
    · exact (level_fails h _ hlevel).ne_wrongKind rfl
    · cases hfault
  · rintro ⟨⟨months, hmonths⟩, ⟨currency, hcurrency⟩, hrounding⟩
    rw [hmonths, hcurrency, roundingOf_collection hrounding]
    rfl

end

/-! ## Sections -/

/-- Whether the unknown keys among some entries can be put in order. -/
def SortableUnknown (entries : List (Value × Value)) : Prop :=
  (unknownKeys entries).Pairwise fun a b => Value.Comparable a.1 b.1

theorem parse_unsortable (h : ¬ SortableUnknown entries) :
    parse (.mapping entries) = .error .wrongKind := by
  rw [SortableUnknown, ← Value.sortEntries?_isSome_iff, Option.not_isSome_iff_eq_none] at h
  unfold parse
  dsimp only
  rw [h]

theorem parse_known (h : unknownKeys entries = []) :
    parse (.mapping entries) = ofSettings (settingsOf entries) := by
  unfold parse
  dsimp only
  rw [h]
  rfl

theorem parse_unknown (hsort : SortableUnknown entries) (h : unknownKeys entries ≠ []) :
    ∃ e ∈ unknownKeys entries, parse (.mapping entries) = refuse e.1 e.2 "unknown key" := by
  obtain ⟨sorted, hsorted⟩ := Option.isSome_iff_exists.1 ((Value.sortEntries?_isSome_iff _).2 hsort)
  have hperm := Value.perm_of_sortEntries? hsorted
  unfold parse
  dsimp only
  rw [hsorted]
  cases sorted with
  | nil => exact absurd hperm.nil_eq.symm h
  | cons e rest => exact ⟨e, hperm.subset (by simp), rfl⟩

theorem parse_fails (h : (Value.mapping entries).IsPlain) :
    FailsOnly (fun f => RefusesSome entries f ∨ f = .wrongKind) (parse (.mapping entries)) := by
  by_cases hsort : SortableUnknown entries
  · by_cases hknown : unknownKeys entries = []
    · rw [parse_known hknown]
      exact ofSettings_fails h
    · obtain ⟨e, he, hparse⟩ := parse_unknown hsort hknown
      rw [hparse]
      exact (refuse_fails _ _ _).mono fun f hf => .inl ⟨e, List.mem_of_mem_filter he, hf⟩
  · rw [parse_unsortable hsort]
    exact .error (.inr rfl)

theorem parse_eq_wrongKind_iff (h : (Value.mapping entries).IsPlain) :
    parse (.mapping entries) = .error .wrongKind ↔
      ¬ SortableUnknown entries ∨ unknownKeys entries = [] ∧ UnfitRounding entries := by
  by_cases hsort : SortableUnknown entries
  · rw [or_iff_right (not_not_intro hsort)]
    by_cases hknown : unknownKeys entries = []
    · rw [parse_known hknown, ofSettings_eq_wrongKind_iff h, and_iff_right hknown]
    · obtain ⟨e, -, hparse⟩ := parse_unknown hsort hknown
      rw [hparse]
      exact iff_of_false (fun hfault => (refuse_fails _ _ _ _ hfault).ne_wrongKind rfl)
        fun hall => hknown hall.1
  · exact iff_of_true (parse_unsortable hsort) (.inl hsort)

/-- A section of plain data is parsed, or one of its entries is refused, unless its unknown keys have no
order, its rounding is a list or a mapping, or it has a whole number too long to be written. The first
two fail with the wrong kind of value, the second if nothing before the rounding is refused, and what is
too long to be written only where it has to be reported. -/
theorem parse_faults (h : (Value.mapping entries).IsPlain) :
    (SortableUnknown entries → ¬ (valueOf entries "rounding").IsCollection →
      (Value.mapping entries).isWritable = true →
        (∃ config, parse (.mapping entries) = .ok config) ∨
          ∃ e ∈ entries, ∃ reason, parse (.mapping entries) = .error (.badSetting e.1 e.2 reason)) ∧
    (parse (.mapping entries) = .error .wrongKind ↔
      ¬ SortableUnknown entries ∨ unknownKeys entries = [] ∧ UnfitRounding entries) ∧
    ∀ f, parse (.mapping entries) = .error f → f = .wrongKind ∨ ∃ e ∈ entries,
      (∃ reason, f = .badSetting e.1 e.2 reason) ∨
        f = .tooManyDigits ∧ ¬ (e.1.isWritable = true ∧ e.2.isWritable = true) := by
  refine ⟨fun hsort hrounding hwritable => ?_, parse_eq_wrongKind_iff h, fun f hf =>
    (parse_fails h f hf).symm⟩
  cases hparse : parse (.mapping entries) with
  | ok config => exact .inl ⟨config, rfl⟩
  | error f =>
    rcases parse_fails h f hparse with ⟨e, he, ⟨reason, rfl⟩ | ⟨-, hlong⟩⟩ | rfl
    · exact .inr ⟨e, he, reason, rfl⟩
    · exact absurd (Value.isWritable_of_mem hwritable e he) hlong
    · rcases (parse_eq_wrongKind_iff h).1 hparse with hunsorted | ⟨-, hunfit⟩
      · exact absurd hsort hunsorted
      · exact absurd hunfit.2.2 hrounding

/-! ## A list of roundings -/

/-- Settings with a list where a rounding should be. -/
def roundings : List (Value × Value) := [(.text "rounding", .list [.text "ROUND_HALF_UP"])]

/-- A list of roundings is plain data, but fails without being refused. -/
theorem parse_roundings : (Value.mapping roundings).IsPlain ∧
    parse (.mapping roundings) = .error .wrongKind := by
  refine ⟨.mapping (by simp [roundings, Value.IsLeaf]) ?_, rfl⟩
  simp only [roundings, List.mem_singleton, forall_eq]
  exact .list fun x hx => .leaf (by simp [List.mem_singleton.1 hx, Value.IsLeaf])

/-- Settings with unknown keys, all of them texts, of which the first one in their order is reported. -/
def colours : List (Value × Value) := [(.text "paint", .null), (.text "colour", .list [])]

theorem parse_faults_colours : (∃ config, parse (.mapping colours) = .ok config) ∨
    ∃ e ∈ colours, ∃ reason, parse (.mapping colours) = .error (.badSetting e.1 e.2 reason) := by
  have hplain : (Value.mapping colours).IsPlain := by
    refine .mapping (by simp [colours, Value.IsLeaf]) ?_
    simp only [colours, List.forall_mem_cons]
    exact ⟨.leaf trivial, .list (by simp), by simp⟩
  have hsort : SortableUnknown colours := by
    have hunknown : unknownKeys colours = colours := by rfl
    rw [SortableUnknown, hunknown]
    simp [colours, Value.Comparable, Value.keyKind?]
  have hrounding : ¬ (valueOf colours "rounding").IsCollection := by
    rintro (⟨_, h⟩ | ⟨_, h⟩) <;> cases h
  exact (parse_faults hplain).1 hsort hrounding rfl

end Config

end Invoicing
