import Invoicing.Proofs.Config.Refusal

/-!
# Documents for configurations

Which documents a configuration is read from. A document is a mapping with a section for invoices, which
is a mapping as well, with known keys; either may be absent (`Config.Holds`). What counts as absent is not
only nothing, but everything that is false, zero or empty, so an empty list or a zero in the place of a
mapping is no misfit. All other documents are refused, by what does not fit (`Config.Misfit`), and the
only faults besides are those of unknown keys without an order and of values too long to be reported
(`Config.load_shape`). How texts are read as documents does not matter for that.
-/

namespace Invoicing.Config

variable {IsAbsent : Value → Prop} {root key v : Value} {entries es : List (Value × Value)}

/-! ## Shapes -/

/-- Whether a document holds some settings, those of its section for invoices. There are none where the
document or the section is absent. -/
inductive Holds (IsAbsent : Value → Prop) : Value → List (Value × Value) → Prop
  | noDocument {root : Value} (h : IsAbsent root) : Holds IsAbsent root []
  | noSection {entries : List (Value × Value)}
    (h : ∀ v, Value.find? entries (.text "invoice") = some v → IsAbsent v) :
    Holds IsAbsent (.mapping entries) []
  | part {entries es : List (Value × Value)}
    (h : Value.find? entries (.text "invoice") = some (.mapping es)) :
    Holds IsAbsent (.mapping entries) es

/-- Whether a document has the shape of one for configurations: the keys of its section are all known. -/
def IsShaped (IsAbsent : Value → Prop) (root : Value) : Prop :=
  ∃ es, Holds IsAbsent root es ∧ unknownKeys es = []

/-- Whether a value is false, zero or empty. -/
def IsVoid (v : Value) : Prop := v.isTrue = false

/-- What does not fit in a document: the document itself, its section, or an unknown key. -/
inductive Misfit (root : Value) : Value → Value → String → Prop
  | document (hgiven : ¬ IsVoid root) (h : ∀ entries, root ≠ .mapping entries) :
    Misfit root (.text "<root>") root "document must be a mapping"
  | part {entries : List (Value × Value)} {v : Value} (hroot : root = .mapping entries)
    (hfind : Value.find? entries (.text "invoice") = some v) (hgiven : ¬ IsVoid v)
    (h : ∀ es, v ≠ .mapping es) : Misfit root (.text "invoice") v "section must be a mapping"
  | unknown {es : List (Value × Value)} {e : Value × Value} (h : Holds IsVoid root es)
    (he : e ∈ unknownKeys es) : Misfit root e.1 e.2 "unknown key"

theorem orEmpty_void (h : IsVoid v) : orEmpty v = .mapping [] := by
  rw [orEmpty, h]
  rfl

theorem orEmpty_given (h : ¬ IsVoid v) : orEmpty v = v := by
  rw [IsVoid, Bool.not_eq_false] at h
  rw [orEmpty, h]
  rfl

theorem orEmpty_mapping (entries : List (Value × Value)) :
    orEmpty (.mapping entries) = .mapping entries := by
  cases entries <;> rfl

/-! ## Documents with a section -/

/-- The entry that a configuration is read from. -/
def sectionOf (entries : List (Value × Value)) : Value :=
  (Value.find? entries (.text "invoice")).getD .null

theorem ofDocument_mapping (entries : List (Value × Value)) :
    ofDocument (.mapping entries) = parse (orEmpty (sectionOf entries)) := by
  unfold ofDocument
  rw [orEmpty_mapping]
  rfl

theorem sectionOf_void (h : ∀ v, Value.find? entries (.text "invoice") = some v → IsVoid v) :
    IsVoid (sectionOf entries) := by
  unfold sectionOf
  cases hfind : Value.find? entries (.text "invoice") with
  | none => rfl
  | some v => exact h v hfind

theorem ofDocument_of_holds (h : Holds IsVoid root es) : ofDocument root = parse (.mapping es) := by
  cases h with
  | noDocument h =>
    unfold ofDocument
    rw [orEmpty_void h]
    rfl
  | noSection h => rw [ofDocument_mapping, orEmpty_void (sectionOf_void h)]
  | part h => rw [ofDocument_mapping, sectionOf, h, Option.getD_some, orEmpty_mapping]

theorem holds_or_refused (root : Value) : (∃ es, Holds IsVoid root es) ∨
    ∃ key v reason, Misfit root key v reason ∧ ofDocument root = refuse key v reason := by
  by_cases hroot : IsVoid root
  · exact .inl ⟨[], .noDocument hroot⟩
  by_cases hmapping : ∃ entries, root = .mapping entries
  · obtain ⟨entries, rfl⟩ := hmapping
    cases hfind : Value.find? entries (.text "invoice") with
    | none => exact .inl ⟨[], .noSection fun v hv => by cases hfind.symm.trans hv⟩
    | some v =>
      by_cases hv : IsVoid v
      · exact .inl ⟨[], .noSection fun w hw => Option.some.inj (hfind.symm.trans hw) ▸ hv⟩
      by_cases hes : ∃ es, v = .mapping es
      · obtain ⟨es, rfl⟩ := hes
        exact .inl ⟨es, .part hfind⟩
      · have hnot : ∀ es, v ≠ .mapping es := not_exists.1 hes
        refine .inr ⟨_, _, _, .part rfl hfind hv hnot, ?_⟩
        rw [ofDocument_mapping, sectionOf, hfind, Option.getD_some, orEmpty_given hv]
        unfold parse
        split
        case h_1 es => exact absurd rfl (hnot es)
        case h_2 => rfl
  · have hnot : ∀ entries, root ≠ .mapping entries := not_exists.1 hmapping
    refine .inr ⟨_, _, _, .document hroot hnot, ?_⟩
    unfold ofDocument
    rw [orEmpty_given hroot]
    split
    case h_1 entries => exact absurd rfl (hnot entries)
    case h_2 => rfl

/-! ## Values too long to be reported -/

theorem isWritable_find? (h : (Value.mapping entries).isWritable = true)
    (hfind : Value.find? entries key = some v) : v.isWritable = true := by
  obtain ⟨e, he, rfl⟩ := Option.map_eq_some_iff.1 hfind
  exact (Value.isWritable_of_mem h e (List.mem_of_find?_eq_some he)).2

theorem isWritable_of_holds (h : Holds IsVoid root es) (hroot : root.isWritable = true) :
    (Value.mapping es).isWritable = true := by
  cases h with
  | noDocument => rfl
  | noSection => rfl
  | part h => exact isWritable_find? hroot h

theorem Misfit.isWritable {reason : String} (h : Misfit root key v reason)
    (hroot : root.isWritable = true) : key.isWritable = true ∧ v.isWritable = true := by
  cases h with
  | document => exact ⟨rfl, hroot⟩
  | part heq hfind =>
    subst heq
    exact ⟨rfl, isWritable_find? hroot hfind⟩
  | unknown hholds he =>
    exact Value.isWritable_of_mem (isWritable_of_holds hholds hroot) _ (List.mem_of_mem_filter he)

/-- Whether an outcome reports what does not fit in a document, or cannot report it. -/
def Reports (root : Value) (x : Except Fault Config) : Prop :=
  ∃ key v reason, Misfit root key v reason ∧
    (x = .error (.badSetting key v reason) ∨ x = .error .tooManyDigits ∧ root.isWritable = false)

theorem Misfit.reports {reason : String} (h : Misfit root key v reason) :
    Reports root (refuse key v reason) := by
  refine ⟨key, v, reason, h, ?_⟩
  unfold refuse
  split
  case isTrue => exact .inl rfl
  case isFalse hlong =>
    refine .inr ⟨rfl, ?_⟩
    rw [← Bool.not_eq_true]
    intro hroot
    exact hlong (by simp [h.isWritable hroot])

/-! ## Reading documents -/

theorem ofDocument_unknown (h : Holds IsVoid root es) (hsort : SortableUnknown es)
    (hunknown : unknownKeys es ≠ []) : Reports root (ofDocument root) := by
  obtain ⟨e, he, hrefused⟩ := parse_unknown hsort hunknown
  rw [ofDocument_of_holds h, hrefused]
  exact (Misfit.unknown h he).reports

theorem load_eq_ofDocument {loader : Loader} {text : String} (h : loader text = .ok root) :
    load loader (some text) = ofDocument root := by
  change (Except.mapError Fault.unreadable (loader text) >>= ofDocument) = _
  rw [h]
  rfl

/-- Whatever document a loader finds in a text, a configuration is read from it just if it has the right
shape, where what is void counts as absent, and the settings that it holds are right. Every other document
is refused for what does not fit, unless its unknown keys have no order. -/
theorem load_shape {loader : Loader} {text : String} (h : loader text = .ok root) :
    (∀ config, load loader (some text) = .ok config ↔ ∃ es, Holds IsVoid root es ∧
      unknownKeys es = [] ∧ ofSettings (settingsOf es) = .ok config) ∧
    (¬ IsShaped IsVoid root → Reports root (load loader (some text)) ∨
      load loader (some text) = .error .wrongKind ∧
        ∃ es, Holds IsVoid root es ∧ ¬ SortableUnknown es) := by
  rw [load_eq_ofDocument h]
  have hshape : (∃ es, Holds IsVoid root es ∧ unknownKeys es = []) ∨ Reports root (ofDocument root) ∨
      ofDocument root = .error .wrongKind ∧ ∃ es, Holds IsVoid root es ∧ ¬ SortableUnknown es := by
    rcases holds_or_refused root with ⟨es, hes⟩ | ⟨key, v, reason, hmisfit, hrefused⟩
    · by_cases hknown : unknownKeys es = []
      · exact .inl ⟨es, hes, hknown⟩
      by_cases hsort : SortableUnknown es
      · exact .inr (.inl (ofDocument_unknown hes hsort hknown))
      · exact .inr (.inr ⟨by rw [ofDocument_of_holds hes, parse_unsortable hsort], es, hes, hsort⟩)
    · exact .inr (.inl (hrefused ▸ hmisfit.reports))
  constructor
  · intro config
    constructor
    · intro hok
      rcases hshape with ⟨es, hes, hknown⟩ | ⟨_, _, _, -, hf | ⟨hf, -⟩⟩ | ⟨hf, -⟩
      · rw [ofDocument_of_holds hes, parse_known hknown] at hok
        exact ⟨es, hes, hknown, hok⟩
      all_goals cases hf.symm.trans hok
    · rintro ⟨es, hes, hknown, hok⟩
      rw [ofDocument_of_holds hes, parse_known hknown, hok]
  · intro hnot
    exact hshape.resolve_left hnot

/-- A loader that knows three texts. -/
def threeTexts : Loader
  | "[]" => .ok (.list [])
  | "[[]]" => .ok (.list [.list []])
  | "invoice: false" => .ok (.mapping [(.text "invoice", .flag false)])
  | _ => .error "ParserError"

/-- A list with an empty list in it is refused as a document. -/
theorem load_shape_nested : threeTexts "[[]]" = .ok (.list [.list []]) ∧
    Reports (.list [.list []]) (load threeTexts (some "[[]]")) := by
  have hload : threeTexts "[[]]" = .ok (.list [.list []]) := rfl
  have hholds : ∀ es, ¬ Holds IsVoid (.list [.list []]) es := by
    intro es hes
    cases hes with
    | noDocument h => cases h
  refine ⟨hload, ?_⟩
  rcases (load_shape hload).2 fun ⟨es, hes, _⟩ => hholds es hes with hreports | ⟨-, es, hes, -⟩
  · exact hreports
  · exact absurd hes (hholds es)

/-- An empty list is neither nothing nor a mapping, but a configuration is read from it; so it is from a
mapping whose section is false. -/
theorem load_emptyList :
    (threeTexts "[]" = .ok (.list []) ∧ ¬ IsShaped (· = .null) (.list []) ∧
      load threeTexts (some "[]") = .ok initial) ∧
    threeTexts "invoice: false" = .ok (.mapping [(.text "invoice", .flag false)]) ∧
      ¬ IsShaped (· = .null) (.mapping [(.text "invoice", .flag false)]) ∧
      load threeTexts (some "invoice: false") = .ok initial := by
  have hinitial : ofSettings [] = .ok initial := rfl
  refine ⟨⟨rfl, ?_, hinitial⟩, rfl, ?_, hinitial⟩
  · rintro ⟨es, hes, -⟩
    cases hes with
    | noDocument h => cases h
  · rintro ⟨es, hes, -⟩
    cases hes with
    | noDocument h => cases h
    | noSection h => cases h (.flag false) rfl
    | part h => cases h

end Invoicing.Config
