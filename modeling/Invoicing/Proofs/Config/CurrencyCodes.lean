import Invoicing.Proofs.Config.PlainData
import Invoicing.Value.Text
import Mathlib.Data.List.TakeWhile
import Mathlib.Tactic.IntervalCases

/-!
# Texts that are no currency codes

The codes of currencies consist of capital letters. A text with a digit, a bracket or another mark that is
its own capital is none of them (`Currency.ofCode?_eq_none_of_mem`), so of plain data only texts can name
a currency (`Value.IsPlain.ofCode?_shown`).
-/

namespace Invoicing

variable {c : Char} {s : String}

namespace Text

/-- Whether a character stays as it is in capitals, and is neither blank nor a capital letter. -/
def IsMark (c : Char) : Prop := capital c = [c] ∧ isBlank c = false ∧ c.isUpper = false

instance (c : Char) : Decidable (IsMark c) := inferInstanceAs (Decidable (_ ∧ _))

theorem isMark_of_isDigit (h : c.isDigit = true) : IsMark c := by
  simp only [Char.isDigit, ge_iff_le, Bool.and_eq_true, decide_eq_true_eq] at h
  have hlow : 48 ≤ c.toNat := h.1
  have hhigh : c.toNat ≤ 57 := h.2
  have hc : c = Char.ofNat c.toNat := (Char.ofNat_toNat c).symm
  generalize c.toNat = n at *
  subst hc
  interval_cases n <;> decide

theorem mem_capitals (hc : IsMark c) (h : c ∈ s.toList) : c ∈ (capitals s).toList := by
  rw [capitals, String.toList_ofList, List.mem_flatMap]
  exact ⟨c, h, by simp [hc.1]⟩

theorem mem_dropWhile_isBlank {cs : List Char} (hc : IsMark c) (h : c ∈ cs) :
    c ∈ cs.dropWhile isBlank := by
  rw [← List.takeWhile_append_dropWhile (p := isBlank) (l := cs)] at h
  rcases List.mem_append.1 h with hblank | hrest
  · have := List.mem_takeWhile_imp hblank
    rw [hc.2.1] at this
    cases this
  · exact hrest

theorem mem_trim (hc : IsMark c) (h : c ∈ s.toList) : c ∈ (trim s).toList := by
  rw [trim, String.toList_ofList, trimChars, List.mem_reverse]
  exact mem_dropWhile_isBlank hc (List.mem_reverse.2 (mem_dropWhile_isBlank hc h))

end Text

open Text

namespace Currency

theorem isUpper_code (currency : Currency) : currency.code.toList.all Char.isUpper = true := by
  cases currency <;> decide

theorem ofCode?_eq_none_of_mem (hc : IsMark c) (h : c ∈ s.toList) : ofCode? s = none := by
  rw [ofCode?, List.find?_eq_none]
  intro currency _ hcode
  have hcode : currency.code = trim (capitals s) := by simpa using hcode
  have hmem : c ∈ currency.code.toList := hcode ▸ mem_trim hc (mem_capitals hc h)
  have hupper := List.all_eq_true.1 (isUpper_code currency) c hmem
  rw [hc.2.2] at hupper
  cases hupper

end Currency

/-! ## Texts with a mark -/

/-- Whether some character of a text is a mark. -/
def Text.HasMark (s : String) : Prop := ∃ c ∈ s.toList, IsMark c

namespace Text

variable {t : String}

instance (s : String) : Decidable (HasMark s) := List.decidableBEx IsMark s.toList

theorem HasMark.ofCode?_capitals (h : HasMark s) : Currency.ofCode? (capitals s) = none := by
  obtain ⟨c, hc, hmark⟩ := h
  exact Currency.ofCode?_eq_none_of_mem hmark (mem_capitals hmark hc)

theorem HasMark.append_right (h : HasMark s) (t : String) : HasMark (s ++ t) := by
  obtain ⟨c, hc, hmark⟩ := h
  exact ⟨c, by simp [hc], hmark⟩

theorem HasMark.append_left (h : HasMark t) (s : String) : HasMark (s ++ t) := by
  obtain ⟨c, hc, hmark⟩ := h
  exact ⟨c, by simp [hc], hmark⟩

theorem hasMark_between (h : HasMark s) (content closing : String) :
    HasMark (s ++ content ++ closing) := (h.append_right content).append_right closing

theorem hasMark_nat (n : Nat) : HasMark (toString n) := by
  obtain ⟨c, hc⟩ := List.exists_mem_of_ne_nil (Nat.toDigits 10 n) Nat.toDigits_ne_nil
  refine ⟨c, ?_, isMark_of_isDigit (Nat.isDigit_of_mem_toDigits (by decide) (by decide) hc)⟩
  rwa [Nat.toString_eq_repr, Nat.toList_repr]

theorem hasMark_int (n : Int) : HasMark (toString n) := by
  cases n with
  | ofNat n => exact hasMark_nat n
  | negSucc n => exact (hasMark_nat (n + 1)).append_left "-"

theorem hasMark_plain (digits : List Char) (point : Int) : HasMark (Binary64.plain digits point) := by
  unfold Binary64.plain
  split
  · exact HasMark.append_right (by decide) _
  · split
    · exact HasMark.append_left (by decide) _
    · exact (HasMark.append_left (by decide) _).append_right _

theorem hasMark_scientific (digits : List Char) (power : Int) :
    HasMark (Binary64.scientific digits power) := by
  unfold Binary64.scientific
  dsimp only
  refine HasMark.append_right (HasMark.append_left ?_ _) _
  split <;> decide

theorem hasMark_real (x : Float) :
    HasMark (Binary64.text x) ∨ Binary64.text x = "inf" ∨ Binary64.text x = "nan" := by
  unfold Binary64.text
  split
  case h_1 => exact .inl (by split <;> decide)
  case h_2 d _ =>
    refine .inl (HasMark.append_left ?_ _)
    unfold Binary64.magnitudeText
    dsimp only
    split
    · exact hasMark_plain _ _
    · exact hasMark_scientific _ _
  case h_3 =>
    split
    · exact .inl (by decide)
    · exact .inr (.inl rfl)
  case h_4 => exact .inr (.inr rfl)

theorem hasMark_date (d : Date) : HasMark d.iso :=
  (hasMark_between (HasMark.append_left (by decide) _) _ _).append_right _

theorem hasMark_timestamp (t : Timestamp) (separator : String) : HasMark (t.text separator) :=
  (hasMark_between (hasMark_date t.date) _ _).append_right _

end Text

theorem Value.IsPlain.ofCode?_shown {v : Value} (h : v.IsPlain) (htext : v.asText? = none) :
    Currency.ofCode? (capitals v.shown) = none := by
  cases h with
  | leaf h =>
    cases v <;> try exact False.elim h
    case null => decide +kernel
    case flag b => cases b <;> decide +kernel
    case int n => exact (hasMark_int n).ofCode?_capitals
    case real x =>
      -- infinity and what is not a number are written in letters only
      change Currency.ofCode? (capitals (Binary64.text x)) = none
      rcases hasMark_real x with hmark | hinf | hnan
      · exact hmark.ofCode?_capitals
      · rw [hinf]
        decide +kernel
      · rw [hnan]
        decide +kernel
    case text => cases htext
    case date d => exact (hasMark_date d).ofCode?_capitals
    case timestamp t => exact (hasMark_timestamp t _).ofCode?_capitals
    case bytes => exact (hasMark_between (by decide) _ _).ofCode?_capitals
  | list => exact (hasMark_between (by decide) _ _).ofCode?_capitals
  | pairs => exact (hasMark_between (by decide) _ _).ofCode?_capitals
  | @set xs _ =>
    cases xs with
    | nil => decide +kernel
    | cons => exact (hasMark_between (by decide) _ _).ofCode?_capitals
  | mapping => exact (hasMark_between (by decide) _ _).ofCode?_capitals

end Invoicing
