import Invoicing.Value.Json

/-!
# JSON strings read back

`Json.readText` reads what stands in a JSON string up to the closing quote. It reads back every text that
is written (`Json.readText_quoted`), also characters that are written as two units.
-/

namespace Invoicing.Json

/-- The unit that four hexadecimal digits stand for. -/
def unit? (a b c d : Char) : Option Nat :=
  [a, b, c, d].foldlM (fun n digit => (Id.hexDigit? digit).map (16 * n + ·)) 0

/-- The character that a letter behind a backslash stands for. -/
def unescape? : Char → Option Char
  | '"' => some '"'
  | '\\' => some '\\'
  | '/' => some '/'
  | 'b' => some (Char.ofNat 8)
  | 'f' => some (Char.ofNat 12)
  | 'n' => some '\n'
  | 'r' => some '\r'
  | 't' => some '\t'
  | _ => none

/-- Whether a unit is the first or second half of a character of two. -/
def isHalf (n : Nat) : Bool := 0xd800 ≤ n && n < 0xe000

/-- Reads a string behind its opening quote: its characters, and what follows the closing quote. -/
def readText : List Char → Option (List Char × List Char)
  | [] => none
  | '"' :: rest => some ([], rest)
  | '\\' :: 'u' :: a :: b :: c :: d :: rest =>
    (unit? a b c d).bind fun n =>
      if isHalf n then
        match rest with
        | '\\' :: 'u' :: e :: f :: g :: h :: rest =>
          (unit? e f g h).bind fun m =>
            if n < 0xdc00 ∧ 0xdc00 ≤ m ∧ m < 0xe000 then
              (readText rest).map fun (cs, rest) =>
                (Char.ofNat (0x10000 + (n - 0xd800) * 0x400 + (m - 0xdc00)) :: cs, rest)
            else none
        | _ => none
      else (readText rest).map fun (cs, rest) => (Char.ofNat n :: cs, rest)
  | '\\' :: c :: rest =>
    (unescape? c).bind fun e => (readText rest).map fun (cs, rest) => (e :: cs, rest)
  | c :: rest => if c.toNat < 32 then none else (readText rest).map fun (cs, rest) => (c :: cs, rest)

theorem hexDigit?_digitChar : ∀ d < 16, Id.hexDigit? (Nat.digitChar d) = some d := by decide

theorem unit?_hexDigits {n : Nat} (hn : n < 0x10000) : ∃ a b c d,
    (unitEscape n).toList = ['\\', 'u', a, b, c, d] ∧ unit? a b c d = some n := by
  have hdigit : ∀ k, Id.hexDigit? (Nat.digitChar (k % 16)) = some (k % 16) :=
    fun k => hexDigit?_digitChar _ (Nat.mod_lt k (by decide))
  refine ⟨Nat.digitChar (n / 16 / 16 / 16 % 16), Nat.digitChar (n / 16 / 16 % 16),
    Nat.digitChar (n / 16 % 16), Nat.digitChar (n % 16),
    by simp [unitEscape, Text.hexPadded, Text.hexDigits], ?_⟩
  simp only [unit?, List.foldlM_cons, List.foldlM_nil, hdigit, Option.map_some, Option.bind_eq_bind,
    Option.bind_some, Option.pure_def, Option.some.injEq]
  omega

theorem readText_unit {n : Nat} (hn : n < 0x10000) (hhalf : isHalf n = false) (rest : List Char) :
    readText ((unitEscape n).toList ++ rest) =
      (readText rest).map fun (cs, rest) => (Char.ofNat n :: cs, rest) := by
  obtain ⟨a, b, c, d, htext, hunit⟩ := unit?_hexDigits hn
  rw [htext]
  change readText ('\\' :: 'u' :: a :: b :: c :: d :: rest) = _
  rw [readText, hunit, Option.bind_some, hhalf]
  rfl

theorem readText_pair {k : Nat} (hk : k < 0x100000) (rest : List Char) :
    readText ((unitEscape (0xd800 + k / 0x400)).toList ++
      ((unitEscape (0xdc00 + k % 0x400)).toList ++ rest)) =
      (readText rest).map fun (cs, rest) => (Char.ofNat (0x10000 + k) :: cs, rest) := by
  obtain ⟨a, b, c, d, htext, hunit⟩ := unit?_hexDigits (n := 0xd800 + k / 0x400) (by omega)
  obtain ⟨e, f, g, h, htext', hunit'⟩ := unit?_hexDigits (n := 0xdc00 + k % 0x400) (by omega)
  have hhalf : isHalf (0xd800 + k / 0x400) = true := by
    rw [isHalf, Bool.and_eq_true, decide_eq_true_iff, decide_eq_true_iff]
    omega
  have hvalue : 0x10000 + (0xd800 + k / 0x400 - 0xd800) * 0x400 + (0xdc00 + k % 0x400 - 0xdc00) =
      0x10000 + k := by omega
  rw [htext, htext']
  change readText ('\\' :: 'u' :: a :: b :: c :: d :: '\\' :: 'u' :: e :: f :: g :: h :: rest) = _
  rw [readText, hunit, Option.bind_some, hhalf, if_pos rfl]
  change (unit? e f g h).bind _ = _
  rw [hunit', Option.bind_some, if_pos (by omega), hvalue]

theorem isHalf_toNat (c : Char) : isHalf c.toNat = false := by
  have hvalid : c.toNat < 0xd800 ∨ 0xdfff < c.toNat := by
    rcases c.valid with h | h
    · exact .inl h
    · exact .inr h.1
  rw [isHalf, Bool.and_eq_false_iff, decide_eq_false_iff_not, decide_eq_false_iff_not]
  omega

theorem readText_escapeChar (c : Char) (rest : List Char) :
    readText ((escapeChar c).toList ++ rest) =
      (readText rest).map fun (cs, rest) => (c :: cs, rest) := by
  have hnumber : ∀ n, c.toNat = n → c = Char.ofNat n := fun n h => by rw [← h, Char.ofNat_toNat]
  unfold escapeChar
  split
  case isTrue h => subst h; rfl
  case isFalse hquote =>
  split
  case isTrue h => subst h; rfl
  case isFalse hslash =>
  split
  case isTrue h => subst h; rfl
  case isFalse =>
  split
  case isTrue h => subst h; rfl
  case isFalse =>
  split
  case isTrue h => subst h; rfl
  case isFalse =>
  split
  case isTrue h => rw [hnumber 8 h]; rfl
  case isFalse =>
  split
  case isTrue h => rw [hnumber 12 h]; rfl
  case isFalse =>
  split
  case isTrue h =>
    rw [String.toList_singleton, List.singleton_append, readText, if_neg (by omega)]
    · exact hquote
    · exact fun _ _ _ _ _ hc _ => hslash hc
    · exact fun _ _ hc _ => hslash hc
  case isFalse =>
  split
  case isTrue h => rw [readText_unit h (isHalf_toNat c), Char.ofNat_toNat]
  case isFalse h =>
    have hlt : c.toNat < 0x110000 := by
      rcases c.valid with hc | hc
      · exact Nat.lt_trans hc (by decide)
      · exact hc.2
    have hback : 0x10000 + (c.toNat - 0x10000) = c.toNat := by omega
    rw [String.toList_append, List.append_assoc, readText_pair (by omega), hback, Char.ofNat_toNat]

theorem readText_escaped (cs rest : List Char) :
    readText (cs.flatMap (fun c => (escapeChar c).toList) ++ '"' :: rest) = some (cs, rest) := by
  induction cs with
  | nil => rfl
  | cons c cs ih => rw [List.flatMap_cons, List.append_assoc, readText_escapeChar, ih]; rfl

theorem readText_quoted (s : String) (rest : List Char) :
    ∃ body, (quoted s).toList ++ rest = '"' :: body ∧ readText body = some (s.toList, rest) := by
  refine ⟨_, ?_, readText_escaped s.toList rest⟩
  simp [quoted, String.toList_join, List.flatMap_map]

end Invoicing.Json
