import Invoicing.Proofs.Value.JsonText
import Mathlib.Data.List.DropRight

/-!
# JSON read back

`Json.read?` reads a JSON text as a value: texts, whole and other numbers, truth values, nothing, lists, and
mappings whose keys are texts. What is written for a value is read back as `Value.plain` says
(`Value.read?_json?`), if all keys in it are texts and all numbers in it can be written and read exactly
(`Value.IsTree`).
-/

namespace Invoicing

namespace Json

/-! ## Reading -/

def isBlank (c : Char) : Bool := c = ' ' || c = '\t' || c = '\n' || c = '\r'

def skipBlanks (cs : List Char) : List Char := cs.dropWhile isBlank

/-- Whether a character can be part of a number, or of a word such as a truth value. -/
def isWordChar (c : Char) : Bool := c.isAlphanum || c = '-' || c = '+' || c = '.'

/-- The whole number that digits stand for, perhaps with a sign. -/
def wholeNumber? : List Char → Option Int
  | '-' :: cs => (digitsValue? cs).map fun n : Nat => -(n : Int)
  | cs => (digitsValue? cs).map fun n : Nat => (n : Int)

/-- The value that a word stands for. -/
def word? (w : String) : Option Value :=
  if w = "null" then some .null
  else if w = "true" then some (.flag true)
  else if w = "false" then some (.flag false)
  else
    match wholeNumber? w.toList with
    | some n => some (.int n)
    | none => (Binary64.ofText? w).map .real

/-- Reads a word, and what follows it. -/
def readWord (cs : List Char) : Option (Value × List Char) :=
  (word? (String.ofList (cs.takeWhile isWordChar))).map fun v => (v, cs.dropWhile isWordChar)

mutual

/-- Reads a value, and what follows it. Every value inside of another takes one of `fuel`. -/
def readValue : Nat → List Char → Option (Value × List Char)
  | 0, _ => none
  | fuel + 1, cs =>
    match skipBlanks cs with
    | '"' :: rest => (readText rest).map fun (s, rest) => (.text (String.ofList s), rest)
    | '[' :: rest =>
      if (skipBlanks rest).head? = some ']' then some (.list [], (skipBlanks rest).tail)
      else (readItems fuel rest).map fun (xs, rest) => (.list xs, rest)
    | '\x7b' :: rest =>
      if (skipBlanks rest).head? = some '\x7d' then some (.mapping [], (skipBlanks rest).tail)
      else (readEntries fuel rest).map fun (es, rest) => (.mapping es, rest)
    | cs => readWord cs

/-- Reads the items of a list, of which there is at least one, and the closing bracket. -/
def readItems : Nat → List Char → Option (List Value × List Char)
  | 0, _ => none
  | fuel + 1, cs =>
    (readValue fuel cs).bind fun (x, rest) =>
      match skipBlanks rest with
      | ']' :: rest => some ([x], rest)
      | ',' :: rest => (readItems fuel rest).map fun (xs, rest) => (x :: xs, rest)
      | _ => none

/-- Reads the entries of a mapping, of which there is at least one, and the closing bracket. -/
def readEntries : Nat → List Char → Option (List (Value × Value) × List Char)
  | 0, _ => none
  | fuel + 1, cs =>
    match skipBlanks cs with
    | '"' :: rest =>
      (readText rest).bind fun (key, rest) =>
        match skipBlanks rest with
        | ':' :: rest =>
          (readValue fuel rest).bind fun (x, rest) =>
            match skipBlanks rest with
            | '\x7d' :: rest => some ([(.text (String.ofList key), x)], rest)
            | ',' :: rest =>
              (readEntries fuel rest).map fun (es, rest) => ((.text (String.ofList key), x) :: es, rest)
            | _ => none
        | _ => none
    | _ => none

end

/-- The value that a JSON text stands for. No value is nested deeper than its text is long. -/
def read? (s : String) : Option Value :=
  (readValue (s.length + 1) s.toList).bind fun (v, rest) =>
    if (skipBlanks rest).isEmpty then some v else none

/-! ## Texts that are read -/

/-- Whether what follows a value cannot be part of it. -/
def Ends (rest : List Char) : Prop := ∀ c ∈ rest.head?, isWordChar c = false

/-- Whether a text is read as a value, whatever follows it. It starts neither with a blank nor in the way a
list ends. -/
structure ReadsAs (s : String) (v : Value) : Prop where
  head : ∃ c cs, s.toList = c :: cs ∧ isBlank c = false ∧ c ≠ ']'
  read : ∀ fuel rest, s.length < fuel → Ends rest → readValue fuel (s.toList ++ rest) = some (v, rest)

theorem skipBlanks_idem (cs : List Char) : skipBlanks (skipBlanks cs) = skipBlanks cs := by
  unfold skipBlanks
  exact List.dropWhile_idempotent _ _

theorem readValue_skipBlanks (fuel : Nat) (cs : List Char) :
    readValue fuel (skipBlanks cs) = readValue fuel cs := by
  cases fuel with
  | zero => rfl
  | succ fuel => rw [readValue, readValue, skipBlanks_idem]

theorem readValue_blank (fuel : Nat) (cs : List Char) :
    readValue fuel (' ' :: cs) = readValue fuel cs :=
  (readValue_skipBlanks fuel (' ' :: cs)).symm.trans (readValue_skipBlanks fuel cs)

theorem readItems_blank (fuel : Nat) (cs : List Char) :
    readItems fuel (' ' :: cs) = readItems fuel cs := by
  cases fuel with
  | zero => rfl
  | succ fuel => rw [readItems, readItems, readValue_blank]

theorem readEntries_blank (fuel : Nat) (cs : List Char) :
    readEntries fuel (' ' :: cs) = readEntries fuel cs := by
  cases fuel with
  | zero => rfl
  | succ fuel => rfl

theorem isBlank_of_isWordChar {c : Char} (h : isWordChar c = true) : isBlank c = false := by
  rw [Bool.eq_false_iff]
  intro hblank
  simp only [isBlank, Bool.or_eq_true, decide_eq_true_eq] at hblank
  rcases hblank with ((rfl | rfl) | rfl) | rfl <;> revert h <;> decide

theorem readValue_of_isWordChar {c : Char} (h : isWordChar c = true) (fuel : Nat) (cs : List Char) :
    readValue (fuel + 1) (c :: cs) = readWord (c :: cs) := by
  have hskip : skipBlanks (c :: cs) = c :: cs := by
    rw [skipBlanks, List.dropWhile_cons, isBlank_of_isWordChar h]
    rfl
  have hne : c ≠ '"' ∧ c ≠ '[' ∧ c ≠ '\x7b' := by
    refine ⟨?_, ?_, ?_⟩ <;> (rintro rfl; revert h; decide)
  rw [readValue, hskip]
  split
  case h_1 heq => exact absurd (List.cons.inj heq).1 hne.1
  case h_2 heq => exact absurd (List.cons.inj heq).1 hne.2.1
  case h_3 heq => exact absurd (List.cons.inj heq).1 hne.2.2
  case h_4 => rfl

theorem readsAs_word {w : String} {v : Value} (hword : word? w = some v) (hne : w ≠ "")
    (hchars : w.toList.all isWordChar = true) : ReadsAs w v := by
  have hall := List.all_eq_true.1 hchars
  obtain ⟨c, cs, hlist⟩ : ∃ c cs, w.toList = c :: cs :=
    List.exists_cons_of_ne_nil fun h => hne (String.toList_eq_nil_iff.1 h)
  have hhead : isWordChar c = true := hall c (by rw [hlist]; simp)
  refine ⟨⟨c, cs, hlist, isBlank_of_isWordChar hhead, ?_⟩, fun fuel rest hfuel hrest => ?_⟩
  · rintro rfl
    revert hhead
    decide
  · have htake : (w.toList ++ rest).takeWhile isWordChar = w.toList := by
      rw [List.takeWhile_append_of_pos hall]
      cases rest with
      | nil => simp
      | cons c cs => simp [hrest c rfl]
    have hdrop : (w.toList ++ rest).dropWhile isWordChar = rest := by
      rw [List.dropWhile_append_of_pos hall]
      cases rest with
      | nil => rfl
      | cons c cs => simp [hrest c rfl]
    have hread : readWord (w.toList ++ rest) = some (v, rest) := by
      rw [readWord, htake, hdrop, String.ofList_toList, hword]
      rfl
    obtain ⟨n, rfl⟩ : ∃ n, fuel = n + 1 := ⟨fuel - 1, by omega⟩
    rw [hlist] at hread ⊢
    exact (readValue_of_isWordChar hhead n _).trans hread

theorem readsAs_quoted (s : String) : ReadsAs (quoted s) (.text s) where
  head := by
    obtain ⟨body, hbody, -⟩ := readText_quoted s []
    rw [List.append_nil] at hbody
    exact ⟨'"', body, hbody, by decide, by decide⟩
  read fuel rest hfuel hrest := by
    obtain ⟨n, rfl⟩ : ∃ n, fuel = n + 1 := ⟨fuel - 1, by omega⟩
    obtain ⟨body, hbody, hread⟩ := readText_quoted s rest
    rw [hbody, readValue]
    change (readText body).map _ = _
    rw [hread]
    change some (Value.text (String.ofList s.toList), rest) = _
    rw [String.ofList_toList]

/-! ## Whole numbers -/

theorem isDigit_of_mem_repr (n : Nat) : ∀ c ∈ n.repr.toList, c.isDigit = true := fun _ hc =>
  Nat.isDigit_of_mem_toDigits (by decide) (by decide) (Nat.toList_repr ▸ hc)

theorem digitsValue?_repr (n : Nat) : digitsValue? n.repr.toList = some n := by
  have hall : n.repr.toList.all Char.isDigit = true := List.all_eq_true.2 (isDigit_of_mem_repr n)
  rw [Nat.toList_repr] at hall ⊢
  have hsome : (Nat.toDigits 10 n).isEmpty = false := by simp
  rw [digitsValue?, hall, hsome]
  exact congrArg some (Nat.ofDigitChars_toDigits (by decide) (by decide))

theorem wholeNumber?_of_isDigit {cs : List Char} (h : ∀ c ∈ cs, c.isDigit = true) :
    wholeNumber? cs = (digitsValue? cs).map fun n : Nat => (n : Int) := by
  unfold wholeNumber?
  split
  · exact absurd (h '-' (by simp)) (by decide)
  · rfl

theorem wholeNumber?_toString (n : Int) : wholeNumber? (toString n).toList = some n := by
  change wholeNumber? n.repr.toList = some n
  rw [Int.repr_eq_if]
  split
  case isTrue h =>
    rw [wholeNumber?_of_isDigit (isDigit_of_mem_repr n.toNat), digitsValue?_repr, Option.map_some]
    exact congrArg some (by omega)
  case isFalse h =>
    have hminus : "-".toList = ['-'] := by decide
    rw [String.toList_append, hminus, List.singleton_append, wholeNumber?, digitsValue?_repr,
      Option.map_some]
    exact congrArg some (by omega)

theorem toList_toString_int (n : Int) : ∀ c ∈ (toString n).toList, c.isDigit = true ∨ c = '-' := by
  change ∀ c ∈ n.repr.toList, _
  rw [Int.repr_eq_if]
  split
  · exact fun c hc => .inl (isDigit_of_mem_repr _ c hc)
  · rw [String.toList_append]
    intro c hc
    rcases List.mem_append.1 hc with hc | hc
    · exact .inr (by simpa using hc)
    · exact .inl (isDigit_of_mem_repr _ c hc)

theorem readsAs_int (n : Int) : ReadsAs (toString n) (.int n) := by
  have hchars := toList_toString_int n
  have hread := wholeNumber?_toString n
  have hother : ∀ w : String, (∃ c ∈ w.toList, c.isDigit = false ∧ c ≠ '-') → toString n ≠ w := by
    rintro w ⟨c, hc, hdigit, hminus⟩ rfl
    rcases hchars c hc with h | h
    · rw [hdigit] at h
      cases h
    · exact hminus h
  refine readsAs_word ?_ ?_ (List.all_eq_true.2 fun c hc => ?_)
  · rw [word?, if_neg (hother _ ⟨'n', by decide⟩), if_neg (hother _ ⟨'t', by decide⟩),
      if_neg (hother _ ⟨'f', by decide⟩), hread]
  · intro hempty
    rw [hempty] at hread
    cases hread
  · rcases hchars c hc with h | rfl
    · simp [isWordChar, Char.isAlphanum, h]
    · decide

/-! ## Lists and mappings -/

theorem skipBlanks_cons {c : Char} (h : isBlank c = false) (cs : List Char) :
    skipBlanks (c :: cs) = c :: cs := by
  rw [skipBlanks, List.dropWhile_cons, h]
  rfl

theorem readItems_intercalate {parts : List String} {vs : List Value}
    (h : List.Forall₂ ReadsAs parts vs) (hne : parts ≠ []) (rest : List Char) {fuel : Nat}
    (hfuel : (String.intercalate ", " parts).length + 1 < fuel) :
    readItems fuel ((String.intercalate ", " parts).toList ++ ']' :: rest) = some (vs, rest) := by
  induction h generalizing fuel with
  | nil => exact absurd rfl hne
  | @cons s v parts vs hs hrest ih =>
    obtain ⟨n, rfl⟩ : ∃ n, fuel = n + 1 := ⟨fuel - 1, by omega⟩
    cases hrest with
    | nil =>
      rw [String.intercalate_singleton] at hfuel ⊢
      rw [readItems, hs.read n _ (by omega) (by rintro c ⟨⟩; decide)]
      rfl
    | cons hs' hrest' =>
      have hcomma : ", ".toList = [',', ' '] := by decide
      have hlength : ", ".length = 2 := by decide
      rw [String.intercalate_cons_cons, String.length_append, String.length_append, hlength] at hfuel
      have hnext := @ih (by simp) n (by omega)
      rw [String.intercalate_cons_cons, String.toList_append, String.toList_append, hcomma,
        List.append_assoc, List.append_assoc, readItems,
        hs.read n _ (by omega) (by rintro c ⟨⟩; decide)]
      change (readItems n (' ' :: ([] ++ _))).map _ = _
      rw [readItems_blank, List.nil_append, hnext]
      rfl

section

variable {opening closing : String} {o c : Char} (ho : opening.toList = [o]) (hc : closing.toList = [c])

include ho hc

theorem toList_bracketed (parts : List String) (rest : List Char) :
    (Value.bracketed opening closing parts).toList ++ rest =
      o :: ((String.intercalate ", " parts).toList ++ c :: rest) := by
  rw [Value.bracketed, String.toList_append, String.toList_append, ho, hc]
  simp only [List.append_assoc, List.cons_append, List.nil_append]

theorem length_bracketed (parts : List String) : (Value.bracketed opening closing parts).length =
    (String.intercalate ", " parts).length + 2 := by
  rw [← String.length_toList, ← List.append_nil (String.toList _), toList_bracketed ho hc]
  simp only [List.length_cons, List.length_append, String.length_toList, List.length_nil]

end

theorem toList_intercalate_cons (s : String) (parts : List String) :
    ∃ tail, (String.intercalate ", " (s :: parts)).toList = s.toList ++ tail := by
  cases parts with
  | nil => exact ⟨[], by rw [String.intercalate_singleton, List.append_nil]⟩
  | cons t parts =>
    refine ⟨", ".toList ++ (String.intercalate ", " (t :: parts)).toList, ?_⟩
    rw [String.intercalate_cons_cons, String.toList_append, String.toList_append, List.append_assoc]

theorem head?_intercalate {s : String} {parts : List String} {c closing : Char} {cs : List Char}
    (hs : s.toList = c :: cs) (hblank : isBlank c = false) (hc : c ≠ closing) (rest : List Char) :
    (skipBlanks ((String.intercalate ", " (s :: parts)).toList ++ rest)).head? ≠ some closing := by
  obtain ⟨tail, htail⟩ := toList_intercalate_cons s parts
  rw [htail, hs, List.cons_append, List.cons_append, skipBlanks_cons hblank, List.head?_cons]
  exact fun h => hc (Option.some.inj h)

theorem readsAs_list {parts : List String} {vs : List Value} (h : List.Forall₂ ReadsAs parts vs) :
    ReadsAs (Value.bracketed "[" "]" parts) (.list vs) := by
  have ho : "[".toList = ['['] := by decide
  have hc : "]".toList = [']'] := by decide
  refine ⟨⟨'[', _, by simpa using toList_bracketed ho hc parts [], by decide, by decide⟩, ?_⟩
  intro fuel rest hfuel hrest
  rw [length_bracketed ho hc] at hfuel
  obtain ⟨n, rfl⟩ : ∃ n, fuel = n + 1 := ⟨fuel - 1, by omega⟩
  rw [toList_bracketed ho hc, readValue]
  change (if _ then _ else _) = _
  cases h with
  | nil => rfl
  | @cons s v parts vs hs hvs =>
    obtain ⟨c, cs, hlist, hblank, hc⟩ := hs.head
    rw [if_neg (head?_intercalate hlist hblank hc _),
      readItems_intercalate (.cons hs hvs) (by simp) rest (by omega)]
    rfl

/-- Whether a text is read as an entry of a mapping. -/
def ReadsAsEntry (s : String) (e : Value × Value) : Prop :=
  ∃ key t, s = quoted key ++ ": " ++ t ∧ e.1 = .text key ∧ ReadsAs t e.2

theorem ReadsAsEntry.head {s : String} {e : Value × Value} (h : ReadsAsEntry s e) :
    ∃ cs, s.toList = '"' :: cs := by
  obtain ⟨key, t, rfl, -, -⟩ := h
  obtain ⟨body, hbody, -⟩ := readText_quoted key (": ".toList ++ t.toList)
  exact ⟨body, by rw [String.toList_append, String.toList_append, List.append_assoc, hbody]⟩

theorem readEntries_entry {s : String} {e : Value × Value} (h : ReadsAsEntry s e) {fuel : Nat}
    (hfuel : s.length < fuel) {rest : List Char} (hrest : Ends rest) :
    readEntries (fuel + 1) (s.toList ++ rest) =
      match skipBlanks rest with
      | '\x7d' :: rest => some ([e], rest)
      | ',' :: rest => (readEntries fuel rest).map fun (es, rest) => (e :: es, rest)
      | _ => none := by
  obtain ⟨key, t, rfl, hkey, ht⟩ := h
  obtain ⟨k, v⟩ := e
  obtain rfl : k = .text key := hkey
  have hcolon : ": ".toList = [':', ' '] := by decide
  obtain ⟨body, hbody, hread⟩ := readText_quoted key (": ".toList ++ (t.toList ++ rest))
  rw [String.length_append] at hfuel
  rw [String.toList_append, String.toList_append, List.append_assoc, List.append_assoc, hbody,
    readEntries]
  change (readText body).bind _ = _
  rw [hread, hcolon, Option.bind_some]
  change (readValue fuel (' ' :: ([] ++ (t.toList ++ rest)))).bind _ = _
  rw [readValue_blank, List.nil_append, ht.read fuel rest (by omega) hrest, Option.bind_some,
    String.ofList_toList]

theorem readEntries_intercalate {parts : List String} {es : List (Value × Value)}
    (h : List.Forall₂ ReadsAsEntry parts es) (hne : parts ≠ []) (rest : List Char) {fuel : Nat}
    (hfuel : (String.intercalate ", " parts).length + 1 < fuel) :
    readEntries fuel ((String.intercalate ", " parts).toList ++ '\x7d' :: rest) =
      some (es, rest) := by
  induction h generalizing fuel with
  | nil => exact absurd rfl hne
  | @cons s e parts es hs hrest ih =>
    obtain ⟨n, rfl⟩ : ∃ n, fuel = n + 1 := ⟨fuel - 1, by omega⟩
    cases hrest with
    | nil =>
      rw [String.intercalate_singleton] at hfuel ⊢
      rw [readEntries_entry hs (by omega) (by rintro c ⟨⟩; decide)]
      rfl
    | cons hs' hrest' =>
      have hcomma : ", ".toList = [',', ' '] := by decide
      have hlength : ", ".length = 2 := by decide
      rw [String.intercalate_cons_cons, String.length_append, String.length_append, hlength] at hfuel
      have hnext := @ih (by simp) n (by omega)
      rw [String.intercalate_cons_cons, String.toList_append, String.toList_append, hcomma,
        List.append_assoc, List.append_assoc,
        readEntries_entry hs (by omega) (by rintro c ⟨⟩; decide)]
      change (readEntries n (' ' :: ([] ++ _))).map _ = _
      rw [readEntries_blank, List.nil_append, hnext]
      rfl

theorem readsAs_mapping {parts : List String} {es : List (Value × Value)}
    (h : List.Forall₂ ReadsAsEntry parts es) :
    ReadsAs (Value.bracketed "\x7b" "\x7d" parts) (.mapping es) := by
  have ho : "\x7b".toList = ['\x7b'] := by decide
  have hc : "\x7d".toList = ['\x7d'] := by decide
  refine ⟨⟨'\x7b', _, by simpa using toList_bracketed ho hc parts [], by decide, by decide⟩, ?_⟩
  intro fuel rest hfuel hrest
  rw [length_bracketed ho hc] at hfuel
  obtain ⟨n, rfl⟩ : ∃ n, fuel = n + 1 := ⟨fuel - 1, by omega⟩
  rw [toList_bracketed ho hc, readValue]
  change (if _ then _ else _) = _
  cases h with
  | nil => rfl
  | @cons s e parts es hs hes =>
    obtain ⟨cs, hlist⟩ := hs.head
    rw [if_neg (head?_intercalate hlist (by decide) (by decide) _),
      readEntries_intercalate (.cons hs hes) (by simp) rest (by omega)]
    rfl

end Json

/-! ## Values -/

namespace Value

open Json (ReadsAs ReadsAsEntry)

mutual

/-- Whether a value is made of lists and of mappings with texts for keys, no part of it is a
floating-point number, and no whole number in it has too many digits. -/
def IsTree : Value → Prop
  | .real _ => False
  | .list xs | .tuple xs => AllTrees xs
  | .mapping entries => EntriesTrees entries
  | v => v.isWritable = true

def AllTrees : List Value → Prop
  | [] => True
  | x :: xs => IsTree x ∧ AllTrees xs

def EntriesTrees : List (Value × Value) → Prop
  | [] => True
  | (k, v) :: rest => (∃ s, k.asText? = some s) ∧ IsTree v ∧ EntriesTrees rest

end

theorem keyText?_of_asText? {k : Value} {s : String} (h : k.asText? = some s) : keyText? k = some s := by
  cases k <;> simp_all [asText?, keyText?]

variable {leaf : Leaf}

theorem readsAs_leaf (hleaf : ∀ v, ∃ s, leaf v = some s) (v : Value) : ∃ s, (leaf v).map Json.quoted = some s ∧
    ReadsAs s (ofText? (leaf v)) := by
  obtain ⟨s, hs⟩ := hleaf v
  rw [hs]
  exact ⟨Json.quoted s, rfl, Json.readsAs_quoted s⟩

mutual

theorem json?_readsAs (hleaf : ∀ v, ∃ s, leaf v = some s) : ∀ v : Value, v.IsTree →
    ∃ s, json? leaf v = some s ∧ ReadsAs s (plain leaf v)
  | .null, _ => ⟨_, rfl, Json.readsAs_word rfl (by decide) (by decide)⟩
  | .flag true, _ => ⟨_, rfl, Json.readsAs_word rfl (by decide) (by decide)⟩
  | .flag false, _ => ⟨_, rfl, Json.readsAs_word rfl (by decide) (by decide)⟩
  | .int n, _ => ⟨_, rfl, Json.readsAs_int n⟩
  | .real _, h => h.elim
  | .text s, _ => ⟨_, rfl, Json.readsAs_quoted s⟩
  | .member _ name, _ => ⟨_, rfl, Json.readsAs_quoted name⟩
  | .list xs, h | .tuple xs, h => by
    obtain ⟨parts, hparts, hread⟩ := jsonList?_readsAs hleaf xs h
    exact ⟨_, by rw [json?, hparts]; rfl, Json.readsAs_list hread⟩
  | .mapping entries, h => by
    obtain ⟨parts, hparts, hread⟩ := jsonEntries?_readsAs hleaf entries h
    exact ⟨_, by rw [json?, hparts]; rfl, Json.readsAs_mapping hread⟩
  | .decimal d, _ => readsAs_leaf hleaf (.decimal d)
  | .id i, _ => readsAs_leaf hleaf (.id i)
  | .date d, _ => readsAs_leaf hleaf (.date d)
  | .timestamp t, _ => readsAs_leaf hleaf (.timestamp t)
  | .currency c, _ => readsAs_leaf hleaf (.currency c)
  | .money m, _ => readsAs_leaf hleaf (.money m)
  | .bytes bs, _ => readsAs_leaf hleaf (.bytes bs)
  | .set xs, _ => readsAs_leaf hleaf (.set xs)

theorem jsonList?_readsAs (hleaf : ∀ v, ∃ s, leaf v = some s) : ∀ xs : List Value, AllTrees xs →
    ∃ parts, jsonList? leaf xs = some parts ∧ List.Forall₂ ReadsAs parts (plainList leaf xs)
  | [], _ => ⟨[], rfl, .nil⟩
  | x :: xs, h => by
    obtain ⟨s, hs, hread⟩ := json?_readsAs hleaf x h.1
    obtain ⟨parts, hparts, hrest⟩ := jsonList?_readsAs hleaf xs h.2
    exact ⟨s :: parts, by rw [jsonList?, hs, hparts]; rfl, .cons hread hrest⟩

theorem jsonEntries?_readsAs (hleaf : ∀ v, ∃ s, leaf v = some s) :
    ∀ entries : List (Value × Value), EntriesTrees entries →
    ∃ parts, jsonEntries? leaf entries = some parts ∧
      List.Forall₂ ReadsAsEntry parts (plainEntries leaf entries)
  | [], _ => ⟨[], rfl, .nil⟩
  | (k, v) :: rest, h => by
    obtain ⟨⟨key, hkey⟩, hv, hrest⟩ := h
    obtain ⟨s, hs, hread⟩ := json?_readsAs hleaf v hv
    obtain ⟨parts, hparts, hentries⟩ := jsonEntries?_readsAs hleaf rest hrest
    have hkeyText := keyText?_of_asText? hkey
    refine ⟨(Json.quoted key ++ ": " ++ s) :: parts, by rw [jsonEntries?, hkeyText, hs, hparts]; rfl,
      .cons ⟨key, s, rfl, ?_, hread⟩ hentries⟩
    rw [hkeyText]
    rfl

end

/-- What is written for a value is read back as what is left of it: leaves as their texts, and everything
else in its place. -/
theorem read?_json? (hleaf : ∀ v, ∃ s, leaf v = some s) {v : Value} (h : v.IsTree) :
    ∃ s, json? leaf v = some s ∧ Json.read? s = some (plain leaf v) := by
  obtain ⟨s, hs, hread⟩ := json?_readsAs hleaf v h
  refine ⟨s, hs, ?_⟩
  have hall := hread.read (s.length + 1) [] (Nat.lt_succ_self _) nofun
  rw [List.append_nil] at hall
  rw [Json.read?, hall]
  rfl

end Value

end Invoicing
