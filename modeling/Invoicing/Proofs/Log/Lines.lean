import Invoicing.Clock
import Invoicing.Proofs.Log.Fields
import Invoicing.Proofs.Value.JsonReading

/-!
# Lines of the log

What is found in the line of a record, read as JSON, and where. A place in a value is a way through items
of lists and entries of mappings. What is written keeps every place (`Value.at?_plain`), so a leaf of a
record's own field is found in the line where it is in the field, as its text, and every bound field has
its value, whatever own fields are called (`Log.Record.line_places`). Timestamps are written with a blank
between date and time, and so never in their ISO form (`Timestamp.text_ne_iso`).
-/

namespace Invoicing

namespace Value

/-! ## Places -/

/-- A step into a value: to an item of a list, or to the entry of a mapping under a text. -/
inductive Step where
  | item (index : Nat)
  | key (name : String)

def step? : Value → Step → Option Value
  | .list xs, .item n | .tuple xs, .item n => xs[n]?
  | .mapping entries, .key name => find? entries (.text name)
  | _, _ => none

/-- What is found at a place in a value. -/
def at? (v : Value) (place : List Step) : Option Value := place.foldlM step? v

theorem at?_cons (v : Value) (step : Step) (place : List Step) :
    v.at? (step :: place) = (v.step? step).bind fun w => w.at? place := List.foldlM_cons

theorem plainList_eq_map (leaf : Leaf) (xs : List Value) : plainList leaf xs = xs.map (plain leaf) := by
  induction xs with
  | nil => rfl
  | cons x xs ih => rw [plainList, ih, List.map_cons]

theorem AllTrees.of_mem {xs : List Value} (h : AllTrees xs) : ∀ x ∈ xs, x.IsTree := by
  induction xs with
  | nil => simp
  | cons x xs ih => exact List.forall_mem_cons.2 ⟨h.1, ih h.2⟩

theorem sameAs_text {k : Value} {s : String} (h : k.asText? = some s) (name : String) :
    k.sameAs (.text name) = decide (s = name) := by
  cases k <;> simp_all [asText?, sameAs]

theorem EntriesTrees.find? {entries : List (Value × Value)} (h : EntriesTrees entries) (leaf : Leaf)
    (name : String) :
    Value.find? (plainEntries leaf entries) (.text name) =
        (Value.find? entries (.text name)).map (plain leaf) ∧
      ∀ v, Value.find? entries (.text name) = some v → v.IsTree := by
  induction entries with
  | nil => exact ⟨rfl, nofun⟩
  | cons e rest ih =>
    obtain ⟨k, v⟩ := e
    obtain ⟨⟨s, hs⟩, hv, hrest⟩ := h
    obtain ⟨hfind, htree⟩ := ih hrest
    have hkey : (ofText? (keyText? k)).sameAs (.text name) = decide (s = name) := by
      rw [keyText?_of_asText? hs]
      exact sameAs_text rfl name
    unfold Value.find? at hfind htree ⊢
    rw [plainEntries, List.find?_cons, List.find?_cons, hkey, sameAs_text hs]
    by_cases hname : s = name
    · simp only [hname, decide_true]
      exact ⟨rfl, fun w hw => Option.some.inj hw ▸ hv⟩
    · simp only [hname, decide_false]
      exact ⟨hfind, htree⟩

theorem step?_ofText? (s : Option String) (step : Step) : (ofText? s).step? step = none := by
  cases s <;> cases step <;> rfl

theorem getElem?_plainList {xs : List Value} (h : AllTrees xs) (leaf : Leaf) (n : Nat) :
    (plainList leaf xs)[n]? = (xs[n]?).map (plain leaf) ∧ ∀ w, xs[n]? = some w → w.IsTree := by
  refine ⟨?_, fun w hw => h.of_mem w (List.mem_of_getElem? hw)⟩
  rw [plainList_eq_map, List.getElem?_map]

theorem step?_plain {v : Value} (h : v.IsTree) (leaf : Leaf) (step : Step) :
    (plain leaf v).step? step = (v.step? step).map (plain leaf) ∧
      ∀ w, v.step? step = some w → w.IsTree := by
  -- Only lists and mappings have places inside.
  have hleaf : ∀ (u : Value) (s : Option String), u.step? step = none →
      (ofText? s).step? step = (u.step? step).map (plain leaf) ∧
        ∀ w, u.step? step = some w → w.IsTree := by
    intro u s hu
    rw [step?_ofText?, hu]
    exact ⟨rfl, nofun⟩
  cases v with
  | list xs | tuple xs =>
    cases step with
    | item n => exact getElem?_plainList h leaf n
    | key name => exact ⟨rfl, nofun⟩
  | mapping entries =>
    cases step with
    | item n => exact ⟨rfl, nofun⟩
    | key name => exact EntriesTrees.find? h leaf name
  | real x => exact h.elim
  | null | flag b | int n | text s | member family name => cases step <;> exact ⟨rfl, nofun⟩
  | decimal _ | id _ | date _ | timestamp _ | currency _ | money _ | bytes _ | set _ =>
    exact hleaf _ _ (by cases step <;> rfl)

/-- What is written keeps every place. -/
theorem at?_plain {v : Value} (h : v.IsTree) (leaf : Leaf) (place : List Step) :
    (plain leaf v).at? place = (v.at? place).map (plain leaf) := by
  induction place generalizing v with
  | nil => rfl
  | cons step place ih =>
    obtain ⟨hstep, htree⟩ := step?_plain h leaf step
    rw [at?_cons, at?_cons, hstep]
    cases hw : v.step? step with
    | none => rfl
    | some w => exact ih (htree w hw)

/-! ## Objects -/

theorem step?_fields (es : List (String × Value)) (name : String) :
    (Value.fields es).step? (.key name) = es.lookup name := by
  change Value.find? (es.map fun e => (.text e.1, e.2)) (.text name) = _
  induction es with
  | nil => rfl
  | cons e rest ih =>
    obtain ⟨m, v⟩ := e
    have hsame : (Value.text m).sameAs (.text name) = decide (m = name) := sameAs_text rfl name
    rw [Log.lookup_cons_ite, ← ih, Value.find?, Value.find?, List.map_cons, List.find?_cons, hsame]
    by_cases h : m = name
    · rw [decide_eq_true h, if_pos h.symm]
      rfl
    · rw [decide_eq_false h, if_neg (Ne.symm h)]

theorem fields_isTree {es : List (String × Value)} (h : ∀ p ∈ es, p.2.IsTree) :
    (Value.fields es).IsTree := by
  change EntriesTrees (es.map fun e => (.text e.1, e.2))
  induction es with
  | nil => trivial
  | cons e rest ih =>
    obtain ⟨he, hrest⟩ := List.forall_mem_cons.1 h
    exact ⟨⟨e.1, rfl⟩, he, ih hrest⟩

theorem ofText?_isTree (s : Option String) : (ofText? s).IsTree := by
  cases s <;> rfl

end Value

/-! ## Records -/

namespace Log

open Value (IsTree)

theorem mem_putField {fields : List (String × Value)} {name : String} {v : Value} {p : String × Value}
    (h : p ∈ putField fields name v) : p ∈ fields ∨ p.2 = v := by
  induction fields with
  | nil =>
    obtain rfl : p = (name, v) := by simpa [putField] using h
    exact .inr rfl
  | cons f rest ih =>
    obtain ⟨m, w⟩ := f
    unfold putField at h
    split at h
    · rcases List.mem_cons.1 h with rfl | hp
      · exact .inr rfl
      · exact .inl (List.mem_cons_of_mem _ hp)
    · rcases List.mem_cons.1 h with rfl | hp
      · exact .inl List.mem_cons_self
      · exact (ih hp).imp (List.mem_cons_of_mem _) id

theorem forall_putAll {P : Value → Prop} {added fields : List (String × Value)}
    (hadded : ∀ p ∈ added, P p.2) (hfields : ∀ p ∈ fields, P p.2) :
    ∀ p ∈ putAll fields added, P p.2 := by
  induction added generalizing fields with
  | nil => exact hfields
  | cons a rest ih =>
    obtain ⟨ha, hrest⟩ := List.forall_mem_cons.1 hadded
    refine ih hrest fun p hp => ?_
    rcases mem_putField hp with hp | hp
    · exact hfields p hp
    · rw [hp]
      exact ha

namespace Record

variable {r : Record}

/-- Whether all values of a record are trees. -/
structure HoldsTrees (r : Record) : Prop where
  level : r.level.IsTree
  logger : r.logger.IsTree
  extra : ∀ p ∈ r.extra, p.2.IsTree
  incident : ∀ p ∈ r.incidentFields, p.2.IsTree

theorem HoldsTrees.payload (h : r.HoldsTrees) : ∀ p ∈ r.payload, p.2.IsTree := by
  have hbody : ∀ p ∈ r.body, p.2.IsTree := by
    unfold body envelope
    simp only [List.forall_mem_append, List.forall_mem_cons, List.forall_mem_map, List.mem_filter]
    refine ⟨⟨⟨Value.ofText?_isTree _, h.level, h.logger, rfl, by simp⟩, fun p hp => rfl⟩, ?_⟩
    exact fun p hp => h.extra p hp.1
  rw [payload_eq]
  exact forall_putAll h.incident hbody

theorem line_at? (h : r.HoldsTrees) : ∃ line doc, r.line? = some line ∧ Json.read? line = some doc ∧
    ∀ name place, doc.at? (.key name :: place) =
      ((r.field? name).bind fun v => v.at? place).map (Value.plain .shown) := by
  have htree := Value.fields_isTree h.payload
  have htotal : ∀ v, ∃ s, Leaf.shown v = some s := fun v => ⟨v.shown, rfl⟩
  obtain ⟨line, hline, hread⟩ := Value.read?_json? htotal htree
  refine ⟨line, _, hline, hread, fun name place => ?_⟩
  rw [Value.at?_plain htree, Value.at?_cons, Value.step?_fields, field?]

theorem incidentFields_ne_name (r : Record) (f : Field) : ∀ p ∈ r.incidentFields, p.1 ≠ f.name := by
  have hexc : ∀ s : String, "exc_" ++ s ≠ f.name := by
    intro s hs
    have hhead := congrArg (fun t : String => t.toList.head?) hs
    cases f <;> simp [Field.name] at hhead
  unfold incidentFields
  cases r.incident with
  | none => simp
  | some i =>
    simp only [Incident.fields, List.forall_mem_append, List.forall_mem_cons, List.forall_mem_map]
    refine ⟨⟨⟨⟨hexc "type", hexc "message", by simp⟩, fun p hp => ?_⟩, fun a _ => hexc a.1⟩, ?_, by simp⟩
    · obtain ⟨c, -, rfl⟩ : ∃ c, i.code = some c ∧ ("exc_code", c) = p := by simpa using hp
      exact hexc "code"
    · cases f <;> decide

/-- Whether a record uses a name for nothing but a field of its own. -/
structure IsFree (r : Record) (name : String) : Prop where
  envelope : name ∉ envelopeNames
  hidden : name ∉ hiddenNames
  context : name ∉ r.context.map (·.1)
  incident : name ∉ r.incidentFields.map (·.1)

theorem field?_of_isFree {name : String} (h : r.IsFree name) : r.field? name = r.extra.lookup name := by
  have hincident : ∀ p ∈ r.incidentFields, p.1 ≠ name := by
    rintro p hp rfl
    exact h.incident (List.mem_map_of_mem hp)
  have hcontext : r.context.lookup name = none := by
    rw [List.lookup_eq_none_iff]
    intro p hp
    have hne : name ≠ p.1 := fun heq => h.context (heq ▸ List.mem_map_of_mem hp)
    simpa using hne
  rw [field?_eq hincident, envelope_lookup_eq_none r h.envelope, hcontext, if_neg (by simpa using h.hidden)]
  rfl

theorem field?_bound {c : Context} (hcontext : r.context = c.bound) {f : Field} {value : String}
    (hf : c.get f = some value) : r.field? f.name = some (.text value) := by
  have henvelope : r.envelope.lookup f.name = none := by cases f <;> rfl
  rw [field?_eq (incidentFields_ne_name r f), henvelope, hcontext, Context.lookup_bound,
    Context.ofName?_name, Option.bind_some, hf]
  rfl

end Record

end Log

theorem Timestamp.text_ne_iso (t : Timestamp) : t.text " " ≠ t.iso := by
  intro h
  have hlists := congrArg String.toList h
  simp only [text, iso, String.toList_append, List.append_assoc] at hlists
  have htails := List.append_cancel_left hlists
  revert htails
  simp

namespace Log.Record

variable {r : Record} {c : Context}

/-- In the line of a record every bound field has its value, whatever the record's own fields are called,
and every leaf of an own field is where it is in the field: an id, a date, a decimal and a member of an
enumeration as the text that stands for it, a timestamp with a blank between date and time. -/
theorem line_places (hcontext : r.context = c.bound) (htrees : r.HoldsTrees) :
    ∃ line doc, r.line? = some line ∧ Json.read? line = some doc ∧
      (∀ f value, c.get f = some value → doc.at? [.key f.name] = some (.text value)) ∧
      ∀ name v, r.extra.lookup name = some v → r.IsFree name → ∀ place,
        (∀ i, v.at? place = some (.id i) → doc.at? (.key name :: place) = some (.text i.text)) ∧
        (∀ d, v.at? place = some (.date d) → doc.at? (.key name :: place) = some (.text d.iso)) ∧
        (∀ d, v.at? place = some (.decimal d) → doc.at? (.key name :: place) = some (.text d.text)) ∧
        (∀ family member, v.at? place = some (.member family member) →
          doc.at? (.key name :: place) = some (.text member)) ∧
        (∀ t, v.at? place = some (.timestamp t) →
          doc.at? (.key name :: place) = some (.text (t.text " ")) ∧
          doc.at? (.key name :: place) ≠ some (.text t.iso)) := by
  obtain ⟨line, doc, hline, hread, hplaces⟩ := line_at? htrees
  refine ⟨line, doc, hline, hread, fun f value hf => ?_, fun name v hv hfree place => ?_⟩
  · rw [hplaces, field?_bound hcontext hf]
    rfl
  · have hplace : ∀ leaf, v.at? place = some leaf →
        doc.at? (.key name :: place) = some (leaf.plain .shown) := by
      intro leaf hleaf
      rw [hplaces, field?_of_isFree hfree, hv, Option.bind_some, hleaf, Option.map_some]
    refine ⟨fun i => hplace _, fun d => hplace _, fun d => hplace _, fun family member => hplace _,
      fun t ht => ?_⟩
    have hwritten : doc.at? (.key name :: place) = some (.text (t.text " ")) := hplace _ ht
    refine ⟨hwritten, fun hiso => ?_⟩
    rw [hwritten] at hiso
    exact t.text_ne_iso (Value.text.inj (Option.some.inj hiso))

/-! ## A timestamp inside of a list -/

/-- What clocks show unless told otherwise. -/
def noon : Timestamp := Clock.initial.fixed

/-- A list of a mapping with a timestamp and an id. -/
def sighting : Value :=
  .list [.mapping [(.text "at", .timestamp noon), (.text "by", .id (.known 1))]]

/-- A record of a bound account, with a field of the same name and a field with a timestamp. -/
def sighted : Record :=
  ⟨0, .text "INFO", .text "billing_kernel.test", "seen", [("account_id", "bound")],
    [("account_id", .text "own"), ("seen", sighting)], none⟩

theorem sighted_holdsTrees : sighted.HoldsTrees where
  level := rfl
  logger := rfl
  extra := by
    simp only [sighted, List.forall_mem_cons]
    exact ⟨rfl, ⟨⟨⟨_, rfl⟩, rfl, ⟨_, rfl⟩, rfl, trivial⟩, trivial⟩, by simp⟩
  incident := by simp [sighted, incidentFields]

theorem sighted_isFree : sighted.IsFree "seen" := by
  constructor <;> simp [sighted, envelopeNames, hiddenNames, ownNames, incidentFields]

/-- The timestamp is written without the letter between date and time that its ISO form has. -/
theorem sighted_blank : sighted.extra.lookup "seen" = some sighting ∧
    sighting.at? [.item 0, .key "at"] = some (.timestamp noon) ∧
    noon.iso = "2024-01-01T12:00:00+00:00" ∧
    ∃ line doc, sighted.line? = some line ∧ Json.read? line = some doc ∧
      doc.at? [.key "seen", .item 0, .key "at"] = some (.text "2024-01-01 12:00:00+00:00") := by
  obtain ⟨line, doc, hline, hread, hplaces⟩ := line_at? sighted_holdsTrees
  have hplace : sighting.at? [.item 0, .key "at"] = some (.timestamp noon) := rfl
  have hseen : sighted.extra.lookup "seen" = some sighting := rfl
  have htext : noon.text " " = "2024-01-01 12:00:00+00:00" := by decide +kernel
  refine ⟨hseen, hplace, by decide +kernel, line, doc, hline, hread, ?_⟩
  rw [hplaces, field?_of_isFree sighted_isFree, hseen, Option.bind_some, hplace, ← htext]
  rfl

/-- The id is written as it is, and the account is the one that is bound. -/
theorem line_places_sighted : ∃ line doc, sighted.line? = some line ∧ Json.read? line = some doc ∧
    doc.at? [.key "account_id"] = some (.text "bound") ∧
    doc.at? [.key "seen", .item 0, .key "by"] = some (.text (Id.known 1).text) ∧
    doc.at? [.key "seen", .item 0, .key "at"] ≠ some (.text noon.iso) := by
  obtain ⟨line, doc, hline, hread, hbound, hplaces⟩ :=
    line_places (c := ⟨none, some "bound", none⟩) rfl sighted_holdsTrees
  refine ⟨line, doc, hline, hread, hbound .account "bound" rfl, ?_, ?_⟩
  · exact (hplaces "seen" sighting rfl sighted_isFree _).1 (.known 1) rfl
  · exact ((hplaces "seen" sighting rfl sighted_isFree _).2.2.2.2 noon rfl).2

end Log.Record

end Invoicing
