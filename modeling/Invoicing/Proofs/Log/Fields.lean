import Invoicing.Proofs.Log.Context

/-!
# Fields of records

What a log record holds under a name, in the object that is written for it. The envelope goes before the
context and the context before the record's own fields, some of which are hidden, and the fields of an
error go before all of these (`Record.field?_eq`). A record written in a context has the bound fields of
that context (`Record.WrittenIn.field?_name`).
-/

namespace Invoicing.Log

variable {name : String}

/-! ## Objects -/

theorem lookup_cons_ite {β : Type} (m : String) (w : β) (rest : List (String × β)) (name : String) :
    ((m, w) :: rest).lookup name = if name = m then some w else rest.lookup name := by
  by_cases h : name = m
  · rw [if_pos h, h, List.lookup_cons_self]
  · have hbeq : (name == m) = false := by simpa using h
    rw [if_neg h, List.lookup_cons, hbeq]

theorem lookup_putField (fields : List (String × Value)) (n : String) (v : Value) (name : String) :
    (putField fields n v).lookup name = if name = n then some v else fields.lookup name := by
  induction fields with
  | nil => exact lookup_cons_ite n v [] name
  | cons f rest ih =>
    obtain ⟨m, w⟩ := f
    unfold putField
    by_cases hm : m = n
    · rw [if_pos hm, lookup_cons_ite, lookup_cons_ite, hm]
      split <;> rfl
    · rw [if_neg hm, lookup_cons_ite, lookup_cons_ite, ih]
      by_cases h : name = m
      · rw [if_pos h, if_pos h, if_neg (h ▸ hm)]
      · rw [if_neg h, if_neg h]

/-- Puts some fields into an object, one after the other. -/
def putAll (fields added : List (String × Value)) : List (String × Value) :=
  added.foldl (fun fs f => putField fs f.1 f.2) fields

theorem lookup_putAll {added : List (String × Value)} (h : ∀ p ∈ added, p.1 ≠ name)
    (fields : List (String × Value)) : (putAll fields added).lookup name = fields.lookup name := by
  induction added generalizing fields with
  | nil => rfl
  | cons p rest ih =>
    obtain ⟨hp, hrest⟩ := List.forall_mem_cons.1 h
    change (putAll (putField fields p.1 p.2) rest).lookup name = _
    rw [ih hrest, lookup_putField, if_neg (Ne.symm hp)]

theorem lookup_filter (q : String → Bool) (fields : List (String × Value)) (name : String) :
    (fields.filter fun f => q f.1).lookup name = if q name then fields.lookup name else none := by
  induction fields with
  | nil => rw [List.filter_nil, List.lookup_nil, ite_self]
  | cons f rest ih =>
    obtain ⟨m, w⟩ := f
    rw [List.filter_cons, lookup_cons_ite]
    by_cases h : name = m
    · subst h
      by_cases hq : q name
      · rw [if_pos hq, if_pos hq, if_pos rfl, List.lookup_cons_self]
      · rw [if_neg hq, if_neg hq, ih, if_neg hq]
    · rw [if_neg h, ← ih]
      by_cases hq : q m
      · rw [if_pos hq, lookup_cons_ite, if_neg h]
      · rw [if_neg hq]

theorem lookup_texts (context : List (String × String)) (name : String) :
    (context.map fun (n, v) => (n, Value.text v)).lookup name = (context.lookup name).map .text := by
  induction context with
  | nil => rfl
  | cons p rest ih =>
    obtain ⟨m, w⟩ := p
    rw [List.map_cons, lookup_cons_ite, lookup_cons_ite, ih]
    split <;> rfl

theorem lookup_append_free (head fields : List (String × Value)) (q : String → Bool) (name : String) :
    (head ++ fields.filter fun f => q f.1 && !head.any (·.1 = f.1)).lookup name =
      (head.lookup name).or (if q name then fields.lookup name else none) := by
  rw [List.lookup_append, lookup_filter fun n => q n && !head.any (·.1 = n)]
  cases hlookup : head.lookup name with
  | some v => rfl
  | none =>
    have hfree : head.any (·.1 = name) = false := by
      rw [List.any_eq_false]
      intro p hp
      have hne : name ≠ p.1 := by simpa using List.lookup_eq_none_iff.1 hlookup p hp
      simpa using Ne.symm hne
    rw [hfree, Bool.not_false, Bool.and_true]

theorem Context.lookup_bound (c : Context) (name : String) :
    c.bound.lookup name = (Field.ofName? name).bind c.get := by
  have hlist : c.bound = ((c.correlation.map fun v => ("correlation_id", v)).toList ++
      (c.account.map fun v => ("account_id", v)).toList ++
      (c.invoice.map fun v => ("invoice_id", v)).toList) := by
    obtain ⟨_ | _, _ | _, _ | _⟩ := c <;> rfl
  have hone : ∀ (n : String) (v : Option String), (v.map fun v => (n, v)).toList.lookup name =
      if name = n then v else none := by
    rintro n (_ | v)
    · exact (ite_self _).symm
    · exact lookup_cons_ite n v [] name
  rw [hlist, List.lookup_append, List.lookup_append, hone, hone, hone]
  unfold Field.ofName? Field.all
  by_cases hc : name = "correlation_id"
  · subst hc; simp [Field.name, get]
  · by_cases ha : name = "account_id"
    · subst ha; simp [Field.name, get]
    · by_cases hi : name = "invoice_id"
      · subst hi; simp [Field.name, get]
      · simp [Field.name, Ne.symm hc, Ne.symm ha, Ne.symm hi, hc, ha, hi]

namespace Record

/-! ## What a record holds -/

/-- What a record holds under a name. -/
def field? (r : Record) (name : String) : Option Value := r.payload.lookup name

/-- What a record shows of an error, if it reports one. -/
def incidentFields (r : Record) : List (String × Value) :=
  match r.incident with
  | none => []
  | some i => i.fields ++ [("traceback", .text i.traceback)]

theorem payload_eq (r : Record) : r.payload = putAll r.body r.incidentFields := by
  unfold payload incidentFields
  cases r.incident <;> rfl

theorem lookup_body (r : Record) (name : String) : r.body.lookup name =
    (r.envelope.lookup name).or (((r.context.lookup name).map Value.text).or
      (if hiddenNames.contains name then none else r.extra.lookup name)) := by
  unfold body
  rw [lookup_append_free _ _ fun n => !hiddenNames.contains n, List.lookup_append, lookup_texts,
    Option.or_assoc]
  cases hiddenNames.contains name <;> rfl

theorem field?_eq {r : Record} (h : ∀ p ∈ r.incidentFields, p.1 ≠ name) : r.field? name =
    (r.envelope.lookup name).or (((r.context.lookup name).map Value.text).or
      (if hiddenNames.contains name then none else r.extra.lookup name)) := by
  rw [field?, payload_eq, lookup_putAll h, lookup_body]

def envelopeNames : List String := ["ts", "level", "logger", "message"]

/-- Whether a name is for a record's own fields: neither the envelope nor a context uses it, and it is not
hidden. -/
def isOwnName (name : String) : Bool :=
  !envelopeNames.contains name && (Field.ofName? name).isNone && !hiddenNames.contains name

theorem envelope_lookup_eq_none (r : Record) (h : name ∉ envelopeNames) :
    r.envelope.lookup name = none := by
  rw [List.lookup_eq_none_iff]
  intro p hp
  have hmem : p.1 ∈ r.envelope.map (·.1) := List.mem_map_of_mem hp
  have hne : name ≠ p.1 := fun heq => h (heq ▸ hmem)
  simpa using hne

/-! ## Records of a context -/

/-- Whether a record has been written at a level with a name, with the bound fields of a context and
without an error. -/
structure WrittenIn (c : Context) (r : Record) : Prop where
  context : r.context = c.bound
  incident : r.incident = none
  level : ∃ level : Level, r.level = .text level.name

namespace WrittenIn

variable {c : Context} {r : Record}

theorem field?_eq (h : r.WrittenIn c) (name : String) : r.field? name =
    (r.envelope.lookup name).or ((((Field.ofName? name).bind c.get).map Value.text).or
      (if hiddenNames.contains name then none else r.extra.lookup name)) := by
  have hnone : r.incidentFields = [] := by rw [incidentFields, h.incident]
  rw [Record.field?_eq (by simp [hnone]), h.context, Context.lookup_bound]

/-- A record has the bound fields of its context, whatever its own fields are. -/
theorem field?_name (h : r.WrittenIn c) {f : Field} {v : String} (hv : c.get f = some v) :
    r.field? f.name = some (.text v) := by
  have henvelope : r.envelope.lookup f.name = none := by cases f <;> rfl
  rw [h.field?_eq, henvelope, Context.ofName?_name, Option.bind_some, hv]
  rfl

theorem field?_own (h : r.WrittenIn c) (hname : isOwnName name = true) :
    r.field? name = r.extra.lookup name := by
  simp only [isOwnName, Bool.and_eq_true, Bool.not_eq_true', Option.isNone_iff_eq_none] at hname
  obtain ⟨⟨henvelope, hfield⟩, hhidden⟩ := hname
  rw [h.field?_eq, envelope_lookup_eq_none r (by simpa using henvelope), hfield, hhidden]
  rfl

theorem field?_unbound (h : r.WrittenIn c) {f : Field} (hv : c.get f = none) :
    r.field? f.name = r.extra.lookup f.name := by
  have henvelope : r.envelope.lookup f.name = none := by cases f <;> rfl
  have hfree : hiddenNames.contains f.name = false := by cases f <;> decide
  rw [h.field?_eq, henvelope, Context.ofName?_name, Option.bind_some, hv, hfree]
  rfl

end WrittenIn

end Record

end Invoicing.Log
