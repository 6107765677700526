import Invoicing.Value

/-!
# Plain data

A document holds plain data (`Value.IsPlain`): texts, numbers and other leaves, lists, sets and mappings
of them, and lists of pairs. The keys of mappings are always leaves.
-/

namespace Invoicing.Value

/-- Whether a value is the value of a scalar. -/
def IsLeaf : Value → Prop
  | .null | .flag _ | .int _ | .real _ | .text _ | .bytes _ | .date _ | .timestamp _ => True
  | _ => False

/-- Whether a value is one that documents hold. -/
inductive IsPlain : Value → Prop
  | leaf {v : Value} (h : v.IsLeaf) : IsPlain v
  | list {xs : List Value} (h : ∀ x ∈ xs, IsPlain x) : IsPlain (.list xs)
  /-- An ordered mapping, as the list of its entries. -/
  | pairs {ps : List (Value × Value)} (hkeys : ∀ p ∈ ps, IsPlain p.1)
    (hvalues : ∀ p ∈ ps, IsPlain p.2) : IsPlain (.list (ps.map fun p => .tuple [p.1, p.2]))
  | set {xs : List Value} (h : ∀ x ∈ xs, x.IsLeaf) : IsPlain (.set xs)
  | mapping {entries : List (Value × Value)} (hkeys : ∀ e ∈ entries, e.1.IsLeaf)
    (hvalues : ∀ e ∈ entries, IsPlain e.2) : IsPlain (.mapping entries)

theorem IsPlain.isLeaf_key {entries : List (Value × Value)} (h : (Value.mapping entries).IsPlain)
    {e : Value × Value} (he : e ∈ entries) : e.1.IsLeaf := by
  cases h with
  | leaf h => exact h.elim
  | mapping hkeys => exact hkeys e he

theorem IsPlain.isPlain_value {entries : List (Value × Value)} (h : (Value.mapping entries).IsPlain)
    {e : Value × Value} (he : e ∈ entries) : e.2.IsPlain := by
  cases h with
  | leaf h => exact h.elim
  | mapping _ hvalues => exact hvalues e he

end Invoicing.Value
