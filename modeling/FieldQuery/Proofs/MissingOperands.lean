import Mathlib.Control.Monad.Basic
import Mathlib.Tactic.Tauto
import FieldQuery.Query.Compiled

/-!
# Comparisons with a missing operand

The operands of a comparison are paths and literals. A literal is never
missing, and a path is missing at a node that it leads nowhere from. Two
missing operands are equal to each other, and a missing operand is equal to
nothing else. It has no order to anything. So the comparisons that come down to
the order fail, and those that equality satisfies hold of two missing operands.
-/

namespace FieldQuery
namespace Query

section Operands

variable {left right : Option Value}

/-- Where an operand is missing, both are equal exactly if both are missing. -/
theorem equalOperands_of_none
    (h : left = none ∨ right = none) :
    equalOperands left right = true ↔ left = none ∧ right = none := by
  rcases h with rfl | rfl
  · cases right <;> simp [equalOperands]
  · cases left <;> simp [equalOperands]

/-- A missing operand has no order to the other one. -/
theorem operandOrder_of_none
    (h : left = none ∨ right = none) :
    operandOrder left right = none := by
  rcases h with rfl | rfl
  · rfl
  · unfold operandOrder
    split <;> simp_all

end Operands

namespace Filter

/-- Whether a filter is a path or a literal. -/
def IsOperand :
    Filter → Prop
  | relative _ => True
  | literal _ => True
  | _ => False

/-- Whether a filter is a path that leads nowhere from a node. -/
inductive Missing (node : Value) : Filter → Prop where
  | path
      {path : List Accessor}
      (h : Accessor.follow? path node = none) :
      Missing node (relative path)

/-- A path or a literal has a value as an operand exactly if it is not missing. -/
theorem operand?_eq_none_iff
    {filter : Filter}
    {node : Value}
    (h : filter.IsOperand) :
    filter.operand? node = none ↔ Missing node filter := by
  constructor
  · intro hnone
    cases filter with
    | relative path => exact .path hnone
    | literal value => cases hnone
    | _ => cases h
  · rintro ⟨hpath⟩
    exact hpath

/--
What each comparison of two paths or literals gives at a node where one of them
is missing. Equality holds exactly if both are missing and its negation exactly
if one is. An order never holds by itself, and joined to equality it holds where
equality does.
-/
theorem holds_compare_of_missing
    {left right : Filter}
    {node : Value}
    (hleft : left.IsOperand)
    (hright : right.IsOperand)
    (hmissing : Missing node left ∨ Missing node right) :
    ((compare left .equal right).holds node = true ↔
        Missing node left ∧ Missing node right) ∧
      ((compare left .notEqual right).holds node = true ↔
        Missing node left ∧ ¬ Missing node right ∨ ¬ Missing node left ∧ Missing node right) ∧
      (compare left .less right).holds node = false ∧
      (compare left .greater right).holds node = false ∧
      ((compare left .lessOrEqual right).holds node = true ↔
        Missing node left ∧ Missing node right) ∧
      ((compare left .greaterOrEqual right).holds node = true ↔
        Missing node left ∧ Missing node right) := by
  have hnone : left.operand? node = none ∨ right.operand? node = none := by
    rwa [operand?_eq_none_iff hleft, operand?_eq_none_iff hright]
  have hequal : equalOperands (left.operand? node) (right.operand? node) = true ↔
      Missing node left ∧ Missing node right := by
    rw [equalOperands_of_none hnone, operand?_eq_none_iff hleft, operand?_eq_none_iff hright]
  have horder := operandOrder_of_none hnone
  refine ⟨hequal, ?_, ?_, ?_, ?_, ?_⟩
  · rw [holds, Comparison.holds, Bool.not_eq_true', ← Bool.not_eq_true, hequal]
    tauto
  · simp [holds, Comparison.holds, horder]
  · simp [holds, Comparison.holds, horder]
  · simpa [holds, Comparison.holds, horder] using hequal
  · simpa [holds, Comparison.holds, horder] using hequal

/-- A path into a map that lacks the name, compared with a null that is there. -/
theorem holds_compare_of_missing_null :
    IsOperand (relative [.key "a", .index (-1)]) ∧
      IsOperand (literal .null) ∧
      Missing (.map [("b", .null)]) (relative [.key "a", .index (-1)]) ∧
      (compare (relative [.key "a", .index (-1)]) .notEqual (literal .null)).holds
        (.map [("b", .null)]) = true := by
  have hleft : IsOperand (relative [.key "a", .index (-1)]) := trivial
  have hright : IsOperand (literal .null) := trivial
  have hmissing : Missing (.map [("b", .null)]) (relative [.key "a", .index (-1)]) := .path rfl
  have hpresent : ¬ Missing (.map [("b", .null)]) (literal .null) := by
    rintro ⟨⟩
  have hcompare := holds_compare_of_missing hleft hright (Or.inl hmissing)
  exact ⟨hleft, hright, hmissing, hcompare.2.1.2 (Or.inl ⟨hmissing, hpresent⟩)⟩

/-- A filter for what is at most another keeps a node that lacks both. -/
theorem holds_lessOrEqual_of_missing :
    Query.compile "$[?@.a<=@.b]" =
        .ok ⟨⟨[.filter (compare (relative [.key "a"]) .lessOrEqual (relative [.key "b"]))], none⟩,
          "$[?@.a<=@.b]"⟩ ∧
      Missing (.map []) (relative [.key "a"]) ∧
      Missing (.map []) (relative [.key "b"]) ∧
      (compare (relative [.key "a"]) .lessOrEqual (relative [.key "b"])).holds (.map []) = true := by
  have htokens : Token.ofText "$[?@.a<=@.b]" =
      .ok [.root, .openBracket, .question, .current, .dot, .name "a", .comparison .lessOrEqual,
        .current, .dot, .name "b", .closeBracket, .endOfInput] := by
    decide +kernel
  refine ⟨?_, .path rfl, .path rfl, rfl⟩
  rw [Query.compile, htokens]
  cbv

end Filter
end Query
end FieldQuery
