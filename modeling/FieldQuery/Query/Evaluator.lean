import FieldQuery.Query.Compiled

/-!
# Evaluators

An evaluator decides which texts are queries. Beside the one that accepts
every query, there is a strict one that refuses a query whose first segment
is a bracket; paths may be accepted by it whose advanced part is not.
-/

namespace FieldQuery
namespace Query

/-- What decides whether a text is a query, and which one. -/
structure Evaluator where
  compile : String → Except QueryError Query

namespace Evaluator

/-- The evaluator that accepts every query. -/
def full : Evaluator :=
  ⟨Query.compile⟩

/-- The evaluator that refuses a query whose first segment is a bracket. -/
def noLeadingBracket : Evaluator where
  compile text :=
    match text.toList with
    | '$' :: '[' :: _ => .error (.malformed text .bracketFirst 1)
    | _ => Query.compile text

end Evaluator
end Query
end FieldQuery
