import FieldQuery.DocumentError
import FieldQuery.Path.Division
import FieldQuery.Path.Step
import FieldQuery.Query.Evaluator

/-!
# Access plans

A plan says how a path is carried out: the collections to descend into, the
last step that the store takes by itself, and the query that is evaluated on
what the store returns, if the path has an advanced part.
-/

namespace FieldQuery
namespace Path

/-- How a path is carried out. -/
structure Plan where
  /-- The path as the caller gave it. -/
  path : String
  /-- The plain part and the advanced part. -/
  division : Division
  /-- The collections to descend into before the last step. -/
  contexts : List Accessor
  /-- The step that the store takes in the innermost collection. -/
  last : Step
deriving DecidableEq

/-- A path that an evaluator accepts, or the error that it is not one. -/
def validate
    (evaluator : Query.Evaluator)
    (path : String) :
    Except DocumentError Unit :=
  if path.toList.head? = some '$' then
    match evaluator.compile path with
    | .ok _ => .ok ()
    | .error _ => .error (.malformedPath path)
  else
    .error (.missingRoot path)

namespace Plan

/-- The contexts and the last step that some steps come to. -/
def endpoints
    (steps : List Step) :
    List Accessor × Step :=
  (Step.accessors steps.dropLast, steps.getLast?.getD .root)

/-- The plan of a path. -/
def compile
    (evaluator : Query.Evaluator)
    (path : String) :
    Except DocumentError Plan :=
  match validate evaluator path with
  | .error error => .error error
  | .ok () =>
      let division := Division.ofText path
      match Step.ofText? division.plain with
      | none => .error (.malformedPath division.plain)
      | some steps =>
          let (contexts, last) := endpoints steps
          .ok ⟨path, division, contexts, last⟩

/-- The query on what the store returns, if there is one. -/
def advanced
    (plan : Plan) :
    Option String :=
  plan.division.advanced

/-- Whether a plan has a query to evaluate. -/
def isAdvanced
    (plan : Plan) :
    Bool :=
  plan.advanced.isSome

/-- Whether the query of a plan is nothing but a call of `length()`. -/
def isLengthOnly
    (plan : Plan) :
    Bool :=
  plan.division.isLengthOnly

/-- A plan in one line. -/
def text
    (plan : Plan) :
    String :=
  let contexts :=
    if plan.contexts.isEmpty then
      "-"
    else
      Accessor.descents plan.contexts
  let query :=
    match plan.advanced with
    | none => ""
    | some advanced => " | " ++ advanced
  plan.path ++ " => " ++ contexts ++ " / " ++ plan.last.text ++ query

end Plan
end Path
end FieldQuery
