import FieldQuery.Client.Session
import FieldQuery.Query.Matching

/-!
# Reading documents

A read makes one native call. If the path is plain, what the store returns is
the answer; otherwise the advanced part is evaluated on it.
-/

namespace FieldQuery
namespace Client

variable {σ : Type}

/-- What a path selects. -/
inductive Selection where
  /-- The value that a plain path names. -/
  | single (value : Value)
  /-- The values that an advanced path yields. -/
  | several (values : List Value)
deriving DecidableEq

/-- Reads what a path selects, with the plan of the path. -/
def select
    (client : Client σ)
    (request : Request) :
    Task σ (Path.Plan × Selection) := do
  let plan ← client.plan request.path
  let policy := (client.config.readPolicyFor request.policy).map Policy.forStore
  let operation := Store.Operation.get request.field plan.contexts plan.last
  let fragment ← client.fetch request operation policy
  match plan.advanced with
  | none => return (plan, .single fragment.value)
  | some advanced =>
      let query ← client.compileAdvanced request advanced
      return (plan, .several (query.find fragment.value))

/--
The one value that a selection comes to: a single match is itself, and
several are a list. A length is the first match, of which there must be one.
-/
def collapse
    (path : String)
    (lengthOnly : Bool) :
    Selection → Except DocumentError Value
  | .single value => .ok value
  | .several values =>
      if lengthOnly then
        match values with
        | value :: _ => .ok value
        | [] => .error (.objectNotFound path)
      else
        match values with
        | [value] => .ok value
        | _ => .ok (.list values)

/-- Reads what a path selects as one value. -/
def get
    (client : Client σ)
    (request : Request) :
    Task σ Value :=
  counted do
    let (plan, selection) ← client.select request
    collapse request.path plan.isLengthOnly selection

/-- Reads what a path selects as a list of values. -/
def getAll
    (client : Client σ)
    (request : Request) :
    Task σ (List Value) :=
  counted do
    let (_, selection) ← client.select request
    match selection with
    | .single value => return [value]
    | .several values => return values

end Client
end FieldQuery
