import FieldQuery.Client.Read
import FieldQuery.Client.Write

/-!
# Courses of tasks

Whatever a client does in a session, it calls the store a few times, each
call depending on the answers before it, and comes to an outcome. The course
of a task says just that, and leaves out the statistics. A course is not tied
to a store: it can be run against any backend, so that what is known of it
holds for one store and for another.
-/

namespace FieldQuery
namespace Client

open Store (RecordKey Operation StoreError WriteOptions Fetched Backend)

variable {σ α β : Type}

/-- The calls of a task one after another, and what it comes to. -/
inductive Course (α : Type) where
  | done (outcome : Except DocumentError α)
  | fetch
      (key : RecordKey)
      (operation : Operation)
      (policy : Option Policy)
      (next : Except StoreError Fetched → Course α)
  | apply
      (key : RecordKey)
      (operation : Operation)
      (options : WriteOptions)
      (next : Except StoreError Nat → Course α)

namespace Course

/-- What a course comes to on a store, and the store after it. -/
def run
    (backend : Backend σ) :
    Course α → σ → Except DocumentError α × σ
  | done outcome, store => (outcome, store)
  | fetch key operation policy next, store =>
      let (result, after) := backend.fetch store key operation policy
      run backend (next result) after
  | apply key operation options next, store =>
      let (result, after) := backend.apply store key operation options
      run backend (next result) after

/-- A course that goes on with what another one came to. -/
def bind :
    Course α → (α → Course β) → Course β
  | done (.ok value), further => further value
  | done (.error error), _ => done (.error error)
  | fetch key operation policy next, further =>
      fetch key operation policy fun result => bind (next result) further
  | apply key operation options next, further =>
      apply key operation options fun result => bind (next result) further

/-- The read of what an operation addresses. -/
def fetching
    (request : Request)
    (operation : Operation)
    (policy : Option Policy) :
    Course Fragment :=
  fetch request.key operation policy fun result => done (received request.path result)

/-- The write of what an operation changes. -/
def sending
    (request : Request)
    (operation : Operation)
    (options : WriteOptions)
    (phase : Phase) :
    Course Unit :=
  apply request.key operation options fun result => done (written request.path phase result)

end Course

/-- What a plan selects in the part of a document that the store returned. -/
def selectIn
    (client : Client σ)
    (request : Request)
    (plan : Path.Plan)
    (part : Value) :
    Except DocumentError Selection :=
  match plan.advanced with
  | none => .ok (.single part)
  | some advanced =>
      (compiled request.path (client.evaluator.compile advanced)).map fun query =>
        .several (query.find part)

/-- The course of a read. -/
def selecting
    (client : Client σ)
    (request : Request) :
    Course (Path.Plan × Selection) :=
  (Course.done (client.plan request.path)).bind fun plan =>
    (Course.fetching request
        (Operation.get request.field plan.contexts plan.last)
        ((client.config.readPolicyFor request.policy).map Policy.forStore)).bind
      fun fragment =>
        .done ((client.selectIn request plan fragment.value).map (plan, ·))

/-- The course of a read that comes to one value. -/
def getting
    (client : Client σ)
    (request : Request) :
    Course Value :=
  (client.selecting request).bind fun (plan, selection) =>
    .done (collapse request.path plan.isLengthOnly selection)

/-- The values that a selection comes to. -/
def Selection.values :
    Selection → List Value
  | single value => [value]
  | several values => values

/-- The course of a read that comes to a list of values. -/
def gettingAll
    (client : Client σ)
    (request : Request) :
    Course (List Value) :=
  (client.selecting request).bind fun (_, selection) =>
    .done (.ok selection.values)

/-- The course of a write that reads a part of a document, changes it and writes it back. -/
def rewriting
    (client : Client σ)
    (request : Request)
    (plan : Path.Plan)
    (edit : Value → Except DocumentError Value) :
    Course Unit :=
  (Course.fetching request
      (Operation.get request.field plan.contexts plan.last)
      (client.policyForWrite request)).bind
    fun fragment =>
      (Course.done (edit fragment.value)).bind fun changed =>
        .sending request
          (Operation.put request.field plan.contexts changed plan.last)
          (client.writeBackOptions (client.policyForWrite request) fragment.generation)
          .writeBack

/-- A part of a document after an edit by the query that an advanced part is. -/
def changedBy
    (client : Client σ)
    (request : Request)
    (edit : Query → Value → Except QueryError (Value × Nat))
    (advanced : String)
    (part : Value) :
    Except DocumentError Value := do
  let query ← compiled request.path (client.evaluator.compile advanced)
  let (changed, _) ← edited request.path (edit query part)
  return changed

/-- A part of a document with a value at the end of every list that is named in it. -/
def extended
    (client : Client σ)
    (request : Request)
    (value : Value)
    (advanced : Option String)
    (part : Value) :
    Except DocumentError Value :=
  match advanced with
  | none => edited request.path (Query.appendTo value part)
  | some advanced => do
      let query ← compiled request.path (client.evaluator.compile advanced)
      let (changed, outcome) := query.append part value
      let _ ← edited request.path outcome
      return changed

/-- The course of a change. -/
def changing
    (client : Client σ)
    (request : Request)
    (operation : Path.Plan → Operation)
    (phase : Phase)
    (edit : Query → Value → Except QueryError (Value × Nat)) :
    Course Unit :=
  (Course.done (client.plan request.path)).bind fun plan =>
    match plan.advanced with
    | none => .sending request (operation plan) ⟨client.policyForWrite request, none⟩ phase
    | some advanced => client.rewriting request plan (client.changedBy request edit advanced)

/-- The course of a put. -/
def putting
    (client : Client σ)
    (request : Request)
    (value : Value) :
    Course Unit :=
  client.changing request
    (fun plan => Operation.put request.field plan.contexts value plan.last)
    .writeBack
    fun query part => query.update part value

/-- The course of an append. -/
def appending
    (client : Client σ)
    (request : Request)
    (value : Value) :
    Course Unit :=
  (Course.done (client.plan request.path)).bind fun plan =>
    client.rewriting request plan (client.extended request value plan.advanced)

/-- The course of a delete. -/
def deleting
    (client : Client σ)
    (request : Request) :
    Course Unit :=
  client.changing request
    (fun plan => Operation.delete request.field plan.contexts plan.last)
    .delete
    Query.removeAll

end Client
end FieldQuery
