import FieldQuery.Client.Joint
import FieldQuery.Store.Recorded

/-!
# Native calls of a job

What a store sees of a job is a list of calls. A job that reads makes one; a
job that writes what it was given makes one, too. Every other job fetches a
part of a document, changes it in memory and writes it back to where it was
fetched. All calls of a job carry the same policy. The operations of the calls
are given here one by one, for each step that a plain path can end with.
-/

namespace FieldQuery
namespace Client

open Store (Operation StoreError Fetched Call Backend)

/--
Two operations of which the one writes a value where the other one reads: to
the same field, or in the same contexts of it under the same key or index.
-/
inductive WritesWhere
    (value : Value) :
    Operation → Operation → Prop where
  | field
      (field : String) :
      WritesWhere value (.readField field) (.writeField field value)
  | key
      (field : String)
      (contexts : List Accessor)
      (key : String) :
      WritesWhere value (.act field contexts (.getByKey key))
        (.act field contexts (.setByKey key value))
  | index
      (field : String)
      (contexts : List Accessor)
      (index : Int) :
      WritesWhere value (.act field contexts (.getByIndex index))
        (.act field contexts (.setByIndex index value))

namespace Job

/-- The native calls of a job on a store, in the order in which they are made. -/
def calls
    {σ : Type}
    (job : Job)
    (backend : Backend σ)
    (store : σ) :
    List Call :=
  (job.perform backend.recorded (.start store)).2.calls.reverse

/--
The options for the store: those of the caller's policy, or else of the
default policy for what is to be done.
-/
def policy
    (job : Job) :
    Option Policy :=
  let chosen :=
    match job.request.policy with
    | some policy => some policy
    | none => if job.work.reads then job.config.readPolicy else job.config.writePolicy
  chosen.map Policy.forStore

/-- The read of what the plain part of a path names. -/
def fetching
    (job : Job)
    (plan : Path.Plan) :
    Operation :=
  match plan.last with
  | .root => .readField job.request.field
  | .access (.key key) => .act job.request.field plan.contexts (.getByKey key)
  | .access (.index index) => .act job.request.field plan.contexts (.getByIndex index)

/-- The write of a value to what the plain part of a path names. -/
def writing
    (job : Job)
    (plan : Path.Plan)
    (value : Value) :
    Operation :=
  match plan.last with
  | .root => .writeField job.request.field value
  | .access (.key key) => .act job.request.field plan.contexts (.setByKey key value)
  | .access (.index index) => .act job.request.field plan.contexts (.setByIndex index value)

/-- The removal of what the plain part of a path names; of the root, an empty map is left. -/
def clearing
    (job : Job)
    (plan : Path.Plan) :
    Operation :=
  match plan.last with
  | .root => .writeField job.request.field (.map [])
  | .access (.key key) => .act job.request.field plan.contexts (.removeByKey key)
  | .access (.index index) => .act job.request.field plan.contexts (.popByIndex index)

/-- The write that a put or a delete on a plain path comes to. -/
def direct?
    (job : Job)
    (plan : Path.Plan) :
    Option Operation :=
  match plan.advanced, job.work with
  | none, .put value => some (job.writing plan value)
  | none, .delete => some (job.clearing plan)
  | _, _ => none

/-- What a job makes of the part of a document that it fetched, if it succeeds. -/
def changed?
    (job : Job)
    (plan : Path.Plan)
    (part : Value) :
    Option Value :=
  match plan.advanced with
  | none =>
      match job.work with
      | .append value => (Query.appendTo value part).toOption
      | _ => none
  | some advanced =>
      (job.evaluator.compile advanced).toOption.bind fun query =>
        match job.work with
        | .put value => (query.update part value).toOption.map Prod.fst
        | .append value =>
            let (changed, outcome) := query.append part value
            outcome.toOption.map fun _ => changed
        | .delete => (query.removeAll part).toOption.map Prod.fst
        | _ => none

/-- The write that follows a fetch, if it returned a value that could be changed. -/
def writeBack?
    (job : Job)
    (plan : Path.Plan) :
    Except StoreError Fetched → Option Call
  | .ok ⟨some part, generation⟩ =>
      (job.changed? plan part).map fun changed =>
        .apply job.request.key (job.writing plan changed)
          ⟨job.policy, if job.config.generationCheck then some generation else none⟩
  | _ => none

end Job
end Client
end FieldQuery
