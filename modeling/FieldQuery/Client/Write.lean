import FieldQuery.Client.Session
import FieldQuery.Query.Edit

/-!
# Writing documents

A plain put or delete is one native write. Everything else reads the part of
the document that the plain part of the path names, changes it in memory and
writes it back to where it was read.
-/

namespace FieldQuery
namespace Client

open Store (Operation)

variable {σ : Type}

/-- Takes the result of a change, or fails because it cannot be applied. -/
def edited
    {α : Type}
    (path : String) :
    Except QueryError α → Except DocumentError α
  | .ok result => .ok result
  | .error error => .error (translateEdit path error)

/-- The policy that the store is given for a write and the read before it. -/
def policyForWrite
    (client : Client σ)
    (request : Request) :
    Option Policy :=
  (client.config.writePolicyFor request.policy).map Policy.forStore

/-- Reads the part of a document that a plan leads to, in order to change it. -/
def fetchForWrite
    (client : Client σ)
    (request : Request)
    (plan : Path.Plan) :
    Task σ Fragment :=
  client.fetch request
    (Operation.get request.field plan.contexts plan.last)
    (client.policyForWrite request)

/-- Writes a changed part of a document back to where it was read. -/
def writeBack
    (client : Client σ)
    (request : Request)
    (plan : Path.Plan)
    (generation : Nat)
    (value : Value) :
    Task σ Unit :=
  client.send request
    (Operation.put request.field plan.contexts value plan.last)
    (client.writeBackOptions (client.policyForWrite request) generation)
    .writeBack

/--
Changes what a path names: by one native write if the path is plain, and by an
edit of the part that its plain part names if it is not.
-/
def change
    (client : Client σ)
    (request : Request)
    (operation : Path.Plan → Operation)
    (phase : Phase)
    (edit : Query → Value → Except QueryError (Value × Nat)) :
    Task σ Unit :=
  counted do
    let plan ← client.plan request.path
    match plan.advanced with
    | none =>
        client.send request (operation plan) ⟨client.policyForWrite request, none⟩ phase
    | some advanced =>
        let fragment ← client.fetchForWrite request plan
        let query ← client.compileAdvanced request advanced
        let (changed, _) ← edited request.path (edit query fragment.value)
        client.writeBack request plan fragment.generation changed

/-- Puts a value at every place that a path names. -/
def put
    (client : Client σ)
    (request : Request)
    (value : Value) :
    Task σ Unit :=
  client.change request
    (fun plan => Operation.put request.field plan.contexts value plan.last)
    .writeBack
    fun query part => query.update part value

/-- Adds a value at the end of every list that a path names. -/
def append
    (client : Client σ)
    (request : Request)
    (value : Value) :
    Task σ Unit :=
  counted do
    let plan ← client.plan request.path
    let fragment ← client.fetchForWrite request plan
    match plan.advanced with
    | none =>
        let changed ← edited request.path (Query.appendTo value fragment.value)
        client.writeBack request plan fragment.generation changed
    | some advanced =>
        let query ← client.compileAdvanced request advanced
        let (changed, outcome) := query.append fragment.value value
        let _ ← edited request.path outcome
        client.writeBack request plan fragment.generation changed

/-- Deletes every place that a path names. -/
def delete
    (client : Client σ)
    (request : Request) :
    Task σ Unit :=
  client.change request
    (fun plan => Operation.delete request.field plan.contexts plan.last)
    .delete
    Query.removeAll

end Client
end FieldQuery
