import FieldQuery.Client.Calls

/-!
# A client with a store of its own

One client works on a memory store. Others may insert and remove records
directly in the meantime, but no one else makes a native call. Both the client
and the store count what is done; the log of the operations says what these
counts have to account for.
-/

namespace FieldQuery
namespace Client

open Store (RecordKey MemoryStore Fetched)

/-- What happens at one time to a client that has a store of its own. -/
inductive Happening where
  /-- The client carries out an operation. -/
  | operation (request : Request) (work : Work)
  /-- The client plans a path. -/
  | planning (path : String)
  /-- Someone writes a whole field directly. -/
  | insertion (key : RecordKey) (field : String) (value : Value)
  /-- Someone drops a record. -/
  | removal (key : RecordKey)

/-- An operation that was carried out, and the sessions before and after it. -/
structure Entry where
  job : Job
  before : Session MemoryStore
  outcome : Except DocumentError Unit
  after : Session MemoryStore

/-- Changes the store of a session directly. -/
def Session.withStore
    {σ : Type}
    (session : Session σ)
    (change : σ → σ) :
    Session σ :=
  { session with store := change session.store }

section Happenings

variable (client : Client MemoryStore)

/-- The job that an operation of a client is. -/
def job
    (request : Request)
    (work : Work) :
    Job :=
  ⟨client.evaluator, client.config, request, work⟩

/-- The session after something has happened. -/
def afterOne
    (session : Session MemoryStore) :
    Happening → Session MemoryStore
  | .operation request work => (carryOut ((client.job request work).task client) session).2
  | .planning path => (carryOut (liftM (client.plan path) : Task MemoryStore Path.Plan) session).2
  | .insertion key field value => session.withStore fun store => store.insert key field value
  | .removal key => session.withStore fun store => store.remove key

/-- The session after some things have happened one after another. -/
def afterAll
    (session : Session MemoryStore)
    (happenings : List Happening) :
    Session MemoryStore :=
  happenings.foldl client.afterOne session

/-- The operation that something that happens is, if it is one. -/
def entries
    (session : Session MemoryStore) :
    Happening → List Entry
  | .operation request work =>
      let job := client.job request work
      let (outcome, after) := carryOut (job.task client) session
      [⟨job, session, outcome, after⟩]
  | _ => []

/-- The operations among some things that happen one after another. -/
def log
    (session : Session MemoryStore) :
    List Happening → List Entry
  | [] => []
  | happening :: rest =>
      client.entries session happening ++ log (client.afterOne session happening) rest

end Happenings

namespace Job

/-- Whether the path of a job has an advanced part, and the store has a value to evaluate it on. -/
def evaluates
    (job : Job)
    (store : MemoryStore) :
    Bool :=
  match Path.Plan.compile job.evaluator job.request.path with
  | .ok plan =>
      plan.isAdvanced &&
        ((store.read job.request.key (job.fetching plan)).toOption.bind Fetched.value).isSome
  | .error _ => false

/-- The native calls of a job that succeeds: one for a read and for a plain put or delete. -/
def roundTrips
    (job : Job)
    (plan : Path.Plan) :
    Nat :=
  match job.work, plan.advanced with
  | .get, _ => 1
  | .getAll, _ => 1
  | .put _, none => 1
  | .delete, none => 1
  | _, _ => 2

end Job

/-- Whether an operation failed. -/
def Entry.failed
    (entry : Entry) :
    Bool :=
  entry.outcome.toOption.isNone

/-- Whether an operation had a value to evaluate the advanced part of its path on. -/
def Entry.evaluated
    (entry : Entry) :
    Bool :=
  entry.job.evaluates entry.before.store

/-- The native calls that a client has made. -/
def Statistics.nativeCalls
    (statistics : Statistics) :
    Nat :=
  statistics.fetches + statistics.writes

end Client
end FieldQuery
