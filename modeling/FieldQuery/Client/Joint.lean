import FieldQuery.Client.Read
import FieldQuery.Client.Write
import FieldQuery.Store.Scripted

/-!
# Joint work on a store

Several clients work on one memory store at a time. Their native calls are
served one by one, in any order, and between them others may call the store or
write fields directly; nobody drops a record. A job is one operation of one
client. How far it has come is known from the answers it got so far: its
client, given these answers, asks for one call more or is at its end.
-/

namespace FieldQuery
namespace Client

open Store (RecordKey MemoryStore Call Answer Script Backend)

/-- What a client is to do. -/
inductive Work where
  | get
  | getAll
  | put (value : Value)
  | append (value : Value)
  | delete
deriving DecidableEq

/-- Whether the work is to read only. -/
def Work.reads :
    Work → Bool
  | get => true
  | getAll => true
  | _ => false

/-- One operation of one client. -/
structure Job where
  evaluator : Query.Evaluator
  config : Config
  request : Request
  work : Work

namespace Job

/-- The client of a job, with some backend. -/
def client
    {σ : Type}
    (job : Job)
    (backend : Backend σ) :
    Client σ :=
  ⟨backend, job.evaluator, job.config⟩

/-- What a client does for a job. -/
def task
    {σ : Type}
    (job : Job)
    (client : Client σ) :
    Task σ Unit :=
  match job.work with
  | .get => do
      let _ ← client.get job.request
      return ()
  | .getAll => do
      let _ ← client.getAll job.request
      return ()
  | .put value => client.put job.request value
  | .append value => client.append job.request value
  | .delete => client.delete job.request

/-- What a job comes to on a store with some backend, and the store after it. -/
def perform
    {σ : Type}
    (job : Job)
    (backend : Backend σ)
    (store : σ) :
    Except DocumentError Unit × σ :=
  let (outcome, session) := carryOut (job.task (job.client backend)) (.start store)
  (outcome, session.store)

/-- What a job comes to on a memory store where nothing else happens. -/
def alone
    (job : Job)
    (store : MemoryStore) :
    Except DocumentError Unit × MemoryStore :=
  job.perform MemoryStore.backend store

end Job

/-- A job and the answers that its calls got so far. -/
structure Ongoing where
  job : Job
  answers : List Answer

namespace Ongoing

/-- What the client of a job comes to with the answers so far and no others. -/
def replay
    (ongoing : Ongoing) :
    Except DocumentError Unit × Script :=
  ongoing.job.perform Script.backend (.start ongoing.answers)

/-- The call that a job waits for. -/
def asked?
    (ongoing : Ongoing) :
    Option Call :=
  ongoing.replay.2.asked

/-- The outcome of a job that waits for no call. -/
def outcome?
    (ongoing : Ongoing) :
    Option (Except DocumentError Unit) :=
  match ongoing.asked? with
  | some _ => none
  | none => some ongoing.replay.1

/-- A job with one answer more. -/
def answered
    (ongoing : Ongoing)
    (answer : Answer) :
    Ongoing :=
  { ongoing with answers := ongoing.answers ++ [answer] }

end Ongoing

/-- A store and the jobs on it. -/
structure World where
  store : MemoryStore
  jobs : List Ongoing

/-- What happens to a store at one time. -/
inductive Event where
  /-- The call that a job waits for is served. -/
  | call (job : Nat)
  /-- A call of someone else is served. -/
  | foreign (call : Call)
  /-- Someone writes a whole field directly. -/
  | insert (key : RecordKey) (field : String) (value : Value)

namespace World

/-- A store on which no job has been started. -/
def start
    (store : MemoryStore)
    (jobs : List Job) :
    World :=
  ⟨store, jobs.map fun job => ⟨job, []⟩⟩

/-- What one event comes to. -/
def step
    (world : World) :
    Event → World
  | .call i =>
      match world.jobs[i]? with
      | none => world
      | some ongoing =>
          match ongoing.asked? with
          | none => world
          | some call =>
              let (answer, after) := world.store.serve call
              ⟨after, world.jobs.set i (ongoing.answered answer)⟩
  | .foreign call => { world with store := (world.store.serve call).2 }
  | .insert key field value => { world with store := world.store.insert key field value }

/-- What some events one after another come to. -/
def run
    (world : World)
    (events : List Event) :
    World :=
  events.foldl step world

/-- The number of writes that one event comes to. -/
def writes
    (world : World) :
    Event → Nat
  | .call i =>
      match world.jobs[i]? with
      | none => 0
      | some ongoing =>
          match ongoing.asked? with
          | none => 0
          | some call => (world.store.serve call).1.writes
  | .foreign call => (world.store.serve call).1.writes
  | .insert .. => 1

/-- The number of writes that some events one after another come to. -/
def writesIn
    (world : World) :
    List Event → Nat
  | [] => 0
  | event :: rest => writesIn (world.step event) rest + world.writes event

/-- The outcome of a job that is at its end. -/
def outcome?
    (world : World)
    (i : Nat) :
    Option (Except DocumentError Unit) :=
  world.jobs[i]?.bind Ongoing.outcome?

end World

/-- What was done to a store as a whole. -/
inductive Deed where
  | operation (job : Job)
  | foreign (call : Call)
  | insert (key : RecordKey) (field : String) (value : Value)

/-- The store after a deed that nothing interferes with. -/
def Deed.carriedOut
    (store : MemoryStore) :
    Deed → MemoryStore
  | .operation job => (job.alone store).2
  | .foreign call => (store.serve call).2
  | .insert key field value => store.insert key field value

namespace World

/-- The deed that is completed by an event, if any is, and succeeds. -/
def deeds
    (world : World) :
    Event → List Deed
  | .call i =>
      match world.jobs[i]?, world.outcome? i, (world.step (.call i)).outcome? i with
      | some ongoing, none, some (.ok ()) => [.operation ongoing.job]
      | _, _, _ => []
  | .foreign call =>
      match (world.store.serve call).1 with
      | .applied (.ok _) => [.foreign call]
      | _ => []
  | .insert key field value => [.insert key field value]

/-- The deeds that succeed in the course of some events, in the order of their completion. -/
def history
    (world : World) :
    List Event → List Deed
  | [] => []
  | event :: rest => world.deeds event ++ history (world.step event) rest

end World
end Client
end FieldQuery
