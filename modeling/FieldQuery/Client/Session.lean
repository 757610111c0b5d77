import FieldQuery.Config
import FieldQuery.Path.Plan
import FieldQuery.Store.Backend

/-!
# Client sessions

A client carries out operations on documents that are stored as fields of
records. It is made of a store backend, an evaluator and a configuration; in
the course of its operations the state of the store and the client's own
statistics change. The failure of a native call becomes a document error,
which depends on what the call was for.
-/

namespace FieldQuery

/-- A client of a store whose state is `σ`. -/
structure Client (σ : Type) where
  backend : Store.Backend σ
  evaluator : Query.Evaluator
  config : Config

namespace Client

open Store (RecordKey Operation StoreError Fetched WriteOptions)

/-- Counts of what a client did. -/
structure Statistics where
  /-- Operations, whatever their outcome. -/
  operations : Nat
  /-- Native reads. -/
  fetches : Nat
  /-- Native writes. -/
  writes : Nat
  /-- Queries compiled for evaluation on what the store returned. -/
  evaluations : Nat
  /-- Operations that failed. -/
  failures : Nat
deriving DecidableEq

/-- Nothing done yet. -/
def Statistics.zero : Statistics :=
  ⟨0, 0, 0, 0, 0⟩

/-- One operation more, which may have failed. -/
def Statistics.operation
    (statistics : Statistics)
    (succeeded : Bool) :
    Statistics :=
  { statistics with
    operations := statistics.operations + 1
    failures := statistics.failures + if succeeded then 0 else 1 }

/-- What changes while a client works. -/
structure Session (σ : Type) where
  store : σ
  statistics : Statistics

/-- A session that starts with a store. -/
def Session.start
    {σ : Type}
    (store : σ) :
    Session σ :=
  ⟨store, .zero⟩

/-- What a client does in a session: it changes it, and succeeds or fails. -/
abbrev Task
    (σ : Type) :=
  ExceptT DocumentError (StateM (Session σ))

/-- What a task comes to in a session, and the session after it. -/
def carryOut
    {σ α : Type}
    (task : Task σ α)
    (session : Session σ) :
    Except DocumentError α × Session σ :=
  Id.run (StateT.run (ExceptT.run task) session)

/-- A client of a memory store that accepts every query. -/
def inMemory
    (config : Config) :
    Client Store.MemoryStore :=
  ⟨Store.MemoryStore.backend, .full, config⟩

/-- What a native call was for. -/
inductive Phase where
  | fetch
  | writeBack
  | delete
deriving DecidableEq

/-- The document error that a failed native call comes to. -/
def translate
    (path : String)
    (phase : Phase) :
    StoreError → DocumentError
  | .generationMismatch .. => .conflict path
  | .unavailable detail => .store path detail
  | .typeMismatch _ | .invalidAccessShape _ | .notApplicable _ | .recordNotFound =>
      match phase with
      | .fetch => .objectNotFound path
      | .delete => .objectNotFound path
      | .writeBack => .writeNotApplicable path

/-- The document error that a failed change of a fetched document comes to. -/
def translateEdit
    (path : String)
    (_error : QueryError) :
    DocumentError :=
  .writeNotApplicable path

/-- What an operation is about, and the policy that its caller gave. -/
structure Request where
  key : RecordKey
  field : String
  path : String
  policy : Option Policy
deriving DecidableEq

/-- A part of a document as the store returned it, and the record's generation. -/
structure Fragment where
  value : Value
  generation : Nat
deriving DecidableEq

/-- What a native read comes to; the value must not be absent. -/
def received
    (path : String) :
    Except StoreError Fetched → Except DocumentError Fragment
  | .ok fetched =>
      match fetched.value with
      | some value => .ok ⟨value, fetched.generation⟩
      | none => .error (.objectNotFound path)
  | .error error => .error (translate path .fetch error)

/-- What a native write comes to. -/
def written
    (path : String)
    (phase : Phase) :
    Except StoreError Nat → Except DocumentError Unit
  | .ok _ => .ok ()
  | .error error => .error (translate path phase error)

/-- The advanced part of a path that was compiled by itself. -/
def compiled
    (path : String) :
    Except QueryError Query → Except DocumentError Query
  | .ok query => .ok query
  | .error _ => .error (.malformedPath path)

variable {σ : Type}

/-- Changes the statistics. -/
def count
    (change : Statistics → Statistics) :
    Task σ Unit :=
  modify fun session => { session with statistics := change session.statistics }

/-- The plan of a path. It needs no call of the store. -/
def plan
    (client : Client σ)
    (path : String) :
    Except DocumentError Path.Plan :=
  Path.Plan.compile client.evaluator path

/-- Reads what an operation addresses, which must not be absent. -/
def fetch
    (client : Client σ)
    (request : Request)
    (operation : Operation)
    (policy : Option Policy) :
    Task σ Fragment := do
  count fun s => { s with fetches := s.fetches + 1 }
  let session ← get
  let (result, store) := client.backend.fetch session.store request.key operation policy
  set { session with store := store }
  received request.path result

/-- Carries out an operation that writes. -/
def send
    (client : Client σ)
    (request : Request)
    (operation : Operation)
    (options : WriteOptions)
    (phase : Phase) :
    Task σ Unit := do
  count fun s => { s with writes := s.writes + 1 }
  let session ← get
  let (result, store) := client.backend.apply session.store request.key operation options
  set { session with store := store }
  written request.path phase result

/-- Compiles the advanced part of a path. -/
def compileAdvanced
    (client : Client σ)
    (request : Request)
    (advanced : String) :
    Task σ Query := do
  count fun s => { s with evaluations := s.evaluations + 1 }
  compiled request.path (client.evaluator.compile advanced)

/-- The options of a write-back of a fragment that was read at a generation. -/
def writeBackOptions
    (client : Client σ)
    (policy : Option Policy)
    (generation : Nat) :
    WriteOptions :=
  ⟨policy, if client.config.generationCheck then some generation else none⟩

/-- Counts an operation, and its failure if it fails. -/
def counted
    {α : Type}
    (task : Task σ α) :
    Task σ α :=
  ExceptT.mk do
    let outcome ← task.run
    modify fun session =>
      { session with statistics := session.statistics.operation outcome.toOption.isSome }
    return outcome

end Client
end FieldQuery
