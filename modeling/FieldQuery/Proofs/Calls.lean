import Mathlib.Control.Monad.Basic
import FieldQuery.Client.Calls
import FieldQuery.Proofs.Refusals

/-!
# Calls and courses

The record of a store that a course was run on is the record from before with
the calls of the course on top. So the native calls of a job are the calls of
its course, whatever the store answers: none without a plan, one for a read and
for a plain put or delete, and otherwise one fetch with at most one write
behind it. The write is there just when the fetch returned a value that could
be changed.
-/

namespace FieldQuery
namespace Client

open Store (MemoryStore RecordKey Operation StoreError WriteOptions Fetched Call Backend Recorded)

variable {σ τ α β : Type}

namespace Course

/-- The calls that a course makes of a store, in the order in which they are made. -/
def calls
    (backend : Backend σ) :
    Course α → σ → List Call
  | done _, _ => []
  | fetch key operation policy next, store =>
      let (result, after) := backend.fetch store key operation policy
      .fetch key operation policy :: calls backend (next result) after
  | apply key operation options next, store =>
      let (result, after) := backend.apply store key operation options
      .apply key operation options :: calls backend (next result) after

/-- A record grows by the calls of the course that is run. -/
theorem recorded_run
    (backend : Backend σ)
    (course : Course α)
    (recorded : Recorded σ) :
    (course.run backend.recorded recorded).2.calls =
      (course.calls backend recorded.store).reverse ++ recorded.calls := by
  induction course generalizing recorded with
  | done outcome => rfl
  | fetch key operation policy next ih =>
      rw [run, calls, List.reverse_cons, List.append_assoc]
      exact ih _ _
  | apply key operation options next ih =>
      rw [run, calls, List.reverse_cons, List.append_assoc]
      exact ih _ _

variable {backend : Backend σ}

/-- What is done with the value of a course adds no calls, if it makes none. -/
theorem calls_bind_of_done
    {further : α → Course β}
    (h : ∀ value, ∃ outcome, further value = done outcome)
    (course : Course α)
    (store : σ) :
    (course.bind further).calls backend store = course.calls backend store := by
  induction course generalizing store with
  | done outcome =>
      cases outcome with
      | error error => rfl
      | ok value =>
          obtain ⟨outcome, hdone⟩ := h value
          rw [bind, hdone]
          rfl
  | fetch key operation policy next ih =>
      simp only [bind, calls, ih]
  | apply key operation options next ih =>
      simp only [bind, calls, ih]

/-- A single write is a single call, whatever it comes to. -/
theorem calls_sending
    (request : Request)
    (operation : Operation)
    (options : WriteOptions)
    (phase : Phase)
    (store : σ) :
    (sending request operation options phase).calls backend store =
      [.apply request.key operation options] := by
  rfl

end Course

section Operations

variable (client : Client τ)
variable (request : Request)
variable {plan : Path.Plan}
variable (backend : Backend σ)
variable (store : σ)

/-- A read is one call. -/
theorem calls_selecting
    (hplan : client.plan request.path = .ok plan) :
    (client.selecting request).calls backend store =
      [.fetch request.key (Operation.get request.field plan.contexts plan.last)
        ((client.config.readPolicyFor request.policy).map Policy.forStore)] := by
  rw [selecting, hplan, Course.bind, Course.calls_bind_of_done fun _ => ⟨_, rfl⟩]
  rfl

/-- A write-back is one read, and one write behind it if the edit succeeds on what was read. -/
theorem calls_rewriting
    (plan : Path.Plan)
    (edit : Value → Except DocumentError Value) :
    (client.rewriting request plan edit).calls backend store =
      .fetch request.key (Operation.get request.field plan.contexts plan.last)
          (client.policyForWrite request) ::
        match (backend.fetch store request.key
          (Operation.get request.field plan.contexts plan.last)
          (client.policyForWrite request)).1 with
        | .ok ⟨some part, generation⟩ =>
            ((edit part).toOption.map fun changed =>
              Call.apply request.key
                (Operation.put request.field plan.contexts changed plan.last)
                (client.writeBackOptions (client.policyForWrite request) generation)).toList
        | _ => [] := by
  rw [rewriting, Course.fetching, Course.bind, Course.calls]
  rcases backend.fetch store request.key
    (Operation.get request.field plan.contexts plan.last)
    (client.policyForWrite request) with ⟨result, after⟩
  dsimp only
  congr 1
  cases result with
  | error error => rfl
  | ok fetched =>
      obtain ⟨value, generation⟩ := fetched
      cases value with
      | none => rfl
      | some part =>
          simp only [received, Course.bind]
          cases edit part with
          | error error => rfl
          | ok changed => rfl

end Operations

section Edits

theorem toOption_bind
    (outcome : Except DocumentError α)
    (further : α → Except DocumentError β) :
    (outcome >>= further).toOption =
      outcome.toOption.bind fun value => (further value).toOption := by
  cases outcome <;> rfl

theorem toOption_compiled
    (path : String)
    (outcome : Except QueryError Query) :
    (compiled path outcome).toOption = outcome.toOption := by
  cases outcome <;> rfl

theorem toOption_edited
    (path : String)
    (outcome : Except QueryError α) :
    (edited path outcome).toOption = outcome.toOption := by
  cases outcome <;> rfl

end Edits

namespace Job

variable (job : Job)
variable {plan : Path.Plan}

theorem policy_of_reads
    (h : job.work.reads = true) :
    ((job.client MemoryStore.backend).config.readPolicyFor job.request.policy).map
      Policy.forStore = job.policy := by
  rw [client, policy, Config.readPolicyFor, h]
  cases job.request.policy <;> rfl

theorem policy_of_writes
    (h : job.work.reads = false) :
    (job.client MemoryStore.backend).policyForWrite job.request = job.policy := by
  rw [policyForWrite, client, policy, Config.writePolicyFor, h]
  cases job.request.policy <;> rfl

/-- What an edit by a query writes back is what it changed the part to. -/
theorem toOption_changedBy
    (edit : Query → Value → Except QueryError (Value × Nat))
    (advanced : String)
    (part : Value) :
    ((job.client MemoryStore.backend).changedBy job.request edit advanced part).toOption =
      (job.evaluator.compile advanced).toOption.bind fun query =>
        (edit query part).toOption.map Prod.fst := by
  simp only [changedBy, toOption_bind, toOption_compiled, toOption_edited]
  congr 1
  funext query
  cases edit query part <;> rfl

/-- What an append writes back is what it changed the part to. -/
theorem toOption_extended
    {value : Value}
    (hwork : job.work = .append value)
    (part : Value) :
    ((job.client MemoryStore.backend).extended job.request value plan.advanced part).toOption =
      job.changed? plan part := by
  cases hadvanced : plan.advanced with
  | none =>
      simp only [extended, changed?, hwork, hadvanced, toOption_edited]
  | some advanced =>
      simp only [extended, changed?, hwork, hadvanced, toOption_bind, toOption_compiled]
      congr 1
      funext query
      simp only [toOption_edited]
      cases (query.append part value).2 <;> rfl

/-- The operations of a job are those that its client builds. -/
theorem get_eq_fetching :
    Operation.get job.request.field plan.contexts plan.last = job.fetching plan := by
  rfl

theorem put_eq_writing
    (value : Value) :
    Operation.put job.request.field plan.contexts value plan.last = job.writing plan value := by
  rfl

theorem delete_eq_clearing :
    Operation.delete job.request.field plan.contexts plan.last = job.clearing plan := by
  rfl

/-- A job writes where it fetched. -/
theorem writesWhere_fetching
    (plan : Path.Plan)
    (value : Value) :
    WritesWhere value (job.fetching plan) (job.writing plan value) := by
  rw [fetching, writing]
  cases plan.last with
  | root => exact .field _
  | access accessor =>
      cases accessor with
      | key key => exact .key _ _ key
      | index index => exact .index _ _ index

/-- A write-back follows a fetch of a part that could be changed. -/
theorem exists_changed_of_writeBack
    {result : Except StoreError Fetched}
    {call : Call}
    (h : job.writeBack? plan result = some call) :
    ∃ part generation changed,
      result = .ok ⟨some part, generation⟩ ∧
      job.changed? plan part = some changed ∧
      call = .apply job.request.key (job.writing plan changed)
        ⟨job.policy, if job.config.generationCheck then some generation else none⟩ := by
  unfold writeBack? at h
  split at h
  · next part generation =>
      obtain ⟨changed, hchanged, rfl⟩ := Option.map_eq_some_iff.1 h
      exact ⟨part, generation, changed, rfl, hchanged, rfl⟩
  · cases h

variable (backend : Backend σ)
variable (store : σ)

theorem calls_eq_course :
    job.calls backend store = job.course.calls backend store := by
  rw [calls, job.perform_eq, Course.recorded_run, Recorded.start, List.append_nil,
    List.reverse_reverse]

/-- A job that reads is one call. -/
theorem calls_of_reads
    (hplan : (job.client MemoryStore.backend).plan job.request.path = .ok plan)
    (h : job.work.reads = true) :
    job.calls backend store = [.fetch job.request.key (job.fetching plan) job.policy] := by
  have hselecting := calls_selecting _ job.request backend store hplan
  rw [job.policy_of_reads h, job.get_eq_fetching] at hselecting
  rw [calls_eq_course, course, ← hselecting]
  cases hwork : job.work with
  | get =>
      rw [Course.calls_bind_of_done fun _ => ⟨_, rfl⟩, getting,
        Course.calls_bind_of_done fun _ => ⟨_, rfl⟩]
  | getAll =>
      rw [Course.calls_bind_of_done fun _ => ⟨_, rfl⟩, gettingAll,
        Course.calls_bind_of_done fun _ => ⟨_, rfl⟩]
  | _ =>
      rw [hwork] at h
      cases h

/-- A job that writes what it was given is one call. -/
theorem calls_of_direct
    {operation : Operation}
    (hplan : (job.client MemoryStore.backend).plan job.request.path = .ok plan)
    (h : job.direct? plan = some operation) :
    job.calls backend store = [.apply job.request.key operation ⟨job.policy, none⟩] := by
  rw [calls_eq_course, course]
  cases hadvanced : plan.advanced with
  | some advanced =>
      rw [direct?, hadvanced] at h
      cases h
  | none =>
      rw [direct?, hadvanced] at h
      cases hwork : job.work with
      | put value =>
          rw [hwork] at h
          simp only [putting, changing, hplan, Course.bind, hadvanced]
          rw [Course.calls_sending, job.policy_of_writes (by rw [hwork]; rfl),
            job.put_eq_writing, ← Option.some.inj h]
      | delete =>
          rw [hwork] at h
          simp only [deleting, changing, hplan, Course.bind, hadvanced]
          rw [Course.calls_sending, job.policy_of_writes (by rw [hwork]; rfl),
            job.delete_eq_clearing, ← Option.some.inj h]
      | _ =>
          rw [hwork] at h
          cases h

/-- The calls of a write-back whose edit changes the part as the job does. -/
theorem calls_rewriting_of_changed
    (hwork : job.work.reads = false)
    {edit : Value → Except DocumentError Value}
    (hedit : ∀ part, (edit part).toOption = job.changed? plan part) :
    ((job.client MemoryStore.backend).rewriting job.request plan edit).calls backend store =
      .fetch job.request.key (job.fetching plan) job.policy ::
        (job.writeBack? plan
          (backend.fetch store job.request.key (job.fetching plan) job.policy).1).toList := by
  simp only [calls_rewriting, job.policy_of_writes hwork, job.get_eq_fetching,
    job.put_eq_writing]
  congr 1
  rcases (backend.fetch store job.request.key (job.fetching plan) job.policy).1 with
    error | ⟨value, generation⟩
  · rfl
  · cases value with
    | none => rfl
    | some part =>
        rw [writeBack?, ← hedit part]
        rfl

/-- Any other job is one read, and one write behind it at most. -/
theorem calls_of_rewriting
    (hplan : (job.client MemoryStore.backend).plan job.request.path = .ok plan)
    (hwrites : job.work.reads = false)
    (h : job.direct? plan = none) :
    job.calls backend store =
      .fetch job.request.key (job.fetching plan) job.policy ::
        (job.writeBack? plan
          (backend.fetch store job.request.key (job.fetching plan) job.policy).1).toList := by
  rw [calls_eq_course, course]
  cases hwork : job.work with
  | put value =>
      cases hadvanced : plan.advanced with
      | none =>
          rw [direct?, hadvanced, hwork] at h
          cases h
      | some advanced =>
          simp only [putting, changing, hplan, Course.bind, hadvanced]
          refine job.calls_rewriting_of_changed backend store hwrites fun part => ?_
          rw [job.toOption_changedBy, changed?, hadvanced, hwork]
  | append value =>
      simp only [appending, hplan, Course.bind]
      exact job.calls_rewriting_of_changed backend store hwrites (job.toOption_extended hwork)
  | delete =>
      cases hadvanced : plan.advanced with
      | none =>
          rw [direct?, hadvanced, hwork] at h
          cases h
      | some advanced =>
          simp only [deleting, changing, hplan, Course.bind, hadvanced]
          refine job.calls_rewriting_of_changed backend store hwrites fun part => ?_
          rw [job.toOption_changedBy, changed?, hadvanced, hwork]
  | _ =>
      rw [hwork] at hwrites
      cases hwrites

end Job

/--
The native calls of a job, on any store and with any client: none without a
plan; one fetch for a read; one unguarded write for a put or a delete on a
plain path; and otherwise one fetch, with one write behind it if the fetch
returned a value that could be changed, and none if not. The write goes where
the fetch came from: to the same field, contexts and key or index. It is guarded
by the generation that the fetch returned if the client checks generations, and
each call carries the one policy of the job.
-/
theorem native_calls
    {σ : Type}
    (job : Job)
    (backend : Backend σ)
    (store : σ) :
    (∀ error, Path.Plan.compile job.evaluator job.request.path = .error error →
      job.calls backend store = []) ∧
    ∀ plan, Path.Plan.compile job.evaluator job.request.path = .ok plan →
      (job.work.reads = true →
        job.calls backend store = [.fetch job.request.key (job.fetching plan) job.policy]) ∧
      (∀ operation, job.direct? plan = some operation →
        job.calls backend store = [.apply job.request.key operation ⟨job.policy, none⟩]) ∧
      (job.work.reads = false → job.direct? plan = none →
        job.calls backend store =
          .fetch job.request.key (job.fetching plan) job.policy ::
            (job.writeBack? plan
              (backend.fetch store job.request.key (job.fetching plan) job.policy).1).toList) ∧
      ∀ result write, job.writeBack? plan result = some write →
        ∃ part generation changed,
          result = .ok ⟨some part, generation⟩ ∧
          job.changed? plan part = some changed ∧
          WritesWhere changed (job.fetching plan) write.operation ∧
          write.expected = if job.config.generationCheck then some generation else none := by
  constructor
  · intro error hplan
    rw [job.calls_eq_course, job.course_of_refused hplan]
    rfl
  · intro plan hplan
    refine ⟨?_, ?_, ?_, ?_⟩
    · exact job.calls_of_reads backend store hplan
    · exact fun operation => job.calls_of_direct backend store hplan
    · exact job.calls_of_rewriting backend store hplan
    · intro result write hwrite
      obtain ⟨part, generation, changed, hresult, hchanged, rfl⟩ :=
        job.exists_changed_of_writeBack hwrite
      exact ⟨part, generation, changed, hresult, hchanged, job.writesWhere_fetching plan changed,
        rfl⟩

/-- A store whose record has some list in it whenever it is read, and is never there to write. -/
def elusiveBackend : Backend Unit :=
  ⟨fun _ _ _ _ => (.ok ⟨some (.map [("a", .list [.null])]), 7⟩, ()),
    fun _ _ _ _ => (.error .recordNotFound, ())⟩

/-- A guarded put below the root, with a default policy of which the store knows one option. -/
def guardedJob : Job :=
  ⟨.full, ⟨true, none, some [("replica", .null), ("retries", .null)]⟩,
    ⟨⟨"test", "docs", .text "k1"⟩, "doc", "$.c[-1].b..a", none⟩, .put .null⟩

/-- One fetch and one write, which expects the generation that was fetched, and no more. -/
theorem native_calls_elusive :
    guardedJob.calls elusiveBackend () =
      [ .fetch guardedJob.request.key
          (.act "doc" [.key "c", .index (-1)] (.getByKey "b"))
          (some [("replica", .null)]),
        .apply guardedJob.request.key
          (.act "doc" [.key "c", .index (-1)] (.setByKey "b" (.map [("a", .null)])))
          ⟨some [("replica", .null)], some 7⟩ ] := by
  have hplan : Path.Plan.compile guardedJob.evaluator guardedJob.request.path =
      .ok ⟨"$.c[-1].b..a", ⟨"$.c[-1].b", some "$..a"⟩, [.key "c", .index (-1)],
        .access (.key "b")⟩ := by
    decide +kernel
  have hcalls := ((native_calls guardedJob elusiveBackend ()).2 _ hplan).2.2.1 rfl rfl
  have hpolicy : guardedJob.policy = some [("replica", .null)] := by
    decide +kernel
  have hchanged : guardedJob.changed?
      ⟨"$.c[-1].b..a", ⟨"$.c[-1].b", some "$..a"⟩, [.key "c", .index (-1)], .access (.key "b")⟩
      (.map [("a", .list [.null])]) = some (.map [("a", .null)]) := by
    decide +kernel
  have hwriteBack : guardedJob.writeBack?
      ⟨"$.c[-1].b..a", ⟨"$.c[-1].b", some "$..a"⟩, [.key "c", .index (-1)], .access (.key "b")⟩
      (.ok ⟨some (.map [("a", .list [.null])]), 7⟩) =
        some (.apply guardedJob.request.key
          (.act "doc" [.key "c", .index (-1)] (.setByKey "b" (.map [("a", .null)])))
          ⟨guardedJob.policy, some 7⟩) := by
    rw [Job.writeBack?, hchanged]
    rfl
  rw [hcalls, elusiveBackend, hwriteBack, hpolicy]
  rfl

end Client
end FieldQuery
