import FieldQuery.Client.Joint
import FieldQuery.Proofs.Courses

/-!
# Jobs and their courses

The call that a job waits for, and the outcome that it has at its end, are
those of the rest of its course after the answers so far. A job whose client
checks generations makes a single write, and if it read before, the write is
guarded by the generation that was read.
-/

namespace FieldQuery
namespace Client

open Store (MemoryStore Operation WriteOptions StoreError Fetched Answer Call Script Backend)

namespace Course

variable {α : Type}

/-- What is left of a course after some answers. -/
inductive Resumes : Course α → List Answer → Course α → Prop where
  | here
      (course : Course α) :
      Resumes course [] course
  | fetched
      {key : Store.RecordKey}
      {operation : Operation}
      {policy : Option Policy}
      {next : Except StoreError Fetched → Course α}
      {result : Except StoreError Fetched}
      {answers : List Answer}
      {rest : Course α}
      (h : Resumes (next result) answers rest) :
      Resumes (fetch key operation policy next) (.fetched result :: answers) rest
  | applied
      {key : Store.RecordKey}
      {operation : Operation}
      {options : WriteOptions}
      {next : Except StoreError Nat → Course α}
      {result : Except StoreError Nat}
      {answers : List Answer}
      {rest : Course α}
      (h : Resumes (next result) answers rest) :
      Resumes (apply key operation options next) (.applied result :: answers) rest

theorem Resumes.append
    {course middle rest : Course α}
    {answers more : List Answer}
    (h : Resumes course answers middle)
    (hmore : Resumes middle more rest) :
    Resumes course (answers ++ more) rest := by
  induction h with
  | here => exact hmore
  | fetched _ ih => exact .fetched (ih hmore)
  | applied _ ih => exact .applied (ih hmore)

/-- A script that ends with the answers so far leaves the rest of the course unanswered. -/
theorem Resumes.run_eq
    {course rest : Course α}
    {answers : List Answer}
    (h : Resumes course answers rest) :
    course.run Script.backend (.start answers) = rest.run Script.backend (.start []) := by
  induction h with
  | here => rfl
  | fetched _ ih => exact ih
  | applied _ ih => exact ih

/-- A call that got no answer stays the one that is asked for. -/
theorem asked_run
    (course : Course α)
    (call : Call) :
    (course.run Script.backend ⟨[], some call⟩).2.asked = some call := by
  induction course with
  | done outcome => rfl
  | fetch key operation policy next ih => exact ih _
  | apply key operation options next ih => exact ih _

/-- A course without any call. -/
def Ends
    (course : Course α) : Prop :=
  ∃ outcome, course = done outcome

theorem Ends.bind
    {β : Type}
    {course : Course α}
    (h : Ends course)
    (further : α → Except DocumentError β) :
    Ends (course.bind fun value => done (further value)) := by
  obtain ⟨outcome, rfl⟩ := h
  cases outcome with
  | error error => exact ⟨_, rfl⟩
  | ok value => exact ⟨_, rfl⟩

/--
The courses of clients that guard what they write back: after a read there is
one write at most, which expects the generation that was read. A course
succeeds with a read only if it is there to read.
-/
inductive Orderly (reads : Prop) : Course Unit → Prop where
  | failed
      (error : DocumentError) :
      Orderly reads (done (.error error))
  | apply
      {key : Store.RecordKey}
      {operation : Operation}
      {options : WriteOptions}
      {path : String}
      {phase : Phase} :
      Orderly reads (apply key operation options fun result => done (written path phase result))
  | fetch
      {key : Store.RecordKey}
      {operation : Operation}
      {policy : Option Policy}
      {next : Except StoreError Fetched → Course Unit}
      (hnext : ∀ result,
        (Ends (next result) ∧ (next result = done (.ok ()) → reads)) ∨
        ∃ fetched operation policy path phase,
          result = .ok fetched ∧
          next result =
            apply key operation ⟨policy, some fetched.generation⟩ fun result =>
              done (written path phase result)) :
      Orderly reads (fetch key operation policy next)

end Course

namespace Job

/-- The course of a job. -/
def course
    (job : Job) :
    Course Unit :=
  let client := job.client MemoryStore.backend
  match job.work with
  | .get => (client.getting job.request).bind fun _ => .done (.ok ())
  | .getAll => (client.gettingAll job.request).bind fun _ => .done (.ok ())
  | .put value => client.putting job.request value
  | .append value => client.appending job.request value
  | .delete => client.deleting job.request

theorem follows_course
    {σ : Type}
    (job : Job)
    (backend : Backend σ) :
    (job.client backend).Follows (job.task (job.client backend)) job.course := by
  rw [task, course]
  cases job.work with
  | get => exact .bind ((job.client backend).follows_get job.request) fun _ => .pure ()
  | getAll => exact .bind ((job.client backend).follows_getAll job.request) fun _ => .pure ()
  | put value => exact (job.client backend).follows_put job.request value
  | append value => exact (job.client backend).follows_append job.request value
  | delete => exact (job.client backend).follows_delete job.request

/-- To perform a job is to run its course. -/
theorem perform_eq
    {σ : Type}
    (job : Job)
    (backend : Backend σ)
    (store : σ) :
    job.perform backend store = job.course.run backend store := by
  obtain ⟨statistics, hcarried⟩ := job.follows_course backend (.start store)
  rw [perform, hcarried]
  rfl

theorem alone_eq
    (job : Job)
    (store : MemoryStore) :
    job.alone store = job.course.run MemoryStore.backend store :=
  job.perform_eq MemoryStore.backend store

/-- A client that checks generations guards what it writes back. -/
theorem orderly_rewriting
    (job : Job)
    (hcheck : job.config.generationCheck = true)
    (plan : Path.Plan)
    (edit : Value → Except DocumentError Value)
    (reads : Prop) :
    ((job.client MemoryStore.backend).rewriting job.request plan edit).Orderly reads := by
  refine .fetch ?_
  intro result
  have hfailed {error : DocumentError} {course : Course Unit}
      (h : course = .done (.error error)) :
      course.Ends ∧ (course = .done (.ok ()) → reads) := by
    refine ⟨⟨_, h⟩, ?_⟩
    intro hdone
    rw [h] at hdone
    cases hdone
  cases result with
  | error error => exact Or.inl (hfailed rfl)
  | ok fetched =>
      obtain ⟨value, generation⟩ := fetched
      cases value with
      | none => exact Or.inl (hfailed rfl)
      | some part =>
          cases hedit : edit part with
          | error error =>
              refine Or.inl (@hfailed error _ ?_)
              simp only [received, Course.bind, hedit]
          | ok changed =>
              refine Or.inr ⟨⟨some part, generation⟩,
                Operation.put job.request.field plan.contexts changed plan.last,
                (job.client MemoryStore.backend).policyForWrite job.request,
                job.request.path, .writeBack, rfl, ?_⟩
              have hguard : (job.client MemoryStore.backend).config.generationCheck = true := hcheck
              simp only [received, Course.bind, hedit, writeBackOptions, hguard, if_true]
              rfl

/-- A read goes no further than its one call. -/
theorem orderly_selecting
    {α : Type}
    {reads : Prop}
    (client : Client MemoryStore)
    (request : Request)
    (further : Path.Plan × Selection → Except DocumentError α)
    (last : α → Except DocumentError Unit)
    (hreads : reads) :
    (((client.selecting request).bind fun selected => .done (further selected)).bind
      fun value => .done (last value)).Orderly reads := by
  rw [selecting]
  cases client.plan request.path with
  | error error => exact .failed _
  | ok plan =>
      refine .fetch fun result => Or.inl ⟨?_, fun _ => hreads⟩
      have hreceived : Course.Ends (.done (received request.path result)) := ⟨_, rfl⟩
      exact ((hreceived.bind _).bind _).bind _

theorem orderly_changing
    (job : Job)
    (hcheck : job.config.generationCheck = true)
    (operation : Path.Plan → Operation)
    (phase : Phase)
    (edit : Query → Value → Except QueryError (Value × Nat))
    (reads : Prop) :
    ((job.client MemoryStore.backend).changing job.request operation phase edit).Orderly reads := by
  rw [changing]
  cases (job.client MemoryStore.backend).plan job.request.path with
  | error error => exact .failed _
  | ok plan =>
      rw [Course.bind]
      cases plan.advanced with
      | none => exact .apply
      | some advanced => exact job.orderly_rewriting hcheck plan _ _

theorem orderly_course
    (job : Job)
    (hcheck : job.config.generationCheck = true) :
    job.course.Orderly (job.work.reads = true) := by
  rw [course]
  cases job.work with
  | get => exact orderly_selecting _ _ _ _ rfl
  | getAll => exact orderly_selecting _ _ _ _ rfl
  | put value => exact job.orderly_changing hcheck _ _ _ _
  | append value =>
      simp only [appending]
      cases (job.client MemoryStore.backend).plan job.request.path with
      | error error => exact .failed _
      | ok plan => exact job.orderly_rewriting hcheck plan _ _
  | delete => exact job.orderly_changing hcheck _ _ _ _

end Job

namespace Ongoing

open Course (Resumes)

variable {ongoing : Ongoing}

/-- A job whose course is at its end waits for no call. -/
theorem outcome?_of_done
    {outcome : Except DocumentError Unit}
    (h : Resumes ongoing.job.course ongoing.answers (.done outcome)) :
    ongoing.asked? = none ∧ ongoing.outcome? = some outcome := by
  have hreplay : ongoing.replay = (outcome, .start []) := by
    rw [replay, Job.perform_eq, h.run_eq]
    rfl
  have hasked : ongoing.asked? = none := by
    rw [asked?, hreplay]
    rfl
  exact ⟨hasked, by rw [outcome?, hasked, hreplay]⟩

/-- A job whose course goes on with a call waits for it. -/
theorem asked?_of_fetch
    {key : Store.RecordKey}
    {operation : Operation}
    {policy : Option Policy}
    {next : Except StoreError Fetched → Course Unit}
    (h : Resumes ongoing.job.course ongoing.answers (.fetch key operation policy next)) :
    ongoing.asked? = some (.fetch key operation policy) := by
  rw [asked?, replay, Job.perform_eq, h.run_eq]
  exact Course.asked_run _ _

theorem asked?_of_apply
    {key : Store.RecordKey}
    {operation : Operation}
    {options : WriteOptions}
    {next : Except StoreError Nat → Course Unit}
    (h : Resumes ongoing.job.course ongoing.answers (.apply key operation options next)) :
    ongoing.asked? = some (.apply key operation options) := by
  rw [asked?, replay, Job.perform_eq, h.run_eq]
  exact Course.asked_run _ _

end Ongoing
end Client
end FieldQuery
