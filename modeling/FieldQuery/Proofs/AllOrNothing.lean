import Mathlib.Control.Monad.Basic
import FieldQuery.Proofs.LocationOrder
import FieldQuery.Proofs.Scripts
import FieldQuery.Proofs.Stores
import FieldQuery.Store.Faltering

/-!
# All or nothing

A client changes a store by one native write at most, and by that as the last
thing it does: all changes of a document are made on a copy before. So a write
that fails, wherever it fails, leaves every record as it was, and one that
succeeds is one write of one record. Reads change nothing. The store may be out
of reach for any of the calls.
-/

namespace FieldQuery

namespace Store

/--
Two stores between which one record was written once. Its generation is one
more than it was, or than zero if the record is new; only from the last
generation that 32 bits can hold the counter starts again with one.
-/
structure MemoryStore.WrittenOnce
    (before after : MemoryStore)
    (key : RecordKey) : Prop where
  raised :
    (before.generation? key).getD 0 + 1 < UInt32.size →
      after.generation? key = some ((before.generation? key).getD 0 + 1)
  restarted :
    (before.generation? key).getD 0 + 1 = UInt32.size →
      after.generation? key = some 1
  records : ∀ other, other ≠ key → after.record? other = before.record? other

namespace Faltering

variable {before after : Faltering}
variable {key : RecordKey}
variable {operation : Operation}

/-- A call is not heard, or it is served. -/
theorem serve_cases
    {α : Type}
    (call : MemoryStore → Except StoreError α × MemoryStore)
    {result : Except StoreError α}
    (h : before.serve call = (result, after)) :
    (∃ detail, result = .error (.unavailable detail) ∧ after.store = before.store) ∨
      call before.store = (result, after.store) := by
  rw [serve] at h
  cases houtage : before.outages.head?.join with
  | some detail =>
      rw [houtage] at h
      obtain ⟨rfl, rfl⟩ := Prod.mk.inj h
      exact Or.inl ⟨detail, rfl, rfl⟩
  | none =>
      rw [houtage] at h
      obtain ⟨rfl, rfl⟩ := Prod.mk.inj h
      exact Or.inr rfl

/-- A read changes no record. -/
theorem records_fetch
    {policy : Option Policy}
    {result : Except StoreError Fetched}
    (h : backend.fetch before key operation policy = (result, after)) :
    after.store.records = before.store.records := by
  rcases serve_cases (fun store => store.fetch key operation policy) h with
    ⟨_, -, hstore⟩ | hfetch
  · rw [hstore]
  · obtain ⟨-, hstore⟩ := Prod.mk.inj hfetch
    rw [← hstore]
    rfl

/-- A write that fails changes no record. -/
theorem records_apply_of_error
    {options : WriteOptions}
    {error : StoreError}
    (h : backend.apply before key operation options = (.error error, after)) :
    after.store.records = before.store.records := by
  rcases serve_cases (fun store => store.apply key operation options) h with
    ⟨_, -, hstore⟩ | happly
  · rw [hstore]
  · exact MemoryStore.apply_eq_error happly

/-- A write that succeeds writes its record once. -/
theorem writtenOnce_of_apply
    {options : WriteOptions}
    {generation : Nat}
    (h : backend.apply before key operation options = (.ok generation, after)) :
    before.store.WrittenOnce after.store key := by
  rcases serve_cases (fun store => store.apply key operation options) h with
    ⟨_, hresult, -⟩ | happly
  · cases hresult
  · obtain ⟨record, hwrite, -, hrecords⟩ := MemoryStore.apply_eq_ok happly
    obtain ⟨start, value, htarget, -, -, rfl⟩ := MemoryStore.write_eq_ok hwrite
    have hstart : (before.store.generation? key).getD 0 = start.generation := by
      rw [MemoryStore.eq_getD_of_target htarget, MemoryStore.generation?]
      cases before.store.record? key with
      | some found => rfl
      | none => rfl
    have hnext : after.store.generation? key = some (nextGeneration start.generation) := by
      rw [MemoryStore.generation?, MemoryStore.record?, hrecords, Records.get?_put_self]
      rfl
    rw [← hstart] at hnext
    refine ⟨?_, ?_, ?_⟩
    · intro hbound
      rw [hnext, nextGeneration_eq hbound]
    · intro hlast
      rw [hnext, nextGeneration_last hlast]
    · intro other hother
      rw [MemoryStore.record?, hrecords, Records.get?_put_of_ne _ _ hother]
      rfl

end Faltering
end Store

namespace Client

open Store (RecordKey Operation WriteOptions StoreError Fetched Faltering)

namespace Course

variable {α β : Type}

/-- Whether a course has no write in it. -/
inductive Reading : Course α → Prop where
  | done
      (outcome : Except DocumentError α) :
      Reading (done outcome)
  | fetch
      {key : RecordKey}
      {operation : Operation}
      {policy : Option Policy}
      {next : Except StoreError Fetched → Course α}
      (hnext : ∀ result, Reading (next result)) :
      Reading (fetch key operation policy next)

theorem Reading.bind
    {course : Course α}
    {further : α → Course β}
    (h : course.Reading)
    (hfurther : ∀ value, (further value).Reading) :
    (course.bind further).Reading := by
  induction h with
  | done outcome =>
      cases outcome with
      | ok value => exact hfurther value
      | error error => exact .done _
  | fetch _ ih => exact .fetch ih

/-- Whether a course writes one record, as the last thing it does, or else fails. -/
inductive Committing
    (key : RecordKey) :
    Course Unit → Prop where
  | failed
      (error : DocumentError) :
      Committing key (done (.error error))
  | apply
      {operation : Operation}
      {options : WriteOptions}
      {path : String}
      {phase : Phase} :
      Committing key (apply key operation options fun result => done (written path phase result))
  | fetch
      {other : RecordKey}
      {operation : Operation}
      {policy : Option Policy}
      {next : Except StoreError Fetched → Course Unit}
      (hnext : ∀ result, Committing key (next result)) :
      Committing key (fetch other operation policy next)

/-- A course without a write changes no record. -/
theorem Reading.records_run
    {course : Course α}
    (h : course.Reading)
    (faltering : Faltering) :
    (course.run Faltering.backend faltering).2.store.records = faltering.store.records := by
  induction h generalizing faltering with
  | done outcome => rfl
  | @fetch key operation policy next hnext ih =>
      rcases hfetch : Faltering.backend.fetch faltering key operation policy with ⟨result, after⟩
      simp only [Course.run, hfetch]
      exact (ih result after).trans (Faltering.records_fetch hfetch)

/-- What a course comes to if it writes at its end only. -/
theorem Committing.run
    {key : RecordKey}
    {course : Course Unit}
    (h : course.Committing key)
    (faltering : Faltering) :
    (∀ error, (course.run Faltering.backend faltering).1 = .error error →
      (course.run Faltering.backend faltering).2.store.records = faltering.store.records) ∧
    ((course.run Faltering.backend faltering).1 = .ok () →
      faltering.store.WrittenOnce (course.run Faltering.backend faltering).2.store key) := by
  induction h generalizing faltering with
  | failed error =>
      constructor
      · exact fun _ _ => rfl
      · intro hok
        cases hok
  | @apply operation options path phase =>
      rcases happly : Faltering.backend.apply faltering key operation options with ⟨result, after⟩
      simp only [Course.run, happly]
      cases result with
      | error error =>
          constructor
          · exact fun _ _ => Faltering.records_apply_of_error happly
          · intro hok
            cases hok
      | ok generation =>
          constructor
          · intro error herror
            cases herror
          · exact fun _ => Faltering.writtenOnce_of_apply happly
  | @fetch other operation policy next hnext ih =>
      rcases hfetch : Faltering.backend.fetch faltering other operation policy with ⟨result, after⟩
      have hrecords := Faltering.records_fetch hfetch
      obtain ⟨hfailed, hdone⟩ := ih result after
      simp only [Course.run, hfetch]
      constructor
      · intro error herror
        exact (hfailed error herror).trans hrecords
      · intro hok
        have hrecord (key : RecordKey) : after.store.record? key = faltering.store.record? key :=
          congrArg (Store.Records.get? key) hrecords
        have hgeneration : after.store.generation? key = faltering.store.generation? key :=
          congrArg (Option.map Store.Record.generation) (hrecord key)
        obtain ⟨hraised, hrestarted, hothers⟩ := hdone hok
        rw [hgeneration] at hraised hrestarted
        refine ⟨hraised, hrestarted, ?_⟩
        intro other hother
        exact (hothers other hother).trans (hrecord other)

end Course

section Operations

variable {σ : Type}
variable (client : Client σ)
variable (request : Request)

/-- A write-back comes last. -/
theorem committing_rewriting
    (plan : Path.Plan)
    (edit : Value → Except DocumentError Value) :
    (client.rewriting request plan edit).Committing request.key := by
  refine .fetch fun result => ?_
  cases hreceived : received request.path result with
  | error error =>
      simp only [hreceived, Course.bind]
      exact .failed error
  | ok fragment =>
      simp only [hreceived, Course.bind]
      cases edit fragment.value with
      | error error => exact .failed error
      | ok changed => exact .apply

theorem committing_changing
    (client : Client σ)
    (request : Request)
    (operation : Path.Plan → Store.Operation)
    (phase : Phase)
    (edit : Query → Value → Except QueryError (Value × Nat)) :
    (client.changing request operation phase edit).Committing request.key := by
  rw [changing]
  cases client.plan request.path with
  | error error => exact .failed error
  | ok plan =>
      rw [Course.bind]
      cases plan.advanced with
      | none => exact .apply
      | some advanced => exact committing_rewriting client request plan _

end Operations

namespace Job

theorem committing_course
    (job : Job)
    (h : job.work.reads = false) :
    job.course.Committing job.request.key := by
  rw [course]
  cases hwork : job.work with
  | put value => exact committing_changing _ _ _ _ _
  | append value =>
      simp only [appending]
      cases (job.client Store.MemoryStore.backend).plan job.request.path with
      | error error => exact .failed error
      | ok plan => exact committing_rewriting _ _ plan _
  | delete => exact committing_changing _ _ _ _ _
  | _ =>
      rw [hwork] at h
      cases h

end Job

end Client
end FieldQuery
