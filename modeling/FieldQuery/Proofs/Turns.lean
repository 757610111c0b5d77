import FieldQuery.Proofs.Scripts
import FieldQuery.Proofs.Stores

/-!
# Turns of a job

A job whose client checks generations takes its turns on a store that others
change in between. The invariant is that what the job read is still there as
long as the record has the generation that was read with it. So when its write
is served, either the job comes to what it would have come to alone, or the
write fails and changes nothing. Since a counter starts again at its end, the
invariant speaks of the writes that may still come, too; each write uses up one
of them.
-/

namespace FieldQuery
namespace Client

open Store (RecordKey MemoryStore Operation WriteOptions StoreError Fetched Answer Call
  eq_zero_of_laterGeneration_eq)
open Course (Resumes Ends Orderly)

/-- What a course comes to depends on the records of the store only. -/
theorem Course.run_congr
    {α : Type}
    (course : Course α)
    {store other : MemoryStore}
    (h : store.records = other.records) :
    (course.run MemoryStore.backend store).1 = (course.run MemoryStore.backend other).1 ∧
      (course.run MemoryStore.backend store).2.records =
        (course.run MemoryStore.backend other).2.records := by
  induction course generalizing store other with
  | done outcome => exact ⟨rfl, h⟩
  | fetch key operation policy next ih =>
      obtain ⟨hanswer, hafter⟩ := MemoryStore.serve_congr h (.fetch key operation policy)
      have hresult : (store.fetch key operation policy).1 = (other.fetch key operation policy).1 :=
        Answer.fetched.inj hanswer
      simp only [run, MemoryStore.backend, hresult]
      exact ih _ hafter
  | apply key operation options next ih =>
      obtain ⟨hanswer, hafter⟩ := MemoryStore.serve_congr h (.apply key operation options)
      have hresult : (store.apply key operation options).1 = (other.apply key operation options).1 :=
        Answer.applied.inj hanswer
      simp only [run, MemoryStore.backend, hresult]
      exact ih _ hafter

/-- How far a course can have come while what it read is still known to the store. -/
inductive Safe
    (store : MemoryStore)
    (coming : Nat) :
    Course Unit → Course Unit → Prop where
  | unstarted
      (course : Course Unit) :
      Safe store coming course course
  | ended
      {course rest : Course Unit}
      (h : Ends rest) :
      Safe store coming course rest
  | read
      {key : RecordKey}
      {operation : Operation}
      {policy : Option Policy}
      {next : Except StoreError Fetched → Course Unit}
      {fetched : Fetched}
      (h : store.Fresh coming key operation fetched) :
      Safe store coming (.fetch key operation policy next) (next (.ok fetched))

theorem Safe.evolves
    {store after : MemoryStore}
    {writes coming : Nat}
    {course rest : Course Unit}
    (h : Safe store (coming + writes) course rest)
    (hevolves : MemoryStore.Evolves store.records writes after.records) :
    Safe after coming course rest := by
  cases h with
  | unstarted => exact .unstarted _
  | ended hends => exact .ended hends
  | read hfresh => exact .read (hfresh.evolves hevolves)

section Turn

variable {store : MemoryStore}
variable {coming : Nat}
variable {reads : Prop}
variable {course : Course Unit}
variable {key : RecordKey}
variable {operation : Operation}

/-- Only a course that has not been started waits for a read, and the read leaves it safe. -/
theorem Safe.fetch
    {policy : Option Policy}
    {next : Except StoreError Fetched → Course Unit}
    (hcoming : coming < UInt32.size - 1)
    (horderly : Orderly reads course)
    (h : Safe store coming course (.fetch key operation policy next)) :
    course = .fetch key operation policy next ∧
      Safe (store.fetch key operation policy).2 coming course
        (next (store.fetch key operation policy).1) := by
  generalize hrest : Course.fetch key operation policy next = rest at h
  cases h with
  | unstarted =>
      refine ⟨rfl, ?_⟩
      subst hrest
      cases horderly with
      | fetch hnext =>
          have hresult : (store.fetch key operation policy).1 = store.read key operation := rfl
          rw [hresult]
          cases hread : store.read key operation with
          | ok fetched => exact .read (MemoryStore.fresh_of_read hcoming hread)
          | error error =>
              rcases hnext (.error error) with ⟨hends, -⟩ | ⟨_, _, _, _, _, hok, -⟩
              · exact .ended hends
              · cases hok
  | ended hends =>
      obtain ⟨outcome, hdone⟩ := hends
      rw [← hrest] at hdone
      cases hdone
  | @read _ _ _ further fetched hfresh =>
      cases horderly with
      | fetch hnext =>
          rcases hnext (.ok fetched) with ⟨⟨outcome, hdone⟩, -⟩ | ⟨_, _, _, _, _, -, happly⟩
          · rw [← hrest] at hdone
            cases hdone
          · rw [← hrest] at happly
            cases happly

/-- A guarded write that succeeds finds what was read before. -/
theorem read_of_guarded
    {fetched : Fetched}
    {target : Operation}
    {policy : Option Policy}
    {generation : Nat}
    {after : MemoryStore}
    (hfresh : store.Fresh coming key operation fetched)
    (h : store.apply key target ⟨policy, some fetched.generation⟩ = (.ok generation, after)) :
    store.read key operation = .ok fetched := by
  obtain ⟨record, writes, hrecord, hbound, hlater, hread⟩ := hfresh
  obtain ⟨written, hwrite, -, -⟩ := MemoryStore.apply_eq_ok h
  obtain ⟨start, value, htarget, hcheck, -, -⟩ := MemoryStore.write_eq_ok hwrite
  rw [MemoryStore.target, hrecord] at htarget
  obtain rfl := Except.ok.inj htarget
  by_cases hgeneration : record.generation = fetched.generation
  · exact hread (eq_zero_of_laterGeneration_eq (hlater.symm.trans hgeneration) (by omega))
  · rw [MemoryStore.checkGeneration, if_neg hgeneration] at hcheck
    cases hcheck

/-- A write that is served ends a course, which comes to what it would have come to alone. -/
theorem Safe.apply
    {options : WriteOptions}
    {next : Except StoreError Nat → Course Unit}
    (horderly : Orderly reads course)
    (h : Safe store coming course (.apply key operation options next)) :
    ∃ outcome,
      next (store.apply key operation options).1 = .done outcome ∧
      ((∃ error, outcome = .error error ∧
          (store.apply key operation options).2.records = store.records) ∨
        outcome = .ok () ∧
          ∃ alone,
            course.run MemoryStore.backend store = (.ok (), alone) ∧
            alone.records = (store.apply key operation options).2.records) := by
  generalize hrest : Course.apply key operation options next = rest at h
  rcases happly : store.apply key operation options with ⟨result, after⟩
  cases h with
  | unstarted =>
      subst hrest
      cases horderly with
      | @apply _ _ _ path phase =>
          refine ⟨written path phase result, rfl, ?_⟩
          cases result with
          | error error => exact Or.inl ⟨_, rfl, MemoryStore.apply_eq_error happly⟩
          | ok generation =>
              refine Or.inr ⟨rfl, after, ?_, rfl⟩
              have hrun : MemoryStore.backend.apply store key operation options =
                  (.ok generation, after) := happly
              rw [Course.run, hrun]
              rfl
  | ended hends =>
      obtain ⟨outcome, hdone⟩ := hends
      rw [← hrest] at hdone
      cases hdone
  | @read readKey readOperation readPolicy further fetched hfresh =>
      cases horderly with
      | fetch hnext =>
          rcases hnext (.ok fetched) with
            ⟨⟨outcome, hdone⟩, -⟩ | ⟨found, target, policy, path, phase, hfound, hwrite⟩
          · rw [← hrest] at hdone
            cases hdone
          · obtain rfl := Except.ok.inj hfound
            have hsame := hrest.trans hwrite
            obtain ⟨rfl, rfl, rfl, rfl⟩ := Course.apply.inj hsame
            refine ⟨written path phase result, rfl, ?_⟩
            cases result with
            | error error => exact Or.inl ⟨_, rfl, MemoryStore.apply_eq_error happly⟩
            | ok generation =>
                have hread := read_of_guarded hfresh happly
                have hfetch : MemoryStore.backend.fetch store key readOperation readPolicy =
                    (.ok fetched, (store.fetch key readOperation readPolicy).2) :=
                  Prod.ext hread rfl
                have hrecords : (store.fetch key readOperation readPolicy).2.records =
                    store.records := rfl
                obtain ⟨hanswer, hafter⟩ := MemoryStore.serve_congr hrecords
                  (.apply key operation ⟨policy, some fetched.generation⟩)
                have happlied := (Answer.applied.inj hanswer).trans (congrArg Prod.fst happly)
                refine Or.inr ⟨rfl, _, ?_, hafter.trans (congrArg (·.2.records) happly)⟩
                rw [Course.run, hfetch]
                simp only [hwrite]
                exact Prod.ext (congrArg (written path phase) happlied) rfl

end Turn

/--
A job of a client that checks generations, as long as its course is safe, and
fewer writes are to come than there are generations.
-/
structure Tracked
    (store : MemoryStore)
    (coming : Nat)
    (ongoing : Ongoing) : Prop where
  checked : ongoing.job.config.generationCheck = true
  within : coming < UInt32.size - 1
  safe : ∃ rest,
    Resumes ongoing.job.course ongoing.answers rest ∧
    Safe store coming ongoing.job.course rest

namespace Tracked

variable {store : MemoryStore}
variable {ongoing : Ongoing}

theorem evolves
    {after : MemoryStore}
    {writes coming : Nat}
    (h : Tracked store (coming + writes) ongoing)
    (hevolves : MemoryStore.Evolves store.records writes after.records) :
    Tracked after coming ongoing := by
  obtain ⟨rest, hresumes, hsafe⟩ := h.safe
  exact ⟨h.checked, Nat.lt_of_le_of_lt (Nat.le_add_right _ _) h.within, rest, hresumes,
    hsafe.evolves hevolves⟩

/-- A job succeeds with an answer exactly if its course is then at a successful end. -/
theorem done_of_outcome?
    {rest : Course Unit}
    {outcome : Except DocumentError Unit}
    (h : Resumes ongoing.job.course ongoing.answers rest)
    (houtcome : ongoing.outcome? = some outcome) :
    rest = .done outcome := by
  cases rest with
  | done other =>
      rw [(Ongoing.outcome?_of_done h).2] at houtcome
      rw [Option.some.inj houtcome]
  | fetch key operation policy next =>
      rw [Ongoing.outcome?, Ongoing.asked?_of_fetch h] at houtcome
      cases houtcome
  | apply key operation options next =>
      rw [Ongoing.outcome?, Ongoing.asked?_of_apply h] at houtcome
      cases houtcome

end Tracked

/--
What a call comes to for the job that made it: the job stays tracked, and it
either succeeds, with what it would have come to alone, or leaves the records
as they were.
-/
structure Advances
    (store : MemoryStore)
    (coming : Nat)
    (ongoing : Ongoing)
    (call : Call) : Prop where
  tracked : Tracked (store.serve call).2 coming (ongoing.answered (store.serve call).1)
  writes :
    (ongoing.answered (store.serve call).1).outcome? = some (.ok ()) →
      ongoing.job.work.reads = false →
        ∃ key operation options, call = .apply key operation options
  alone :
    (ongoing.answered (store.serve call).1).outcome? = some (.ok ()) →
      ∃ after,
        ongoing.job.alone store = (.ok (), after) ∧
        after.records = (store.serve call).2.records
  unchanged :
    (ongoing.answered (store.serve call).1).outcome? ≠ some (.ok ()) →
      (store.serve call).2.records = store.records

section Call

variable {store : MemoryStore}
variable {coming : Nat}
variable {ongoing : Ongoing}
variable {key : RecordKey}
variable {operation : Operation}

/-- A job that reads has not been started, and succeeds with the read only if that is its work. -/
theorem advances_fetch
    {policy : Option Policy}
    {next : Except StoreError Fetched → Course Unit}
    (hchecked : ongoing.job.config.generationCheck = true)
    (hcoming : coming < UInt32.size - 1)
    (hresumes : Resumes ongoing.job.course ongoing.answers (.fetch key operation policy next))
    (hsafe : Safe store coming ongoing.job.course (.fetch key operation policy next)) :
    Advances store coming ongoing (.fetch key operation policy) := by
  have horderly := ongoing.job.orderly_course hchecked
  obtain ⟨hcourse, hnext⟩ := hsafe.fetch hcoming horderly
  have hafter : Resumes ongoing.job.course
      (ongoing.answers ++ [.fetched (store.fetch key operation policy).1])
      (next (store.fetch key operation policy).1) :=
    hresumes.append (.fetched (.here _))
  refine ⟨⟨hchecked, hcoming, _, hafter, hnext⟩, ?_, ?_, fun _ => rfl⟩
  · intro hsuccess hwrites
    have hdone := Tracked.done_of_outcome? hafter hsuccess
    rw [hcourse] at horderly
    cases horderly with
    | fetch hends =>
        rcases hends (store.fetch key operation policy).1 with
          ⟨-, hreads⟩ | ⟨_, _, _, _, _, -, happly⟩
        · rw [hreads hdone] at hwrites
          cases hwrites
        · rw [happly] at hdone
          cases hdone
  · intro hsuccess
    have hdone : next (store.fetch key operation policy).1 = .done (.ok ()) :=
      Tracked.done_of_outcome? hafter hsuccess
    have hrun : ongoing.job.course.run MemoryStore.backend store =
        (next (store.fetch key operation policy).1).run MemoryStore.backend
          (store.fetch key operation policy).2 := by
      rw [hcourse]
      rfl
    rw [Job.alone_eq, hrun, hdone]
    exact ⟨_, rfl, rfl⟩

/-- A job that writes is at its end with the write. -/
theorem advances_apply
    {options : WriteOptions}
    {next : Except StoreError Nat → Course Unit}
    {later : Nat}
    (hchecked : ongoing.job.config.generationCheck = true)
    (hlater : later < UInt32.size - 1)
    (hresumes : Resumes ongoing.job.course ongoing.answers (.apply key operation options next))
    (hsafe : Safe store coming ongoing.job.course (.apply key operation options next)) :
    Advances store later ongoing (.apply key operation options) := by
  obtain ⟨outcome, hdone, hend⟩ := hsafe.apply (ongoing.job.orderly_course hchecked)
  have hafter : Resumes ongoing.job.course
      (ongoing.answers ++ [.applied (store.apply key operation options).1])
      (.done outcome) := by
    rw [← hdone]
    exact hresumes.append (.applied (.here _))
  have houtcome := (@Ongoing.outcome?_of_done
    (ongoing.answered (.applied (store.apply key operation options).1)) _ hafter).2
  refine ⟨⟨hchecked, hlater, _, hafter, .ended ⟨outcome, rfl⟩⟩, ?_, ?_, ?_⟩
  · intro _ _
    exact ⟨key, operation, options, rfl⟩
  · intro hsuccess
    rcases hend with ⟨error, rfl, -⟩ | ⟨rfl, alone, hrun, hrecords⟩
    · cases Option.some.inj (houtcome.symm.trans hsuccess)
    · exact ⟨alone, (ongoing.job.alone_eq store).trans hrun, hrecords⟩
  · intro hfailure
    rcases hend with ⟨error, -, hrecords⟩ | ⟨rfl, -⟩
    · exact hrecords
    · exact absurd houtcome hfailure

/-- A tracked job that waits for a call advances with it. -/
theorem Tracked.advances
    {call : Call}
    (h : Tracked store (coming + (store.serve call).1.writes) ongoing)
    (hasked : ongoing.asked? = some call) :
    Advances store coming ongoing call := by
  have hcoming : coming < UInt32.size - 1 := Nat.lt_of_le_of_lt (Nat.le_add_right _ _) h.within
  obtain ⟨rest, hresumes, hsafe⟩ := h.safe
  cases rest with
  | done outcome =>
      rw [(Ongoing.outcome?_of_done hresumes).1] at hasked
      cases hasked
  | fetch key operation policy next =>
      rw [Ongoing.asked?_of_fetch hresumes] at hasked
      obtain rfl := Option.some.inj hasked
      exact advances_fetch h.checked hcoming hresumes hsafe
  | apply key operation options next =>
      rw [Ongoing.asked?_of_apply hresumes] at hasked
      obtain rfl := Option.some.inj hasked
      exact advances_apply h.checked hcoming hresumes hsafe

end Call
end Client
end FieldQuery
