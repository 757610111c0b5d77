import Mathlib.Control.Monad.Basic
import FieldQuery.Proofs.Turns

/-!
# Interleaved jobs

Clients that check generations may work on one store in any order: what a job
that succeeds leaves behind is what it would have left behind alone, on the
store as it was right before its last call, and a job that fails leaves
nothing behind. This holds since every step leaves all jobs tracked, with the
writes that are still to come; there may be fewer of them than there are
generations, wherever the counters of the records stand at the beginning.
-/

namespace FieldQuery
namespace Client

open Store (RecordKey MemoryStore Operation StoreError Answer Call)
open Course (Resumes)

namespace World

variable {world : World}

/-- A world in which all jobs are tracked, with as many writes as may still come. -/
def Sound
    (world : World)
    (coming : Nat) : Prop :=
  ∀ ongoing ∈ world.jobs, Tracked world.store coming ongoing

theorem sound_start
    {jobs : List Job}
    {coming : Nat}
    (h : ∀ job ∈ jobs, job.config.generationCheck = true)
    (hcoming : coming < UInt32.size - 1)
    (store : MemoryStore) :
    (start store jobs).Sound coming := by
  intro ongoing hmem
  obtain ⟨job, hjob, rfl⟩ := List.mem_map.1 hmem
  exact ⟨h job hjob, hcoming, _, .here _, .unstarted _⟩

/-- What the call of a job comes to, if the job waits for one. -/
theorem step_call
    {i : Nat}
    {ongoing : Ongoing}
    {call : Call}
    (hjob : world.jobs[i]? = some ongoing)
    (hasked : ongoing.asked? = some call) :
    world.step (.call i) =
      ⟨(world.store.serve call).2,
        world.jobs.set i (ongoing.answered (world.store.serve call).1)⟩ := by
  simp only [step, hjob, hasked]

theorem run_call
    {world : World}
    {i : Nat}
    {ongoing : Ongoing}
    {call : Call}
    {events : List Event}
    (hjob : world.jobs[i]? = some ongoing)
    (hasked : ongoing.asked? = some call) :
    world.run (.call i :: events) =
      run ⟨(world.store.serve call).2,
        world.jobs.set i (ongoing.answered (world.store.serve call).1)⟩ events :=
  congrArg (run · events) (step_call hjob hasked)

/-- If there is no such job, or it waits for nothing, nothing happens. -/
theorem step_call_idle
    {i : Nat}
    (h : ∀ ongoing, world.jobs[i]? = some ongoing → ongoing.asked? = none) :
    world.step (.call i) = world ∧ world.writes (.call i) = 0 := by
  rw [step, writes]
  cases hjob : world.jobs[i]? with
  | none => exact ⟨rfl, rfl⟩
  | some ongoing => simp only [h ongoing hjob, and_self]

/-- A call of a job is idle, or served. -/
theorem call_cases
    (world : World)
    (i : Nat) :
    (world.step (.call i) = world ∧ world.writes (.call i) = 0) ∨
      ∃ ongoing call,
        world.jobs[i]? = some ongoing ∧
        ongoing.asked? = some call ∧
        world.step (.call i) =
          ⟨(world.store.serve call).2,
            world.jobs.set i (ongoing.answered (world.store.serve call).1)⟩ ∧
        world.writes (.call i) = (world.store.serve call).1.writes := by
  cases hjob : world.jobs[i]? with
  | none =>
      exact Or.inl (step_call_idle fun ongoing hsome => by rw [hjob] at hsome; exact nomatch hsome)
  | some ongoing =>
      cases hasked : ongoing.asked? with
      | none =>
          refine Or.inl (step_call_idle ?_)
          intro other hsome
          rw [hjob] at hsome
          rw [← Option.some.inj hsome, hasked]
      | some call =>
          refine Or.inr ⟨ongoing, call, rfl, hasked, step_call hjob hasked, ?_⟩
          simp only [writes, hjob, hasked]

theorem writes_le_one
    (world : World)
    (event : Event) :
    world.writes event ≤ 1 := by
  cases event with
  | call i =>
      rcases world.call_cases i with ⟨-, hnone⟩ | ⟨ongoing, call, -, -, -, hwrites⟩
      · omega
      · rw [hwrites]
        exact Answer.writes_le_one _
  | foreign call => exact Answer.writes_le_one _
  | insert key field value => exact Nat.le_refl 1

/-- There are no more writes than events. -/
theorem writesIn_le_length
    (world : World)
    (events : List Event) :
    world.writesIn events ≤ events.length := by
  induction events generalizing world with
  | nil => exact Nat.le_refl 0
  | cons event rest ih => exact Nat.add_le_add (ih _) (world.writes_le_one event)

/-- What a step makes of the records. -/
theorem evolves_step
    (world : World)
    (event : Event) :
    MemoryStore.Evolves world.store.records (world.writes event)
      (world.step event).store.records := by
  cases event with
  | call i =>
      rcases world.call_cases i with ⟨hidle, hnone⟩ | ⟨ongoing, call, -, -, hstep, hwrites⟩
      · rw [hidle, hnone]
        exact .same
      · rw [hstep, hwrites]
        exact MemoryStore.evolves_serve world.store call
  | foreign call => exact MemoryStore.evolves_serve world.store call
  | insert key field value => exact MemoryStore.evolves_insert world.store key field value

/-- No job has succeeded before it made a call. -/
theorem outcome?_start_ne_ok
    {jobs : List Job}
    (h : ∀ job ∈ jobs, job.config.generationCheck = true)
    (store : MemoryStore)
    (i : Nat) :
    (start store jobs).outcome? i ≠ some (.ok ()) := by
  intro hsuccess
  obtain ⟨ongoing, hongoing, houtcome⟩ := Option.bind_eq_some_iff.1 hsuccess
  obtain ⟨job, hjob, rfl⟩ := List.mem_map.1 (List.mem_of_getElem? hongoing)
  have hdone : job.course = .done (.ok ()) := Tracked.done_of_outcome? (.here _) houtcome
  have horderly := job.orderly_course (h job hjob)
  rw [hdone] at horderly
  cases horderly

/-- Every step leaves a sound world sound, with as many writes less to come as it makes. -/
theorem Sound.step
    {coming : Nat}
    {event : Event}
    (h : world.Sound (coming + world.writes event)) :
    (world.step event).Sound coming := by
  have hevolves := world.evolves_step event
  cases event with
  | call i =>
      rcases world.call_cases i with ⟨hidle, hnone⟩ | ⟨ongoing, call, hjob, hasked, hstep, hwrites⟩
      · rw [hnone] at h
        rw [hidle]
        exact h
      · rw [hwrites] at h
        rw [hstep, hwrites] at hevolves
        rw [hstep]
        intro other hmem
        rcases List.mem_or_eq_of_mem_set hmem with hold | rfl
        · exact (h other hold).evolves hevolves
        · exact ((h ongoing (List.mem_of_getElem? hjob)).advances hasked).tracked
  | foreign call => exact fun ongoing hmem => (h ongoing hmem).evolves hevolves
  | insert key field value => exact fun ongoing hmem => (h ongoing hmem).evolves hevolves

/-- A sound world stays sound in the course of any events, as long as they were to come. -/
theorem Sound.run
    {before after : List Event}
    (h : world.Sound (world.writesIn (before ++ after))) :
    (world.run before).Sound ((world.run before).writesIn after) := by
  induction before generalizing world with
  | nil => exact h
  | cons event rest ih => exact ih h.step

section Outcome

variable {i : Nat}
variable {outcome : Except DocumentError Unit}

/-- What happens to others does not change the outcome of a job. -/
theorem outcome?_step_of_ne
    {event : Event}
    (h : event ≠ .call i) :
    (world.step event).outcome? i = world.outcome? i := by
  cases event with
  | call j =>
      have hne : j ≠ i := fun heq => h (heq ▸ rfl)
      rcases world.call_cases j with ⟨hidle, -⟩ | ⟨ongoing, call, -, -, hstep, -⟩
      · rw [hidle]
      · rw [hstep, outcome?, outcome?, List.getElem?_set_ne hne]
  | foreign call => rfl
  | insert key field value => rfl

/-- A job that has an outcome keeps it. -/
theorem outcome?_step_of_some
    (h : world.outcome? i = some outcome)
    (event : Event) :
    (world.step event).outcome? i = some outcome := by
  by_cases hevent : event = .call i
  · obtain ⟨ongoing, hjob, houtcome⟩ := Option.bind_eq_some_iff.1 h
    obtain ⟨hidle, -⟩ : world.step (.call i) = world ∧ world.writes (.call i) = 0 := by
      refine step_call_idle ?_
      intro other hother
      obtain rfl := Option.some.inj (hjob.symm.trans hother)
      cases hasked : ongoing.asked? with
      | none => rfl
      | some call =>
          rw [Ongoing.outcome?, hasked] at houtcome
          cases houtcome
    rw [hevent, hidle, h]
  · rw [outcome?_step_of_ne hevent, h]

theorem outcome?_run_of_some
    (h : world.outcome? i = some outcome)
    (events : List Event) :
    (world.run events).outcome? i = some outcome := by
  induction events generalizing world with
  | nil => exact h
  | cons event rest ih => exact ih (outcome?_step_of_some h event)

/-- The jobs stay what they are. -/
theorem job?_step
    (world : World)
    (event : Event)
    (i : Nat) :
    (world.step event).jobs[i]?.map Ongoing.job = world.jobs[i]?.map Ongoing.job := by
  cases event with
  | call j =>
      rcases world.call_cases j with ⟨hidle, -⟩ | ⟨ongoing, call, hjob, -, hstep, -⟩
      · rw [hidle]
      · rw [hstep]
        by_cases hindex : j = i
        · subst hindex
          obtain ⟨hlt, -⟩ := List.getElem?_eq_some_iff.1 hjob
          rw [List.getElem?_set_self hlt, hjob]
          rfl
        · rw [List.getElem?_set_ne hindex]
  | foreign call => rfl
  | insert key field value => rfl

theorem job?_run
    (world : World)
    (events : List Event)
    (i : Nat) :
    (world.run events).jobs[i]?.map Ongoing.job = world.jobs[i]?.map Ongoing.job := by
  induction events generalizing world with
  | nil => rfl
  | cons event rest ih => exact (ih (world.step event)).trans (world.job?_step event i)

/-- A job that succeeds in the course of some events succeeds with one of its own calls. -/
theorem exists_success
    (events : List Event)
    (hpending : world.outcome? i = none)
    (hsuccess : (world.run events).outcome? i = some outcome) :
    ∃ before after,
      events = before ++ .call i :: after ∧
      (world.run before).outcome? i = none ∧
      ((world.run before).step (.call i)).outcome? i = some outcome := by
  induction events generalizing world with
  | nil =>
      cases hpending.symm.trans hsuccess
  | cons event rest ih =>
      cases hnext : (world.step event).outcome? i with
      | none =>
          obtain ⟨before, after, rfl, hnone, hsome⟩ := ih hnext hsuccess
          exact ⟨event :: before, after, rfl, hnone, hsome⟩
      | some other =>
          obtain rfl := Option.some.inj ((outcome?_run_of_some hnext rest).symm.trans hsuccess)
          by_cases hevent : event = .call i
          · subst hevent
            exact ⟨[], rest, rfl, hpending, hnext⟩
          · rw [outcome?_step_of_ne hevent, hpending] at hnext
            cases hnext

end Outcome

/--
A job succeeds with its next call, which is a write unless the job only reads,
and leaves the records as it would have left them alone.
-/
structure Accomplishes
    (world : World)
    (i : Nat)
    (job : Job) : Prop where
  pending : world.outcome? i = none
  success : (world.step (.call i)).outcome? i = some (.ok ())
  writes : job.work.reads = false →
    ∃ ongoing key operation options,
      world.jobs[i]? = some ongoing ∧
      ongoing.asked? = some (.apply key operation options)
  alone : ∃ after,
    job.alone world.store = (.ok (), after) ∧
    after.records = (world.step (.call i)).store.records

section Call

variable {i coming : Nat}

/-- In a sound world a job that succeeds with a call has the effect that it has alone. -/
theorem Sound.accomplishes
    {job : Job}
    (h : world.Sound (coming + world.writes (.call i)))
    (hjob : world.jobs[i]?.map Ongoing.job = some job)
    (hpending : world.outcome? i = none)
    (hsuccess : (world.step (.call i)).outcome? i = some (.ok ())) :
    world.Accomplishes i job := by
  rcases world.call_cases i with ⟨hidle, -⟩ | ⟨ongoing, call, hongoing, hasked, hstep, hwrites⟩
  · rw [hidle, hpending] at hsuccess
    cases hsuccess
  · rw [hwrites] at h
    obtain ⟨hlt, -⟩ := List.getElem?_eq_some_iff.1 hongoing
    obtain rfl : ongoing.job = job := by
      rw [hongoing] at hjob
      exact Option.some.inj hjob
    have hanswered : (ongoing.answered (world.store.serve call).1).outcome? = some (.ok ()) := by
      rw [hstep, outcome?, List.getElem?_set_self hlt] at hsuccess
      exact hsuccess
    have hadvances := (h ongoing (List.mem_of_getElem? hongoing)).advances hasked
    obtain ⟨after, halone, hrecords⟩ := hadvances.alone hanswered
    refine ⟨hpending, hsuccess, ?_, after, halone, ?_⟩
    · intro hreads
      obtain ⟨key, operation, options, rfl⟩ := hadvances.writes hanswered hreads
      exact ⟨ongoing, key, operation, options, hongoing, hasked⟩
    · rw [hrecords, hstep]

/-- In a sound world a call with which no job succeeds changes no record. -/
theorem Sound.records_call
    (h : world.Sound (coming + world.writes (.call i)))
    (hfailure : world.outcome? i = none → (world.step (.call i)).outcome? i ≠ some (.ok ())) :
    (world.step (.call i)).store.records = world.store.records := by
  rcases world.call_cases i with ⟨hidle, -⟩ | ⟨ongoing, call, hongoing, hasked, hstep, hwrites⟩
  · rw [hidle]
  · rw [hwrites] at h
    obtain ⟨hlt, -⟩ := List.getElem?_eq_some_iff.1 hongoing
    have hpending : world.outcome? i = none := by
      rw [outcome?, hongoing, Option.bind_some, Ongoing.outcome?, hasked]
    have hanswered : (ongoing.answered (world.store.serve call).1).outcome? ≠ some (.ok ()) := by
      intro hsuccess
      refine hfailure hpending ?_
      rw [hstep, outcome?, List.getElem?_set_self hlt]
      exact hsuccess
    rw [hstep]
    exact ((h ongoing (List.mem_of_getElem? hongoing)).advances hasked).unchanged hanswered

end Call
end World

/-- What a deed makes of the records depends on the records only. -/
theorem Deed.carriedOut_congr
    {store other : MemoryStore}
    (h : store.records = other.records)
    (deed : Deed) :
    (deed.carriedOut store).records = (deed.carriedOut other).records := by
  cases deed with
  | operation job =>
      rw [carriedOut, carriedOut, Job.alone, Job.alone, Job.perform_eq, Job.perform_eq]
      exact (job.course.run_congr h).2
  | foreign call => exact (MemoryStore.serve_congr h call).2
  | insert key field value => simp only [carriedOut, MemoryStore.insert, MemoryStore.record?, h]

theorem records_foldl_congr
    {store other : MemoryStore}
    (h : store.records = other.records)
    (deeds : List Deed) :
    (deeds.foldl Deed.carriedOut store).records = (deeds.foldl Deed.carriedOut other).records := by
  induction deeds generalizing store other with
  | nil => exact h
  | cons deed rest ih => exact ih (deed.carriedOut_congr h)

namespace World

variable {world : World}

/-- What one event makes of the records is what is done with it as a whole, if anything is. -/
theorem Sound.records_step
    {coming : Nat}
    {event : Event}
    (h : world.Sound (coming + world.writes event)) :
    (world.step event).store.records =
      ((world.deeds event).foldl Deed.carriedOut world.store).records := by
  cases event with
  | call i =>
      rw [deeds]
      split
      · next ongoing hjob hpending hsuccess =>
          obtain ⟨-, -, -, after, halone, hrecords⟩ :=
            h.accomplishes (by rw [hjob]; rfl) hpending hsuccess
          rw [List.foldl_cons, List.foldl_nil, Deed.carriedOut, halone, hrecords]
      · next hother =>
          refine h.records_call ?_
          intro hpending hsuccess
          cases hjob : world.jobs[i]? with
          | none =>
              obtain ⟨hidle, -⟩ : world.step (.call i) = world ∧ world.writes (.call i) = 0 :=
                step_call_idle fun _ hsome => absurd (hjob.symm.trans hsome) (by simp)
              rw [hidle, hpending] at hsuccess
              cases hsuccess
          | some ongoing => exact hother ongoing hjob hpending hsuccess
  | foreign call =>
      rw [deeds]
      split
      · rfl
      · next hother => exact MemoryStore.records_serve hother
  | insert key field value => rfl

/-- What some events make of the records is what the deeds that succeed make of them in turn. -/
theorem Sound.records_run
    {events : List Event}
    (h : world.Sound (world.writesIn events)) :
    (world.run events).store.records =
      ((world.history events).foldl Deed.carriedOut world.store).records := by
  induction events generalizing world with
  | nil => rfl
  | cons event rest ih =>
      rw [history, List.foldl_append]
      exact (ih h.step).trans (records_foldl_congr h.records_step _)

end World

/--
No update is lost among clients that check generations. Whatever the order of
the calls on a shared store, and whatever others write in between, an operation
that succeeds leaves the records as it would have left them alone, on the store
as it was right before its last call, which is its write; an operation that
fails changes no record with any call; and so the records at the end are those
of the operations that succeeded, carried out one after another. The counters
of the records may start again meanwhile, as long as there are fewer writes than
there are generations.
-/
theorem no_update_lost
    {jobs : List Job}
    {store : MemoryStore}
    {events : List Event}
    (hguarded : ∀ job ∈ jobs, job.config.generationCheck = true)
    (hwrites : (World.start store jobs).writesIn events < UInt32.size - 1) :
    (∀ (i : Nat) (job : Job),
      jobs[i]? = some job →
      ((World.start store jobs).run events).outcome? i = some (.ok ()) →
        ∃ before after,
          events = before ++ .call i :: after ∧
          ((World.start store jobs).run before).Accomplishes i job) ∧
    (∀ (i : Nat) (error : DocumentError),
      ((World.start store jobs).run events).outcome? i = some (.error error) →
        ∀ before after, events = before ++ .call i :: after →
          (((World.start store jobs).run before).step (.call i)).store.records =
            ((World.start store jobs).run before).store.records) ∧
    ((World.start store jobs).run events).store.records =
      (((World.start store jobs).history events).foldl Deed.carriedOut store).records := by
  have hsound := World.sound_start hguarded hwrites store
  refine ⟨?_, ?_, hsound.records_run⟩
  · intro i job hjob hsuccess
    have hstart : (World.start store jobs).jobs[i]?.map Ongoing.job = some job := by
      simp [World.start, hjob]
    have hpending : (World.start store jobs).outcome? i = none := by
      cases hinitial : (World.start store jobs).outcome? i with
      | none => rfl
      | some outcome =>
          have hkept := World.outcome?_run_of_some hinitial events
          rw [Option.some.inj (hkept.symm.trans hsuccess)] at hinitial
          exact absurd hinitial (World.outcome?_start_ne_ok hguarded store i)
    obtain ⟨before, after, rfl, hnone, hsome⟩ := World.exists_success events hpending hsuccess
    refine ⟨before, after, rfl, hsound.run.accomplishes ?_ hnone hsome⟩
    rw [World.job?_run, hstart]
  · intro i error hfailure before after hevents
    subst hevents
    refine hsound.run.records_call fun _ hsuccess => ?_
    have hend := World.outcome?_run_of_some hsuccess after
    rw [World.run, List.foldl_append] at hfailure
    cases hfailure.symm.trans hend

/-- A guarded append of a number to a list. -/
def countJob
    (number : Int) :
    Job :=
  ⟨.full, ⟨true, none, none⟩, ⟨⟨"test", "docs", .text "k1"⟩, "doc", "$.counts", none⟩,
    .append (.int number)⟩

/-- A store with a list of one number, in a record whose counter is at its end. -/
def countStore : MemoryStore :=
  ⟨[(⟨"test", "docs", .text "k1"⟩, ⟨[("doc", .map [("counts", .list [.int 1])])], 4294967295⟩)],
    ⟨0, 0, 0⟩, []⟩

/-- The answer that both jobs get to their reads. -/
def countRead : Answer :=
  .fetched (.ok ⟨some (.list [.int 1]), 4294967295⟩)

/-- The course of such a job: the read, the write after it, and the end. -/
theorem resumes_countJob
    (number : Int) :
    (∃ next, Resumes (countJob number).course []
      (.fetch (countJob number).request.key (.act "doc" [] (.getByKey "counts")) none next)) ∧
    (∃ next, Resumes (countJob number).course [countRead]
      (.apply (countJob number).request.key
        (.act "doc" [] (.setByKey "counts" (.list [.int 1, .int number])))
        ⟨none, some 4294967295⟩ next)) ∧
    ∀ result, Resumes (countJob number).course [countRead, .applied result]
      (.done (written "$.counts" .writeBack result)) := by
  have hcompile : Path.Plan.compile .full "$.counts" =
      .ok ⟨"$.counts", ⟨"$.counts", none⟩, [], .access (.key "counts")⟩ := by
    decide +kernel
  have hplan : ((countJob number).client MemoryStore.backend).plan
      (countJob number).request.path =
      .ok ⟨"$.counts", ⟨"$.counts", none⟩, [], .access (.key "counts")⟩ := hcompile
  have hcourse : (countJob number).course =
      ((countJob number).client MemoryStore.backend).appending (countJob number).request
        (.int number) := rfl
  rw [hcourse, appending, hplan]
  exact ⟨⟨_, .here _⟩, ⟨_, .fetched (.here _)⟩, fun _ => .fetched (.applied (.here _))⟩

/-- The first write starts the counter again, and the second job finds it out. -/
theorem no_update_lost_counts :
    (World.start countStore [countJob 2, countJob 3]).writesIn
      [.call 0, .call 1, .call 0, .call 1] < UInt32.size - 1 ∧
    (∃ before after,
      [Event.call 0, .call 1, .call 0, .call 1] = before ++ .call 0 :: after ∧
      ((World.start countStore [countJob 2, countJob 3]).run before).Accomplishes 0 (countJob 2)) ∧
    ((World.start countStore [countJob 2, countJob 3]).run
      [.call 0, .call 1, .call 0, .call 1]).outcome? 1 = some (.error (.conflict "$.counts")) := by
  have hread (number : Int) : (⟨countJob number, []⟩ : Ongoing).asked? =
      some (.fetch (countJob number).request.key (.act "doc" [] (.getByKey "counts")) none) := by
    obtain ⟨⟨next, hresumes⟩, -, -⟩ := resumes_countJob number
    exact Ongoing.asked?_of_fetch hresumes
  have hwrite (number : Int) : (⟨countJob number, [countRead]⟩ : Ongoing).asked? =
      some (.apply (countJob number).request.key
        (.act "doc" [] (.setByKey "counts" (.list [.int 1, .int number])))
        ⟨none, some 4294967295⟩) := by
    obtain ⟨-, ⟨next, hresumes⟩, -⟩ := resumes_countJob number
    exact Ongoing.asked?_of_apply hresumes
  have hend (number : Int) (result : Except StoreError Nat) :
      (⟨countJob number, [countRead, .applied result]⟩ : Ongoing).outcome? =
        some (written "$.counts" .writeBack result) := by
    obtain ⟨-, -, hresumes⟩ := resumes_countJob number
    exact (@Ongoing.outcome?_of_done ⟨countJob number, [countRead, .applied result]⟩ _
      (hresumes result)).2
  have hrun : ((World.start countStore [countJob 2, countJob 3]).run
      [.call 0, .call 1, .call 0, .call 1]).jobs =
      [⟨countJob 2, [countRead, .applied (.ok 1)]⟩,
        ⟨countJob 3, [countRead, .applied (.error (.generationMismatch 4294967295 1))]⟩] := by
    rw [World.run_call ?_ (hread 2), World.run_call ?_ (hread 3), World.run_call ?_ (hwrite 2),
      World.run_call ?_ (hwrite 3)]
    · rfl
    · rfl
    · rfl
    · rfl
    · rfl
  have hguarded : ∀ job ∈ [countJob 2, countJob 3], job.config.generationCheck = true := by
    simp [countJob]
  have hwrites : (World.start countStore [countJob 2, countJob 3]).writesIn
      [.call 0, .call 1, .call 0, .call 1] < UInt32.size - 1 :=
    Nat.lt_of_le_of_lt (World.writesIn_le_length _ _) (by decide)
  obtain ⟨hsuccess, -⟩ := no_update_lost hguarded hwrites
  refine ⟨hwrites, hsuccess 0 (countJob 2) rfl ?_, ?_⟩
  · rw [World.outcome?, hrun]
    exact hend 2 (.ok 1)
  · rw [World.outcome?, hrun]
    exact hend 3 (.error (.generationMismatch 4294967295 1))

end Client
end FieldQuery
