import FieldQuery.Client.Account
import FieldQuery.Proofs.Reads

/-!
# Statistics and counters

A task makes some use of a client and of its store, and the uses of two tasks
one after another add up. An operation has one of three forms, each of which
both sides count as it is: it fails before any call, it is one write, or it is
one fetch that the rest of the operation goes on from. From the single
operation the counts of a whole run follow by induction.
-/

namespace FieldQuery

namespace Client

open Store (MemoryStore Counters Operation WriteOptions Fetched)

variable {α β : Type}

/-- The use that is made of a client and of its store. -/
structure Usage where
  fetches : Nat
  writes : Nat
  evaluations : Nat
  /-- Calls that the store has counted as failed. -/
  refusals : Nat

namespace Usage

/-- No use. -/
def zero : Usage :=
  ⟨0, 0, 0, 0⟩

/-- One use after another. -/
def add
    (first second : Usage) :
    Usage where
  fetches := first.fetches + second.fetches
  writes := first.writes + second.writes
  evaluations := first.evaluations + second.evaluations
  refusals := first.refusals + second.refusals

end Usage

/-- What a client has counted after some use. -/
def Statistics.charge
    (statistics : Statistics)
    (usage : Usage) :
    Statistics :=
  { statistics with
    fetches := statistics.fetches + usage.fetches
    writes := statistics.writes + usage.writes
    evaluations := statistics.evaluations + usage.evaluations }

theorem Statistics.charge_add
    (statistics : Statistics)
    (first second : Usage) :
    statistics.charge (first.add second) = (statistics.charge first).charge second := by
  simp only [charge, Usage.add, Nat.add_assoc]

/-- What a store has counted after some use. -/
def chargeStore
    (counters : Counters)
    (usage : Usage) :
    Counters where
  fetches := counters.fetches + usage.fetches
  applies := counters.applies + usage.writes
  failures := counters.failures + usage.refusals

theorem chargeStore_add
    (counters : Counters)
    (first second : Usage) :
    chargeStore counters (first.add second) = chargeStore (chargeStore counters first) second := by
  simp only [chargeStore, Usage.add, Nat.add_assoc]

/-- A task comes to an outcome and to a session, and makes some use that both sides count. -/
structure Takes
    (task : Task MemoryStore α)
    (before : Session MemoryStore)
    (outcome : Except DocumentError α)
    (after : Session MemoryStore)
    (usage : Usage) : Prop where
  carried : carryOut task before = (outcome, after)
  statistics : after.statistics = before.statistics.charge usage
  counters : after.store.counters = chargeStore before.store.counters usage

namespace Takes

variable {task : Task MemoryStore α}
variable {further : α → Task MemoryStore β}
variable {before middle after : Session MemoryStore}
variable {used more : Usage}

theorem lift
    (outcome : Except DocumentError α)
    (session : Session MemoryStore) :
    Takes (liftM outcome) session outcome session .zero := by
  cases outcome <;> exact ⟨rfl, rfl, rfl⟩

theorem bind_ok
    {value : α}
    {outcome : Except DocumentError β}
    (htask : Takes task before (.ok value) middle used)
    (hfurther : Takes (further value) middle outcome after more) :
    Takes (task >>= further) before outcome after (used.add more) := by
  constructor
  · rw [carryOut_bind, htask.carried]
    exact hfurther.carried
  · rw [hfurther.statistics, htask.statistics, Statistics.charge_add]
  · rw [hfurther.counters, htask.counters, chargeStore_add]

theorem bind_error
    {error : DocumentError}
    (htask : Takes task before (.error error) after used) :
    Takes (task >>= further) before (.error error) after used := by
  refine ⟨?_, htask.statistics, htask.counters⟩
  rw [carryOut_bind, htask.carried]

section Primitives

variable (client : Client MemoryStore)
variable (request : Request)
variable (session : Session MemoryStore)

/-- Both sides count a fetch, and the store also whether it failed. -/
theorem fetch
    (hbackend : client.backend = MemoryStore.backend)
    (operation : Operation)
    (policy : Option Policy) :
    Takes (client.fetch request operation policy) session
      (received request.path (session.store.read request.key operation))
      ⟨(session.store.fetch request.key operation policy).2,
        { session.statistics with fetches := session.statistics.fetches + 1 }⟩
      ⟨1, 0, 0, MemoryStore.failureCount (session.store.read request.key operation)⟩ := by
  refine ⟨?_, rfl, rfl⟩
  have hcall : carryOut (client.fetch request operation policy) session =
      carryOut (liftM (received request.path
          (client.backend.fetch session.store request.key operation policy).1))
        ⟨(client.backend.fetch session.store request.key operation policy).2,
          { session.statistics with fetches := session.statistics.fetches + 1 }⟩ := rfl
  rw [hcall, hbackend, (lift _ _).carried]
  rfl

/-- Both sides count a write, and the store also whether it failed. -/
theorem send
    (hbackend : client.backend = MemoryStore.backend)
    (operation : Operation)
    (options : WriteOptions)
    (phase : Phase) :
    Takes (client.send request operation options phase) session
      (written request.path phase (session.store.apply request.key operation options).1)
      ⟨(session.store.apply request.key operation options).2,
        { session.statistics with writes := session.statistics.writes + 1 }⟩
      ⟨0, 1, 0,
        MemoryStore.failureCount (session.store.write request.key operation options.expected)⟩ := by
  refine ⟨?_, rfl, rfl⟩
  have hcall : carryOut (client.send request operation options phase) session =
      carryOut (liftM (written request.path phase
          (client.backend.apply session.store request.key operation options).1))
        ⟨(client.backend.apply session.store request.key operation options).2,
          { session.statistics with writes := session.statistics.writes + 1 }⟩ := rfl
  rw [hcall, hbackend, (lift _ _).carried]
  rfl

/-- The client counts a query that is compiled, even if this fails. -/
theorem compileAdvanced
    (advanced : String) :
    Takes (client.compileAdvanced request advanced) session
      (compiled request.path (client.evaluator.compile advanced))
      ⟨session.store,
        { session.statistics with evaluations := session.statistics.evaluations + 1 }⟩
      ⟨0, 0, 1, 0⟩ := by
  refine ⟨?_, rfl, rfl⟩
  have hcall : carryOut (client.compileAdvanced request advanced) session =
      carryOut (liftM (compiled request.path (client.evaluator.compile advanced)))
        ⟨session.store,
          { session.statistics with evaluations := session.statistics.evaluations + 1 }⟩ := rfl
  rw [hcall, (lift _ _).carried]

end Primitives

end Takes

/-- One if an operation failed, and zero if it did not. -/
def missed :
    Except DocumentError α → Nat
  | .ok _ => 0
  | .error _ => 1

/--
A task that makes no fetch, but a given number of evaluations and, if it
succeeds, of writes. What the store refuses makes it fail.
-/
def Closes
    (evaluations writes : Nat)
    (task : Task MemoryStore α) : Prop :=
  ∀ session, ∃ outcome after written refusals,
    Takes task session outcome after ⟨0, written, evaluations, refusals⟩ ∧
    refusals ≤ missed outcome ∧
    ∀ value, outcome = .ok value → written = writes

namespace Closes

variable {writes : Nat}

theorem lift
    (outcome : Except DocumentError α) :
    Closes 0 0 (liftM outcome : Task MemoryStore α) :=
  fun session => ⟨outcome, session, 0, 0, .lift outcome session, Nat.zero_le _, fun _ _ => rfl⟩

theorem pure
    (value : α) :
    Closes 0 0 (Pure.pure value : Task MemoryStore α) :=
  lift (.ok value)

/-- What is known without the store comes first. -/
theorem lift_bind
    {further : α → Task MemoryStore β}
    (outcome : Except DocumentError α)
    (h : ∀ value, Closes 0 writes (further value)) :
    Closes 0 writes (liftM outcome >>= further) := by
  intro session
  have hlift := Takes.lift outcome session
  cases outcome with
  | error error =>
      refine ⟨_, _, _, _, hlift.bind_error, Nat.zero_le _, ?_⟩
      intro value hvalue
      cases hvalue
  | ok value =>
      obtain ⟨outcome, after, written, refusals, htakes, hrefusals, hwritten⟩ := h value session
      refine ⟨outcome, after, written, refusals, ?_, hrefusals, hwritten⟩
      simpa [Usage.add, Usage.zero] using hlift.bind_ok htakes

variable (client : Client MemoryStore)
variable (request : Request)

/-- A query is compiled first. -/
theorem compileAdvanced_bind
    {further : Query → Task MemoryStore α}
    (advanced : String)
    (h : ∀ query, Closes 0 writes (further query)) :
    Closes 1 writes (client.compileAdvanced request advanced >>= further) := by
  intro session
  have hcompile := Takes.compileAdvanced client request session advanced
  cases hquery : compiled request.path (client.evaluator.compile advanced) with
  | error error =>
      rw [hquery] at hcompile
      refine ⟨_, _, _, _, hcompile.bind_error, Nat.zero_le _, ?_⟩
      intro value hvalue
      cases hvalue
  | ok query =>
      rw [hquery] at hcompile
      obtain ⟨outcome, after, written, refusals, htakes, hrefusals, hwritten⟩ := h query _
      refine ⟨outcome, after, written, refusals, ?_, hrefusals, hwritten⟩
      simpa [Usage.add] using hcompile.bind_ok htakes

/-- A write comes last, and fails if the store refuses it. -/
theorem send
    (hbackend : client.backend = MemoryStore.backend)
    (operation : Operation)
    (options : WriteOptions)
    (phase : Phase) :
    Closes 0 1 (client.send request operation options phase) := by
  intro session
  refine ⟨_, _, _, _, .send client request session hbackend operation options phase, ?_,
    fun _ _ => rfl⟩
  cases hwrite : session.store.write request.key operation options.expected <;>
    simp [MemoryStore.apply, MemoryStore.failureCount, hwrite, Except.map, written, missed]

end Closes

/-- What an operation of a store uses, by the job that it is. -/
structure Job.Billed
    (job : Job)
    (store : MemoryStore)
    (outcome : Except DocumentError α)
    (usage : Usage) : Prop where
  refusals : usage.refusals ≤ missed outcome
  covered : usage.evaluations ≤ usage.fetches
  evaluations : usage.evaluations = if job.evaluates store then 1 else 0
  calls :
    ∀ value, outcome = .ok value →
      ∃ plan,
        Path.Plan.compile job.evaluator job.request.path = .ok plan ∧
        usage.fetches + usage.writes = job.roundTrips plan

/-- A task that uses what a job is billed for, apart from the operation itself. -/
def Job.Bills
    (job : Job)
    (task : Task MemoryStore α) : Prop :=
  ∀ session, ∃ outcome after usage,
    Takes task session outcome after usage ∧ job.Billed session.store outcome usage

namespace Job.Bills

variable {job : Job}
variable {plan : Path.Plan}

/-- Without a plan there is no use, and otherwise there is the use of what goes on with it. -/
theorem plan_bind
    {further : Path.Plan → Task MemoryStore α}
    (h : ∀ plan, Path.Plan.compile job.evaluator job.request.path = .ok plan →
      job.Bills (further plan)) :
    job.Bills (liftM ((job.client MemoryStore.backend).plan job.request.path) >>= further) := by
  intro session
  have hplan : (job.client MemoryStore.backend).plan job.request.path =
      Path.Plan.compile job.evaluator job.request.path := rfl
  have hlift := Takes.lift (Path.Plan.compile job.evaluator job.request.path) session
  rw [hplan]
  cases hcompile : Path.Plan.compile job.evaluator job.request.path with
  | error error =>
      rw [hcompile] at hlift
      refine ⟨_, _, _, hlift.bind_error, Nat.zero_le _, Nat.le_refl _, ?_, ?_⟩
      · rw [evaluates, hcompile]
        rfl
      · intro value hvalue
        cases hvalue
  | ok plan =>
      rw [hcompile] at hlift
      obtain ⟨outcome, after, usage, htakes, hbilled⟩ := h plan hcompile session
      have hzero : Usage.zero.add usage = usage := by
        simp [Usage.add, Usage.zero]
      exact ⟨outcome, after, usage, hzero ▸ hlift.bind_ok htakes, hbilled⟩

variable (hcompile : Path.Plan.compile job.evaluator job.request.path = .ok plan)

include hcompile

/-- A job that fetches: the rest of it begins where the fetch has returned a value. -/
theorem fetch_bind
    {writes : Nat}
    {further : Fragment → Task MemoryStore α}
    (policy : Option Policy)
    (hcalls : job.roundTrips plan = writes + 1)
    (h : ∀ fragment, Closes (if plan.isAdvanced then 1 else 0) writes (further fragment)) :
    job.Bills
      ((job.client MemoryStore.backend).fetch job.request (job.fetching plan) policy >>=
        further) := by
  intro session
  have hfetch := Takes.fetch (job.client MemoryStore.backend) job.request session rfl
    (job.fetching plan) policy
  have hevaluates : job.evaluates session.store =
      (plan.isAdvanced && ((session.store.read job.request.key
        (job.fetching plan)).toOption.bind Fetched.value).isSome) := by
    rw [evaluates, hcompile]
  have hmissing {error : DocumentError} {usage : Usage}
      (hnone : ((session.store.read job.request.key
        (job.fetching plan)).toOption.bind Fetched.value) = none)
      (hrefusals : usage.refusals ≤ 1)
      (hevaluations : usage.evaluations = 0) :
      job.Billed session.store (.error error : Except DocumentError α) usage := by
    refine ⟨hrefusals, by omega, ?_, ?_⟩
    · rw [hevaluates, hnone, hevaluations]
      simp
    · intro value hvalue
      cases hvalue
  cases hread : session.store.read job.request.key (job.fetching plan) with
  | error error =>
      rw [hread] at hfetch hmissing
      exact ⟨_, _, _, hfetch.bind_error, hmissing rfl (Nat.le_refl _) rfl⟩
  | ok fetched =>
      obtain ⟨value, generation⟩ := fetched
      cases value with
      | none =>
          rw [hread] at hfetch hmissing
          exact ⟨_, _, _, hfetch.bind_error, hmissing rfl (Nat.zero_le _) rfl⟩
      | some part =>
          rw [hread] at hfetch hevaluates
          obtain ⟨outcome, after, written, refusals, htakes, hrefusals, hwritten⟩ :=
            h ⟨part, generation⟩ _
          refine ⟨_, _, _, hfetch.bind_ok htakes, ?_, ?_, ?_, ?_⟩
          · simpa [Usage.add, MemoryStore.failureCount] using hrefusals
          · simp only [Usage.add]
            split <;> omega
          · rw [hevaluates]
            simp [Usage.add, Except.toOption]
          · intro value hvalue
            refine ⟨plan, hcompile, ?_⟩
            simp only [Usage.add, hwritten value hvalue, hcalls]
            omega

/-- A job that is one write. -/
theorem send
    (hplain : plan.advanced = none)
    (hcalls : job.roundTrips plan = 1)
    (operation : Operation)
    (options : WriteOptions)
    (phase : Phase) :
    job.Bills
      ((job.client MemoryStore.backend).send job.request operation options phase) := by
  intro session
  obtain ⟨outcome, after, written, refusals, htakes, hrefusals, hwritten⟩ :=
    Closes.send (job.client MemoryStore.backend) job.request rfl operation options phase session
  refine ⟨outcome, after, _, htakes, hrefusals, Nat.le_refl _, ?_, ?_⟩
  · rw [evaluates, hcompile]
    simp [Path.Plan.isAdvanced, hplain]
  · intro value hvalue
    refine ⟨plan, hcompile, ?_⟩
    simp only [hcalls, hwritten value hvalue, Nat.zero_add]

omit hcompile

/-- What is made of the value of a task without the store is not billed. -/
theorem lift_after
    {task : Task MemoryStore α}
    {further : α → Task MemoryStore β}
    (h : job.Bills task)
    (hfurther : ∀ value, ∃ outcome : Except DocumentError β, further value = liftM outcome) :
    job.Bills (task >>= further) := by
  intro session
  obtain ⟨outcome, after, usage, htakes, hbilled⟩ := h session
  cases outcome with
  | error error =>
      refine ⟨_, _, _, htakes.bind_error, hbilled.refusals, hbilled.covered,
        hbilled.evaluations, ?_⟩
      intro value hvalue
      cases hvalue
  | ok value =>
      obtain ⟨last, hlast⟩ := hfurther value
      have hend : Takes (further value) after last after .zero := by
        rw [hlast]
        exact .lift last after
      have hzero : usage.add .zero = usage := rfl
      refine ⟨last, after, usage, hzero ▸ htakes.bind_ok hend, ?_, hbilled.covered,
        hbilled.evaluations, fun _ _ => hbilled.calls value rfl⟩
      exact Nat.le_trans hbilled.refusals (Nat.zero_le _)

end Job.Bills

/-- What a job is billed for, the operation itself included. -/
def Job.Counts
    (job : Job)
    (task : Task MemoryStore α) : Prop :=
  ∀ session, ∃ usage,
    job.Billed session.store (carryOut task session).1 usage ∧
    (carryOut task session).2.statistics =
      (session.statistics.charge usage).operation (carryOut task session).1.toOption.isSome ∧
    (carryOut task session).2.store.counters = chargeStore session.store.counters usage

section Operations

variable {job : Job}
variable {value : Value}

theorem Job.Counts.counted
    {task : Task MemoryStore α}
    (h : job.Bills task) :
    job.Counts (Client.counted task) := by
  intro session
  obtain ⟨outcome, after, usage, htakes, hbilled⟩ := h session
  have hrun : carryOut (Client.counted task) session =
      ((carryOut task session).1,
        { (carryOut task session).2 with
          statistics := (carryOut task session).2.statistics.operation
            (carryOut task session).1.toOption.isSome }) := rfl
  rw [hrun, htakes.carried]
  refine ⟨usage, hbilled, ?_, htakes.counters⟩
  rw [htakes.statistics]

/-- Whether the value of an operation is kept is not counted. -/
theorem Job.Counts.discard
    {task : Task MemoryStore α}
    (h : job.Counts task) :
    job.Counts (do let _ ← task; return ()) := by
  intro session
  obtain ⟨usage, hbilled, hstatistics, hcounters⟩ := h session
  have hrun : carryOut (do let _ ← task; return ()) session =
      ((carryOut task session).1.map fun _ => (), (carryOut task session).2) := by
    rw [carryOut_bind]
    rcases carryOut task session with ⟨outcome, after⟩
    cases outcome <;> rfl
  rw [hrun]
  refine ⟨usage, ?_, ?_, hcounters⟩
  · obtain ⟨hrefusals, hcovered, hevaluations, hcalls⟩ := hbilled
    cases houtcome : (carryOut task session).1 with
    | error error =>
        rw [houtcome] at hrefusals
        refine ⟨hrefusals, hcovered, hevaluations, ?_⟩
        intro value hvalue
        cases hvalue
    | ok value =>
        rw [houtcome] at hrefusals
        exact ⟨hrefusals, hcovered, hevaluations, fun _ _ => hcalls value houtcome⟩
  · rw [hstatistics]
    cases (carryOut task session).1 <;> rfl

theorem roundTrips_of_reads
    (h : job.work.reads = true)
    (plan : Path.Plan) :
    job.roundTrips plan = 1 := by
  rw [Job.roundTrips]
  cases hwork : job.work with
  | get => rfl
  | getAll => rfl
  | _ =>
      rw [hwork] at h
      cases h

theorem bills_select
    (h : job.work.reads = true) :
    job.Bills ((job.client MemoryStore.backend).select job.request) := by
  refine .plan_bind fun plan hplan => .fetch_bind hplan _ (roundTrips_of_reads h plan) ?_
  intro fragment
  rw [Path.Plan.isAdvanced]
  cases plan.advanced with
  | none => exact .pure _
  | some advanced => exact .compileAdvanced_bind _ _ _ fun _ => .pure _

theorem counts_get
    (h : job.work.reads = true) :
    job.Counts ((job.client MemoryStore.backend).get job.request) :=
  .counted (.lift_after (bills_select h) fun _ => ⟨_, rfl⟩)

theorem counts_getAll
    (h : job.work.reads = true) :
    job.Counts ((job.client MemoryStore.backend).getAll job.request) := by
  refine .counted (.lift_after (bills_select h) fun (_, selection) => ?_)
  cases selection with
  | single value => exact ⟨.ok [value], rfl⟩
  | several values => exact ⟨.ok values, rfl⟩

/-- A direct write, or a fetch with an edit and a write-back behind it. -/
theorem counts_change
    {operation : Path.Plan → Operation}
    {phase : Phase}
    {edit : Query → Value → Except QueryError (Value × Nat)}
    (hcalls : ∀ plan, job.roundTrips plan = if plan.isAdvanced then 2 else 1) :
    job.Counts
      ((job.client MemoryStore.backend).change job.request operation phase edit) := by
  refine .counted (.plan_bind fun plan hplan => ?_)
  have hplanCalls := hcalls plan
  rw [Path.Plan.isAdvanced] at hplanCalls
  cases hadvanced : plan.advanced with
  | none =>
      rw [hadvanced] at hplanCalls
      exact .send hplan hadvanced hplanCalls _ _ _
  | some advanced =>
      rw [hadvanced] at hplanCalls
      refine .fetch_bind hplan _ hplanCalls fun fragment => ?_
      rw [Path.Plan.isAdvanced, hadvanced]
      refine .compileAdvanced_bind _ _ _ fun query => .lift_bind _ fun _ => ?_
      exact .send _ _ rfl _ _ _

theorem counts_put
    (hwork : job.work = .put value) :
    job.Counts ((job.client MemoryStore.backend).put job.request value) := by
  refine counts_change fun plan => ?_
  rw [Job.roundTrips, hwork, Path.Plan.isAdvanced]
  cases plan.advanced <;> rfl

theorem counts_append
    (hwork : job.work = .append value) :
    job.Counts ((job.client MemoryStore.backend).append job.request value) := by
  refine .counted (.plan_bind fun plan hplan => ?_)
  have hcalls : job.roundTrips plan = 2 := by
    rw [Job.roundTrips, hwork]
  refine .fetch_bind hplan _ hcalls fun fragment => ?_
  rw [Path.Plan.isAdvanced]
  cases plan.advanced with
  | none => exact .lift_bind _ fun _ => .send _ _ rfl _ _ _
  | some advanced =>
      refine .compileAdvanced_bind _ _ _ fun query => .lift_bind _ fun _ => ?_
      exact .send _ _ rfl _ _ _

theorem counts_delete
    (hwork : job.work = .delete) :
    job.Counts ((job.client MemoryStore.backend).delete job.request) := by
  refine counts_change fun plan => ?_
  rw [Job.roundTrips, hwork, Path.Plan.isAdvanced]
  cases plan.advanced <;> rfl

/-- Each operation of a client counts as what it is. -/
theorem Job.counts
    (job : Job) :
    job.Counts (job.task (job.client MemoryStore.backend)) := by
  rw [task]
  cases hwork : job.work with
  | get => exact .discard (counts_get (by rw [hwork]; rfl))
  | getAll => exact .discard (counts_getAll (by rw [hwork]; rfl))
  | put value => exact counts_put hwork
  | append value => exact counts_append hwork
  | delete => exact counts_delete hwork

end Operations

/--
Two sessions and the operations between them, as client and store have counted
them: what they count both they count alike.
-/
structure Session.Accounted
    (before after : Session MemoryStore)
    (entries : List Entry) : Prop where
  operations :
    after.statistics.operations = before.statistics.operations + entries.length
  failures :
    after.statistics.failures = before.statistics.failures + entries.countP Entry.failed
  fetches :
    after.statistics.fetches + before.store.counters.fetches =
      before.statistics.fetches + after.store.counters.fetches
  writes :
    after.statistics.writes + before.store.counters.applies =
      before.statistics.writes + after.store.counters.applies
  evaluations :
    after.statistics.evaluations = before.statistics.evaluations + entries.countP Entry.evaluated
  covered :
    after.statistics.evaluations + before.statistics.fetches ≤
      before.statistics.evaluations + after.statistics.fetches
  refusals :
    after.store.counters.failures + before.statistics.failures ≤
      before.store.counters.failures + after.statistics.failures

namespace Session.Accounted

variable {before middle after : Session MemoryStore}

/-- What does not touch the counts is no operation. -/
theorem none
    (hstatistics : after.statistics = before.statistics)
    (hcounters : after.store.counters = before.store.counters) :
    before.Accounted after [] := by
  constructor <;> simp [hstatistics, hcounters]

theorem trans
    {first second : List Entry}
    (hfirst : before.Accounted middle first)
    (hsecond : middle.Accounted after second) :
    before.Accounted after (first ++ second) := by
  obtain ⟨ho, hf, hr, hw, he, hc, hn⟩ := hfirst
  obtain ⟨ho', hf', hr', hw', he', hc', hn'⟩ := hsecond
  constructor
  · rw [List.length_append]
    omega
  · rw [List.countP_append]
    omega
  · omega
  · omega
  · rw [List.countP_append]
    omega
  · omega
  · omega

end Session.Accounted

/-- A successful operation has made the native calls that belong to it, as either side counts. -/
structure Entry.Paid
    (entry : Entry)
    (plan : Path.Plan) : Prop where
  planned : Path.Plan.compile entry.job.evaluator entry.job.request.path = .ok plan
  made :
    entry.after.statistics.nativeCalls =
      entry.before.statistics.nativeCalls + entry.job.roundTrips plan
  served :
    entry.after.store.counters.roundTrips =
      entry.before.store.counters.roundTrips + entry.job.roundTrips plan

/-- Whether an operation has made the native calls that belong to it, if it succeeded. -/
def Entry.Fair
    (entry : Entry) : Prop :=
  entry.outcome = .ok () → ∃ plan, entry.Paid plan

/-- A single operation is accounted for. -/
theorem accounted_operation
    {job : Job}
    {session after : Session MemoryStore}
    {outcome : Except DocumentError Unit}
    (h : carryOut (job.task (job.client MemoryStore.backend)) session = (outcome, after)) :
    session.Accounted after [⟨job, session, outcome, after⟩] := by
  obtain ⟨usage, ⟨hrefusals, hcovered, hevaluations, -⟩, hstatistics, hcounters⟩ :=
    job.counts session
  rw [h] at hrefusals hstatistics hcounters
  dsimp only at hrefusals hstatistics hcounters
  constructor <;>
    simp only [hstatistics, hcounters, Statistics.operation, Statistics.charge, chargeStore]
  · rfl
  · cases outcome <;> rfl
  · omega
  · omega
  · rw [hevaluations, List.countP_singleton]
    rfl
  · omega
  · cases outcome with
    | ok value =>
        rw [missed] at hrefusals
        simp only [Except.toOption, Option.isSome_some, if_true]
        omega
    | error error =>
        rw [missed] at hrefusals
        simp only [Except.toOption, Option.isSome_none, Bool.false_eq_true, if_false]
        omega

theorem fair_operation
    {job : Job}
    {session after : Session MemoryStore}
    {outcome : Except DocumentError Unit}
    (h : carryOut (job.task (job.client MemoryStore.backend)) session = (outcome, after)) :
    Entry.Fair ⟨job, session, outcome, after⟩ := by
  rintro rfl
  obtain ⟨usage, ⟨-, -, -, hcalls⟩, hstatistics, hcounters⟩ := job.counts session
  rw [h] at hcalls hstatistics hcounters
  obtain ⟨plan, hplan, htrips⟩ := hcalls () rfl
  dsimp only at hstatistics hcounters
  refine ⟨plan, hplan, ?_, ?_⟩
  · simp only [hstatistics, Statistics.nativeCalls, Statistics.operation, Statistics.charge]
    omega
  · simp only [hcounters, Store.Counters.roundTrips, chargeStore]
    omega

section Run

variable {client : Client MemoryStore}
variable (hbackend : client.backend = MemoryStore.backend)
variable (session : Session MemoryStore)

include hbackend

theorem client_job
    (request : Request)
    (work : Work) :
    (client.job request work).client MemoryStore.backend = client := by
  rw [← hbackend]
  rfl

/-- Whatever happens is accounted for, and is fair to the client. -/
theorem accounted_afterOne
    (happening : Happening) :
    session.Accounted (client.afterOne session happening) (client.entries session happening) ∧
      ∀ entry ∈ client.entries session happening, entry.Fair := by
  cases happening with
  | operation request work =>
      have hrun : carryOut ((client.job request work).task
            ((client.job request work).client MemoryStore.backend)) session =
          carryOut ((client.job request work).task client) session := by
        rw [client_job hbackend]
      have haccounted := accounted_operation hrun
      have hfair := fair_operation hrun
      exact ⟨haccounted, fun entry hentry => List.mem_singleton.1 hentry ▸ hfair⟩
  | planning path =>
      refine ⟨.none ?_ ?_, fun entry hentry => absurd hentry List.not_mem_nil⟩
      · rw [afterOne, (Takes.lift _ _).carried]
      · rw [afterOne, (Takes.lift _ _).carried]
  | insertion key field value =>
      exact ⟨.none rfl rfl, fun entry hentry => absurd hentry List.not_mem_nil⟩
  | removal key =>
      exact ⟨.none rfl rfl, fun entry hentry => absurd hentry List.not_mem_nil⟩

/-- What holds of one thing that happens holds of a run. -/
theorem accounted_afterAll
    (happenings : List Happening) :
    session.Accounted (client.afterAll session happenings) (client.log session happenings) ∧
      ∀ entry ∈ client.log session happenings, entry.Fair := by
  induction happenings generalizing session with
  | nil => exact ⟨.none rfl rfl, fun entry hentry => absurd hentry List.not_mem_nil⟩
  | cons happening rest ih =>
      obtain ⟨hone, hfair⟩ := accounted_afterOne hbackend session happening
      obtain ⟨hall, hfairs⟩ := ih (client.afterOne session happening)
      refine ⟨hone.trans hall, ?_⟩
      intro entry hentry
      rcases List.mem_append.1 hentry with hfirst | hlater
      · exact hfair entry hfirst
      · exact hfairs entry hlater

end Run

/--
The counts of a client with a memory store of its own, which has counted
nothing before, after any run: operations and failures are what the log of the
run says, native calls are what the store has counted, a query is evaluated for
each operation that had a value to evaluate it on, and the store has seen no
failure that is none of the client's. Each operation that succeeds has made one
native call, or two if it had to change a part of a document in memory.
-/
theorem statistics_account
    (evaluator : Query.Evaluator)
    (config : Config)
    (records : Store.Records)
    (journal : List String)
    (happenings : List Happening) :
    let client : Client MemoryStore := ⟨MemoryStore.backend, evaluator, config⟩
    let start : Session MemoryStore := .start ⟨records, ⟨0, 0, 0⟩, journal⟩
    let statistics := (client.afterAll start happenings).statistics
    let counters := (client.afterAll start happenings).store.counters
    let entries := client.log start happenings
    statistics.operations = entries.length ∧
    statistics.failures = entries.countP Entry.failed ∧
    statistics.fetches = counters.fetches ∧
    statistics.writes = counters.applies ∧
    statistics.evaluations ≤ statistics.fetches ∧
    statistics.evaluations = entries.countP Entry.evaluated ∧
    counters.failures ≤ statistics.failures ∧
    ∀ entry ∈ entries, entry.outcome = .ok () → ∃ plan, entry.Paid plan := by
  intro client start statistics counters entries
  obtain ⟨⟨hoperations, hfailures, hfetches, hwrites, hevaluations, hcovered, hrefusals⟩, hfair⟩ :=
    @accounted_afterAll client rfl start happenings
  have hstatistics : start.statistics = .zero := rfl
  have hcounters : start.store.counters = ⟨0, 0, 0⟩ := rfl
  simp only [hstatistics, hcounters, Statistics.zero, Nat.zero_add, Nat.add_zero] at *
  exact ⟨hoperations, hfailures, hfetches, hwrites, hcovered, hevaluations, hrefusals, hfair⟩

/-- A run on the books, which are not there at first. -/
def bookHappenings : List Happening :=
  [ .operation { bookRequest with path := "$.shelf" } (.append .null),
    .insertion bookRequest.key bookRequest.field books,
    .operation { bookRequest with path := "$.shelf" } (.append .null),
    .operation { bookRequest with path := "$..title" } .get,
    .planning "$.shelf",
    .operation { bookRequest with path := "shelf" } .delete ]

/-- Of four operations one finds no books, and one has a path that is refused before any call. -/
theorem statistics_account_books :
    ((inMemory .default).afterAll (.start .empty) bookHappenings).statistics = ⟨4, 3, 1, 1, 2⟩ ∧
    ((inMemory .default).log (.start .empty) bookHappenings).countP Entry.failed = 2 ∧
    ((inMemory .default).afterAll (.start .empty) bookHappenings).store.counters.roundTrips =
      4 := by
  have hstatistics : ((inMemory .default).afterAll (.start .empty) bookHappenings).statistics =
      ⟨4, 3, 1, 1, 2⟩ := by
    decide +kernel
  obtain ⟨-, hfailures, hfetches, hwrites, -⟩ :=
    statistics_account .full .default [] [] bookHappenings
  refine ⟨hstatistics, hfailures.symm.trans (congrArg Statistics.failures hstatistics), ?_⟩
  rw [Store.Counters.roundTrips]
  refine (congrArg₂ _ hfetches.symm hwrites.symm).trans ?_
  exact congrArg (fun statistics => statistics.fetches + statistics.writes) hstatistics

end Client
end FieldQuery
