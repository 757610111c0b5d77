import FieldQuery.Client.Course

/-!
# Tasks and their courses

Each operation of a client follows a course: in every session it comes to
what the course comes to, and leaves the store as the course does. The courses
of composed tasks are composed of the courses of their parts.
-/

namespace FieldQuery
namespace Client

open Store (Operation WriteOptions)

variable {σ α β : Type}

/-- A task that is composed of two goes on with the second only if the first succeeds. -/
theorem carryOut_bind
    (task : Task σ α)
    (further : α → Task σ β)
    (session : Session σ) :
    carryOut (task >>= further) session =
      match carryOut task session with
      | (.ok value, after) => carryOut (further value) after
      | (.error error, after) => (.error error, after) := by
  have hrun : carryOut (task >>= further) session =
      Id.run (StateT.run (ExceptT.bindCont further (carryOut task session).1)
        (carryOut task session).2) := rfl
  rw [hrun]
  rcases carryOut task session with ⟨outcome, after⟩
  cases outcome <;> rfl

/-- The run of a composed course, part by part. -/
theorem Course.run_bind
    (backend : Store.Backend σ)
    (course : Course α)
    (further : α → Course β)
    (store : σ) :
    (course.bind further).run backend store =
      match course.run backend store with
      | (.ok value, after) => (further value).run backend after
      | (.error error, after) => (.error error, after) := by
  induction course generalizing store with
  | done outcome => cases outcome <;> rfl
  | fetch key operation policy next ih => exact ih _ _
  | apply key operation options next ih => exact ih _ _

/-- A task that comes to what a course comes to, and changes the store as it does. -/
def Follows
    (client : Client σ)
    (task : Task σ α)
    (course : Course α) : Prop :=
  ∀ session, ∃ statistics,
    carryOut task session =
      ((course.run client.backend session.store).1,
        ⟨(course.run client.backend session.store).2, statistics⟩)

namespace Follows

variable {client : Client σ}

theorem outcome
    {task : Task σ α}
    {course : Course α}
    (h : client.Follows task course)
    (session : Session σ) :
    (carryOut task session).1 = (course.run client.backend session.store).1 := by
  obtain ⟨statistics, hcarried⟩ := h session
  rw [hcarried]

theorem run_eq
    {task : Task σ α}
    {course : Course α}
    {outcome : Except DocumentError α}
    {session after : Session σ}
    (h : client.Follows task course)
    (hcarried : carryOut task session = (outcome, after)) :
    course.run client.backend session.store = (outcome, after.store) := by
  obtain ⟨statistics, hcourse⟩ := h session
  obtain ⟨houtcome, hafter⟩ := Prod.mk.inj (hcourse.symm.trans hcarried)
  rw [← hafter, ← houtcome]

theorem done
    {task : Task σ α}
    {outcome : Except DocumentError α}
    (h : ∀ session, carryOut task session = (outcome, session)) :
    client.Follows task (.done outcome) :=
  fun session => ⟨session.statistics, h session⟩

theorem pure
    (value : α) :
    client.Follows (Pure.pure value) (.done (.ok value)) :=
  done fun _ => rfl

theorem lift
    (outcome : Except DocumentError α) :
    client.Follows (liftM outcome) (.done outcome) :=
  done fun _ => by cases outcome <;> rfl

theorem bind
    {task : Task σ α}
    {course : Course α}
    {further : α → Task σ β}
    {next : α → Course β}
    (htask : client.Follows task course)
    (hfurther : ∀ value, client.Follows (further value) (next value)) :
    client.Follows (task >>= further) (course.bind next) := by
  intro session
  obtain ⟨statistics, hcarried⟩ := htask session
  rw [carryOut_bind, hcarried, Course.run_bind]
  rcases course.run client.backend session.store with ⟨outcome, store⟩
  cases outcome with
  | ok value => exact hfurther value ⟨store, statistics⟩
  | error error => exact ⟨statistics, rfl⟩

theorem map
    {task : Task σ α}
    {outcome : Except DocumentError α}
    (h : client.Follows task (.done outcome))
    (f : α → β) :
    client.Follows (do return f (← task)) (.done (outcome.map f)) := by
  have hbind := bind h fun value => pure (f value)
  cases outcome with
  | ok value => exact hbind
  | error error => exact hbind

/-- A count changes the statistics only. -/
theorem count
    {task : Task σ α}
    {course : Course α}
    (change : Statistics → Statistics)
    (h : client.Follows task course) :
    client.Follows (do Client.count change; task) course := by
  intro session
  exact h { session with statistics := change session.statistics }

theorem counted
    {task : Task σ α}
    {course : Course α}
    (h : client.Follows task course) :
    client.Follows (Client.counted task) course := by
  intro session
  obtain ⟨statistics, hcarried⟩ := h session
  have hrun : carryOut (Client.counted task) session =
      ((carryOut task session).1,
        { (carryOut task session).2 with
          statistics := (carryOut task session).2.statistics.operation
            (carryOut task session).1.toOption.isSome }) := rfl
  rw [hrun, hcarried]
  exact ⟨_, rfl⟩

/-- A native read, and a task that goes on with the answer. -/
theorem call_fetch
    {further : Except Store.StoreError Store.Fetched → Task σ α}
    {next : Except Store.StoreError Store.Fetched → Course α}
    (key : Store.RecordKey)
    (operation : Operation)
    (policy : Option Policy)
    (h : ∀ result, client.Follows (further result) (next result)) :
    client.Follows
      (do
        let session ← MonadState.get
        let (result, store) := client.backend.fetch session.store key operation policy
        set { session with store := store }
        further result)
      (.fetch key operation policy next) :=
  fun session => h _ ⟨_, session.statistics⟩

/-- A native write, and a task that goes on with the answer. -/
theorem call_apply
    {further : Except Store.StoreError Nat → Task σ α}
    {next : Except Store.StoreError Nat → Course α}
    (key : Store.RecordKey)
    (operation : Operation)
    (options : WriteOptions)
    (h : ∀ result, client.Follows (further result) (next result)) :
    client.Follows
      (do
        let session ← MonadState.get
        let (result, store) := client.backend.apply session.store key operation options
        set { session with store := store }
        further result)
      (.apply key operation options next) :=
  fun session => h _ ⟨_, session.statistics⟩

theorem fetch
    (request : Request)
    (operation : Operation)
    (policy : Option Policy) :
    client.Follows (client.fetch request operation policy)
      (.fetching request operation policy) :=
  count _ (call_fetch request.key operation policy fun result =>
    lift (received request.path result))

theorem send
    (request : Request)
    (operation : Operation)
    (options : WriteOptions)
    (phase : Phase) :
    client.Follows (client.send request operation options phase)
      (.sending request operation options phase) :=
  count _ (call_apply request.key operation options fun result =>
    lift (written request.path phase result))

theorem compileAdvanced
    (request : Request)
    (advanced : String) :
    client.Follows (client.compileAdvanced request advanced)
      (.done (compiled request.path (client.evaluator.compile advanced))) :=
  count _ (lift _)

end Follows

/-- A course can go on with each of two outcomes in turn. -/
theorem Course.done_bind
    (outcome : Except DocumentError α)
    (further : α → Except DocumentError β)
    {γ : Type}
    (next : β → Course γ) :
    (Course.done (outcome >>= further)).bind next =
      (Course.done outcome).bind fun value => (Course.done (further value)).bind next := by
  cases outcome <;> rfl

section Operations

variable (client : Client σ)
variable (request : Request)
variable (value : Value)

theorem follows_select :
    client.Follows (client.select request) (client.selecting request) := by
  refine .bind (.lift _) fun plan => .bind (.fetch _ _ _) fun fragment => ?_
  rw [selectIn]
  cases plan.advanced with
  | none => exact .pure _
  | some advanced =>
      have hmap := (Follows.compileAdvanced request advanced : client.Follows _ _).map
        fun query => (plan, Selection.several (query.find fragment.value))
      cases hcompiled : compiled request.path (client.evaluator.compile advanced) with
      | ok query =>
          rw [hcompiled] at hmap
          simp only [hcompiled]
          exact hmap
      | error error =>
          rw [hcompiled] at hmap
          simp only [hcompiled]
          exact hmap

theorem follows_get :
    client.Follows (client.get request) (client.getting request) :=
  .counted (.bind (client.follows_select request) fun _ => .lift _)

theorem follows_getAll :
    client.Follows (client.getAll request) (client.gettingAll request) := by
  refine .counted (.bind (client.follows_select request) fun (_, selection) => ?_)
  cases selection with
  | single value => exact .pure _
  | several values => exact .pure _

/-- A write-back follows the course of its edit. -/
theorem follows_rewriting
    {plan : Path.Plan}
    {edit : Value → Except DocumentError Value}
    {further : Fragment → Task σ Unit}
    (h : ∀ fragment, client.Follows (further fragment)
      ((Course.done (edit fragment.value)).bind fun changed =>
        .sending request
          (Operation.put request.field plan.contexts changed plan.last)
          (client.writeBackOptions (client.policyForWrite request) fragment.generation)
          .writeBack)) :
    client.Follows (client.fetchForWrite request plan >>= further)
      (client.rewriting request plan edit) :=
  .bind (.fetch _ _ _) h

theorem follows_change
    (operation : Path.Plan → Operation)
    (phase : Phase)
    (edit : Query → Value → Except QueryError (Value × Nat)) :
    client.Follows (client.change request operation phase edit)
      (client.changing request operation phase edit) := by
  refine .counted (.bind (.lift _) ?_)
  intro plan
  cases plan.advanced with
  | none => exact .send _ _ _ _
  | some advanced =>
      refine client.follows_rewriting request ?_
      intro fragment
      rw [changedBy, Course.done_bind]
      refine .bind (.compileAdvanced _ _) ?_
      intro query
      rw [Course.done_bind]
      exact .bind (.lift _) fun _ => .send _ _ _ _

theorem follows_put :
    client.Follows (client.put request value) (client.putting request value) :=
  client.follows_change request _ _ _

theorem follows_append :
    client.Follows (client.append request value) (client.appending request value) := by
  refine .counted (.bind (.lift _) fun plan => client.follows_rewriting request fun fragment => ?_)
  cases plan.advanced with
  | none => exact .bind (.lift _) fun _ => .send _ _ _ _
  | some advanced =>
      rw [extended, Course.done_bind]
      refine .bind (.compileAdvanced _ _) ?_
      intro query
      rw [Course.done_bind]
      exact .bind (.lift _) fun _ => .send _ _ _ _

theorem follows_delete :
    client.Follows (client.delete request) (client.deleting request) :=
  client.follows_change request _ _ _

end Operations

section Edits

variable {client : Client σ}
variable {request : Request}
variable {source : String}
variable {query : Query}
variable {value part : Value}

/-- An edit with an advanced part that is compiled is an edit with its query. -/
theorem changedBy_eq_edited
    (edit : Query → Value → Except QueryError (Value × Nat))
    (hcompile : client.evaluator.compile source = .ok query) :
    client.changedBy request edit source part =
      edited request.path ((edit query part).map Prod.fst) := by
  simp only [changedBy, hcompile, compiled, bind, Except.bind]
  cases edit query part <;> rfl

theorem extended_eq_edited
    (hcompile : client.evaluator.compile source = .ok query) :
    client.extended request value (some source) part =
      edited request.path
        ((query.append part value).2.map fun _ => (query.append part value).1) := by
  simp only [extended, hcompile, compiled, bind, Except.bind]
  cases (query.append part value).2 with
  | ok count => rfl
  | error error => rfl

theorem eq_ok_of_edited
    {path : String}
    {outcome : Except QueryError Value}
    (h : edited path outcome = .ok value) :
    outcome = .ok value := by
  cases outcome with
  | ok result => exact congrArg Except.ok (Except.ok.inj h)
  | error error => cases h

end Edits
end Client
end FieldQuery
