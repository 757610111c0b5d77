import FieldQuery.Proofs.Courses
import FieldQuery.Proofs.Native

/-!
# Reads of well-spelled paths

A read takes the native part of its path from the store and evaluates the rest
on what it gets. For a well-spelled path this comes to the evaluation of the
whole query on the whole field, and it fails exactly if the leading run of the
query leads nowhere.
-/

namespace FieldQuery

namespace Query

/-- A query without choices yields one value at most. -/
theorem length_select_le_one
    {selectors : List Selector}
    (h : selectors.all Selector.isSingular = true)
    (node : Value) :
    (select selectors node).length ≤ 1 := by
  induction selectors generalizing node with
  | nil =>
      exact Nat.le_refl 1
  | cons selector rest ih =>
      rw [List.all_cons, Bool.and_eq_true] at h
      have hreach : ∀ accessor, selector = .choose (.access accessor) →
          (select (selector :: rest) node).length ≤ 1 := by
        rintro accessor rfl
        rw [select_cons, Selector.reach, Choice.children]
        cases accessor.locate? node with
        | none => exact Nat.zero_le 1
        | some located => simpa [below, oneStep] using ih h.2 located.2
      cases selector with
      | choose choice =>
          cases choice with
          | access accessor => exact hreach accessor rfl
          | every => cases h.1
      | _ => cases h.1

/-- A length is one value at most. -/
theorem length_find_le_one
    {query : Query}
    (h : query.isPlainLength = true)
    (document : Value) :
    (query.find document).length ≤ 1 := by
  rw [isPlainLength, Bool.and_eq_true, decide_eq_true_eq] at h
  have hselect := length_select_le_one h.2 document
  calc (query.find document).length
      ≤ ((select query.selectors document).map Prod.snd).length := by
        rw [find, h.1]
        exact List.length_filterMap_le _ _
    _ = (select query.selectors document).length := List.length_map _
    _ ≤ 1 := hselect

end Query

namespace Client

open Store (MemoryStore Operation Finds)
open Accessor (follow? trace?)

/-- Whether a read fails or returns no value makes no difference for a client. -/
theorem received_of_finds
    {found : Option Value}
    {result : Except Store.StoreError (Option Value)}
    (path : String)
    (generation : Nat)
    (h : Finds found result) :
    received path (result.map fun value => ⟨value, generation⟩) =
      received path (.ok ⟨found, generation⟩) := by
  cases result with
  | ok value =>
      have hvalue : value = found := h
      rw [hvalue]
      rfl
  | error error =>
      obtain ⟨rfl, htranslate⟩ := h
      exact congrArg Except.error (htranslate path)

/-- A client gets from a store what its operation finds in the field. -/
theorem received_read_of_finds
    {operation : Operation}
    {found : Option Value → Option Value}
    (store : MemoryStore)
    (request : Request)
    (hname : operation.field = request.field)
    (hfinds : ∀ field, Finds (found field) (operation.read field))
    (hmissing : found none = none) :
    received request.path (store.read request.key operation) =
      received request.path
        (.ok ⟨found (store.field? request.key request.field),
          (store.generation? request.key).getD 0⟩) := by
  rw [MemoryStore.read, MemoryStore.field?, MemoryStore.generation?]
  cases store.record? request.key with
  | none =>
      rw [Option.bind_none, hmissing]
      rfl
  | some record =>
      simp only [hname, Option.bind_some, Option.map_some, Option.getD_some]
      exact received_of_finds request.path record.generation (hfinds _)

theorem field_get
    (name : String)
    (contexts : List Accessor)
    (last : Path.Step) :
    (Operation.get name contexts last).field = name := by
  rcases last with _ | key | index <;> rfl

/-- A client gets from a store what the run leads to in the field, if there is a field. -/
theorem received_read
    (store : MemoryStore)
    (request : Request)
    (run : List Accessor) :
    received request.path
        (store.read request.key
          (Operation.get request.field
            (Path.Plan.endpoints (.root :: run.map .access)).1
            (Path.Plan.endpoints (.root :: run.map .access)).2)) =
      received request.path
        (.ok ⟨(store.field? request.key request.field).bind (follow? run),
          (store.generation? request.key).getD 0⟩) :=
  received_read_of_finds store request (field_get _ _ _) (Store.finds_read request.field run) rfl

/-- The answer to a read of one value, by all the values that its query yields. -/
def answer
    (path : String)
    (query : Query) :
    List Value → Except DocumentError Value
  | [value] => .ok value
  | [] =>
      if query.isPlainLength then
        .error (.objectNotFound path)
      else
        .ok (.list [])
  | values => .ok (.list values)

/-- A selection is collapsed to the answer by its values. -/
theorem collapse_eq_answer
    {query : Query}
    (path : String)
    (selection : Selection)
    (h : query.isPlainLength = true → selection.values.length ≤ 1) :
    collapse path query.isPlainLength selection = answer path query selection.values := by
  cases selection with
  | single value => rfl
  | several values =>
      cases hlength : query.isPlainLength with
      | false => 
          rcases values with _ | ⟨first, _ | ⟨second, rest⟩⟩
          · simp [collapse, answer, Selection.values, hlength]
          · rfl
          · rfl
      | true => 
          rcases values with _ | ⟨first, _ | ⟨second, rest⟩⟩
          · simp [collapse, answer, Selection.values, hlength]
          · rfl
          · have hmany := h hlength
            simp [Selection.values] at hmany

variable {query : Query}
variable {request : Request}

/-- What a plan selects at the end of the run are the values of the query in the document. -/
theorem exists_selectIn
    {plan : Path.Plan}
    {document node : Value}
    (config : Config)
    (hstar : ¬ query.IsStarredRun)
    (hremainder : Path.Remainder query plan.advanced)
    (hnode : follow? query.leadingRun document = some node) :
    ∃ selection,
      (inMemory config).selectIn request plan node = .ok selection ∧
      selection.values = query.find document := by
  have htrace : ∃ way, trace? query.leadingRun document = some (way, node) := by
    rw [Accessor.follow?_eq_trace?] at hnode
    obtain ⟨⟨way, found⟩, htrace, rfl⟩ := Option.map_eq_some_iff.1 hnode
    exact ⟨way, htrace⟩
  obtain ⟨way, htrace⟩ := htrace
  rw [selectIn]
  cases hadvanced : plan.advanced with
  | none =>
      rw [hadvanced] at hremainder
      cases hremainder with
      | nothing hquery =>
          have hrun : query.beyondRun = ⟨[], none⟩ := hquery.resolve_right hstar
          refine ⟨.single node, rfl, ?_⟩
          rw [Query.find_of_trace? "" htrace, hrun]
          rfl
  | some source =>
      rw [hadvanced] at hremainder
      cases hremainder with
      | beyond _ hcompile =>
          have hcompile : (inMemory config).evaluator.compile source =
              .ok ⟨query.beyondRun, source⟩ := hcompile
          refine ⟨.several (Query.find ⟨query.beyondRun, source⟩ node), ?_, ?_⟩
          · simp only [hcompile]
            rfl
          · exact (Query.find_of_trace? source htrace).symm

/-- The outcome of a course that starts with a read of the memory store. -/
theorem run_fetching
    {α : Type}
    (operation : Operation)
    (policy : Option Policy)
    (further : Fragment → Course α)
    (store : MemoryStore) :
    ((Course.fetching request operation policy).bind further).run MemoryStore.backend store =
      ((Course.done (received request.path (store.read request.key operation))).bind further).run
        MemoryStore.backend (store.fetch request.key operation policy).2 :=
  rfl

/-- A write-back whose edit succeeds ends with a native write of what the edit comes to. -/
theorem run_rewriting
    {config : Config}
    {store : MemoryStore}
    {plan : Path.Plan}
    {edit : Value → Except DocumentError Value}
    {fragment : Fragment}
    {changed : Value}
    (hread : received request.path
      (store.read request.key (Operation.get request.field plan.contexts plan.last)) = .ok fragment)
    (hedit : edit fragment.value = .ok changed) :
    ((inMemory config).rewriting request plan edit).run MemoryStore.backend store =
      (Course.sending request
        (Operation.put request.field plan.contexts changed plan.last)
        ((inMemory config).writeBackOptions ((inMemory config).policyForWrite request)
          fragment.generation)
        .writeBack).run MemoryStore.backend
          (store.fetch request.key
            (Operation.get request.field plan.contexts plan.last)
            ((inMemory config).policyForWrite request)).2 := by
  rw [rewriting, run_fetching, hread, Course.bind, hedit]
  rfl

/-- What a read of a well-spelled path comes to, by the node that its run leads to. -/
theorem run_selecting
    (h : Path.WellSpelled request.path query)
    (config : Config)
    (store : MemoryStore) :
    ∃ plan after,
      plan.isLengthOnly = query.isPlainLength ∧
      Path.Remainder query plan.advanced ∧
      ((inMemory config).selecting request).run MemoryStore.backend store =
        match (store.field? request.key request.field).bind (follow? query.leadingRun) with
        | some node =>
            (((inMemory config).selectIn request plan node).map (plan, ·), after)
        | none => (.error (.objectNotFound request.path), after) := by
  obtain ⟨plan, hplan, -, hcontexts, hlast, hremainder⟩ := Path.exists_plan h
  refine ⟨plan, (store.fetch request.key (Operation.get request.field plan.contexts plan.last)
    ((config.readPolicyFor request.policy).map Policy.forStore)).2,
    Path.isLengthOnly_of_remainder hremainder, hremainder, ?_⟩
  have hclient : (inMemory config).plan request.path = .ok plan := hplan
  rw [selecting, hclient, Course.bind, run_fetching, hcontexts, hlast, received_read]
  cases (store.field? request.key request.field).bind (follow? query.leadingRun) with
  | none => rfl
  | some node => rfl

/--
A read of a well-spelled path, except for a run with a final star, comes to
the values that the query yields in the whole field. If the record, the field
or the end of the leading run is not there, nothing is found.
-/
theorem reads_eq_find
    (h : Path.WellSpelled request.path query)
    (hstar : ¬ query.IsStarredRun)
    (config : Config)
    (session : Session MemoryStore) :
    (∀ document node,
      session.store.field? request.key request.field = some document →
      follow? query.leadingRun document = some node →
        (carryOut ((inMemory config).getAll request) session).1 =
          .ok (query.find document) ∧
        (carryOut ((inMemory config).get request) session).1 =
          answer request.path query (query.find document)) ∧
    ((session.store.field? request.key request.field).bind (follow? query.leadingRun) = none →
        (carryOut ((inMemory config).getAll request) session).1 =
          .error (.objectNotFound request.path) ∧
        (carryOut ((inMemory config).get request) session).1 =
          .error (.objectNotFound request.path)) := by
  obtain ⟨plan, after, hlength, hremainder, hselecting⟩ := run_selecting h config session.store
  rw [((inMemory config).follows_getAll request).outcome session,
    ((inMemory config).follows_get request).outcome session, gettingAll, getting,
    Course.run_bind, Course.run_bind]
  constructor
  · intro document node hdocument hnode
    obtain ⟨selection, hselect, hvalues⟩ :=
      @exists_selectIn _ request _ _ _ config hstar hremainder hnode
    have hcollapse := collapse_eq_answer request.path selection fun hplain => by
      rw [hvalues]
      exact Query.length_find_le_one hplain document
    have hrun : ((inMemory config).selecting request).run MemoryStore.backend session.store =
        (.ok (plan, selection), after) := by
      rw [hselecting, hdocument, Option.bind_some, hnode]
      simp only [hselect]
      rfl
    rw [hvalues] at hcollapse
    have hbackend : (inMemory config).backend = MemoryStore.backend := rfl
    rw [hbackend, hrun]
    simp only [Course.run]
    rw [hvalues, hlength, hcollapse]
    exact ⟨rfl, rfl⟩
  · intro hnone
    have hrun : ((inMemory config).selecting request).run MemoryStore.backend session.store =
        (.error (.objectNotFound request.path), after) := by
      rw [hselecting, hnone]
    have hbackend : (inMemory config).backend = MemoryStore.backend := rfl
    rw [hbackend, hrun]
    exact ⟨rfl, rfl⟩

/-- A book with a part that has a title of its own. -/
def lastBook : Value :=
  .map
    [("parts", .list [.map [("title", .text "II")]]),
      ("title", .text "Ring")]

/-- Two books on a shelf. -/
def books : Value :=
  .map [("shelf", .list [.map [("title", .text "Dune")], lastBook])]

/-- A request about the titles below the last book. -/
def bookRequest : Request :=
  ⟨⟨"test", "docs", .text "k1"⟩, "doc", "$.shelf[-1]..title", none⟩

/-- A store with the books in one field. -/
def bookStore : MemoryStore :=
  MemoryStore.empty.insert bookRequest.key bookRequest.field books

/-- The titles below the last book. -/
def bookQuery : Query :=
  ⟨⟨[.choose (.access (.key "shelf")), .choose (.access (.index (-1))), .descent,
    .choose (.access (.key "title"))], none⟩, "$.shelf[-1]..title"⟩

theorem wellSpelled_bookQuery :
    Path.WellSpelled bookRequest.path bookQuery ∧ ¬ bookQuery.IsStarredRun := by
  refine ⟨⟨by decide +kernel, by decide +kernel, by decide +kernel⟩, ?_⟩
  rintro ⟨hchain, -⟩
  exact absurd (congrArg (fun chain => chain.selectors.length) hchain) (by decide)

theorem reads_eq_find_books :
    Path.WellSpelled bookRequest.path bookQuery ∧
      (carryOut ((inMemory .default).getAll bookRequest) (.start bookStore)).1 =
        .ok [.text "Ring", .text "II"] ∧
      (carryOut ((inMemory .default).get bookRequest) (.start bookStore)).1 =
        .ok (.list [.text "Ring", .text "II"]) := by
  obtain ⟨hspelled, hstar⟩ := wellSpelled_bookQuery
  obtain ⟨hfound, -⟩ := @reads_eq_find bookQuery bookRequest hspelled hstar .default
    (.start bookStore)
  exact ⟨hspelled, hfound books lastBook rfl rfl⟩

end Client
end FieldQuery
