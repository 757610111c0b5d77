import FieldQuery.Proofs.Courses
import FieldQuery.Proofs.Growth
import FieldQuery.Proofs.Native
import FieldQuery.Proofs.Reads
import FieldQuery.Proofs.Stores

/-!
# Writes of well-spelled paths

A write changes a part of a document, in the store or in memory, and puts it
back. For a well-spelled path this comes to the edit of the whole field with
the whole query, and nothing else in the store is touched. Only a put whose
path is a run that leads nowhere yet does what no edit does: it adds one entry
or one element.
-/

namespace FieldQuery
namespace Client

open Store (MemoryStore Operation WriteOptions Grows)
open Accessor (follow? trace?)

variable {query : Query}
variable {request : Request}
variable {store after : MemoryStore}
variable {document : Value}

/--
A native write that succeeds changes the field to what the operation writes.
Reads may come before it.
-/
theorem fieldChange_of_sending
    {before : MemoryStore}
    {operation : Operation}
    {options : WriteOptions}
    {phase : Phase}
    {found : Option Value}
    (hname : operation.field = request.field)
    (hdocument : store.field? request.key request.field = found)
    (h : (Course.sending request operation options phase).run MemoryStore.backend before =
      (.ok (), after))
    (hrecords : before.records = store.records) :
    ∃ value,
      operation.write found = .ok value ∧
      store.FieldChange after request.key request.field value := by
  have hrecord : before.record? = store.record? := by
    funext key
    rw [MemoryStore.record?, MemoryStore.record?, hrecords]
  have hfield : before.field? = store.field? := by
    funext key field
    rw [MemoryStore.field?, MemoryStore.field?, hrecord]
  have hrun : (written request.path phase (before.apply request.key operation options).1,
      (before.apply request.key operation options).2) = (.ok (), after) := h
  obtain ⟨hwritten, hafter⟩ := Prod.mk.inj hrun
  cases hresult : (before.apply request.key operation options).1 with
  | error error =>
      rw [hresult] at hwritten
      cases hwritten
  | ok generation =>
      obtain ⟨value, hvalue, hchange⟩ :=
        MemoryStore.fieldChange_of_apply (Prod.ext hresult hafter)
      rw [hname] at hvalue hchange
      rw [hfield, hdocument] at hvalue
      exact ⟨value, hvalue, hchange.changed, hfield ▸ hchange.fields, hrecord ▸ hchange.records⟩

theorem field_put
    (name : String)
    (contexts : List Accessor)
    (value : Value)
    (last : Path.Step) :
    (Operation.put name contexts value last).field = name := by
  rcases last with _ | key | index <;> rfl

theorem field_delete
    (name : String)
    (contexts : List Accessor)
    (last : Path.Step) :
    (Operation.delete name contexts last).field = name := by
  rcases last with _ | key | index <;> rfl

/--
A write-back that succeeds was made where the run leads, and changed the field
to the document with the changed part in its place.
-/
theorem fieldChange_of_rewriting
    {run : List Accessor}
    {plan : Path.Plan}
    {edit : Value → Except DocumentError Value}
    {config : Config}
    (hcontexts : plan.contexts = (Path.Plan.endpoints (.root :: run.map .access)).1)
    (hlast : plan.last = (Path.Plan.endpoints (.root :: run.map .access)).2)
    (hdocument : store.field? request.key request.field = some document)
    (h : ((inMemory config).rewriting request plan edit).run MemoryStore.backend store =
      (.ok (), after)) :
    ∃ way node changed,
      trace? run document = some (way, node) ∧
      edit node = .ok changed ∧
      store.FieldChange after request.key request.field (way.within document changed) := by
  rw [rewriting, run_fetching, hcontexts, hlast, received_read, hdocument, Option.bind_some,
    Accessor.follow?_eq_trace?] at h
  cases htrace : trace? run document with
  | none =>
      rw [htrace] at h
      cases (Prod.mk.inj h).1
  | some traced =>
      obtain ⟨way, node⟩ := traced
      rw [htrace] at h
      cases hedit : edit node with
      | error error =>
          simp only [received, Option.map_some, Course.bind, hedit] at h
          cases (Prod.mk.inj h).1
      | ok changed =>
          simp only [received, Option.map_some, Course.bind, hedit] at h
          obtain ⟨value, hvalue, hchange⟩ :=
            fieldChange_of_sending (field_put _ _ _ _) hdocument h rfl
          rw [Store.write_put_of_trace? _ _ htrace] at hvalue
          rw [← Except.ok.inj hvalue] at hchange
          exact ⟨way, node, changed, rfl, hedit, hchange⟩

/-- A well-spelled query never matches the node that its run leads to by what lies beyond it. -/
theorem nil_not_mem_beyondLocations
    (h : Query.compile request.path = .ok query)
    (hrun : ¬ query.IsRun)
    (hfunction : query.function = none)
    (node : Value) :
    [] ∉ query.beyondLocations node := by
  obtain ⟨_, _, -, -, -, -, hreads⟩ := Path.reads_of_compile h
  have hne : query.beyondRun.selectors ≠ [] := by
    intro hnil
    have hbeyond : query.beyondRun = ⟨query.beyondRun.selectors, query.function⟩ := rfl
    exact hrun (by rw [Query.IsRun, hbeyond, hnil, hfunction])
  refine Query.nil_not_mem_select hne (?_) node
  intro hlast
  have hselectors : query.selectors.getLast? = some .descent := by
    have hchain : query.selectors = (query.beyondRun.prepend query.leadingRun).selectors := by
      rw [Query.prepend_leadingRun]
      rfl
    rw [hchain, Query.Chain.prepend, List.getLast?_append, hlast]
    rfl
  exact Query.Chain.getLast?_ne_descent hreads hselectors

section Edits

variable {σ : Type}
variable {client : Client σ}
variable {source : String}
variable {rest : Query}
variable {value part changed : Value}

/-- An edit with an advanced part that succeeds is an edit with its query. -/
theorem changedBy_eq_ok
    {edit : Query → Value → Except QueryError (Value × Nat)}
    (hcompile : client.evaluator.compile source = .ok rest)
    (h : client.changedBy request edit source part = .ok changed) :
    ∃ count, edit rest part = .ok (changed, count) := by
  rw [changedBy_eq_edited edit hcompile] at h
  cases hedit : edit rest part with
  | error error =>
      rw [hedit] at h
      cases h
  | ok result =>
      rw [hedit] at h
      rw [← Except.ok.inj h]
      exact ⟨result.2, rfl⟩

theorem extended_eq_ok
    (hcompile : client.evaluator.compile source = .ok rest)
    (h : client.extended request value (some source) part = .ok changed) :
    ∃ count, rest.append part value = (changed, .ok count) := by
  rw [extended_eq_edited hcompile] at h
  rcases happend : rest.append part value with ⟨new, outcome⟩
  rw [happend] at h
  cases outcome with
  | error error => cases h
  | ok count =>
      rw [← Except.ok.inj h]
      exact ⟨count, rfl⟩

end Edits

section Operations

variable {config : Config}
variable {session ended : Session MemoryStore}
variable {value : Value}

/-- What a delete that succeeds does to the field. -/
theorem delete_eq_removeAll
    (h : Path.WellSpelled request.path query)
    (hstar : ¬ query.IsStarredRun)
    (hdocument : session.store.field? request.key request.field = some document)
    (hdelete : carryOut ((inMemory config).delete request) session = (.ok (), ended)) :
    ∃ changed count,
      query.removeAll document = .ok (changed, count) ∧
      session.store.FieldChange ended.store request.key request.field changed := by
  have hcourse := ((inMemory config).follows_delete request).run_eq hdelete
  obtain ⟨plan, hplan, -, hcontexts, hlast, hremainder⟩ := Path.exists_plan h
  have hclient : (inMemory config).plan request.path = .ok plan := hplan
  rw [deleting, changing, hclient, Course.bind] at hcourse
  cases hadvanced : plan.advanced with
  | none =>
      rw [hadvanced] at hremainder hcourse
      cases hremainder with
      | nothing hquery =>
          have hrun := hquery.resolve_right hstar
          obtain ⟨changed, hchanged, hchange⟩ :=
            fieldChange_of_sending (field_delete _ _ _) hdocument hcourse rfl
          rw [hcontexts, hlast] at hchanged
          cases htrace : trace? query.leadingRun document with
          | none =>
              obtain rfl := Store.eq_of_write_delete htrace hchanged
              have hfunction : query.function = none := congrArg Query.Chain.function hrun
              exact ⟨_, _, Query.removeAll_of_trace?_eq_none hfunction htrace, hchange⟩
          | some traced =>
              rw [Store.write_delete_of_trace? _ htrace] at hchanged
              rw [← Except.ok.inj hchanged] at hchange
              exact ⟨_, _, Query.removeAll_of_isRun hrun htrace, hchange⟩
  | some source =>
      rw [hadvanced] at hremainder hcourse
      cases hremainder with
      | beyond hquery hcompile =>
          obtain ⟨way, node, changed, htrace, hedit, hchange⟩ :=
            fieldChange_of_rewriting hcontexts hlast hdocument hcourse
          obtain ⟨count, hremove⟩ := changedBy_eq_ok hcompile hedit
          have hroot (hfunction : query.function = none) : [] ∉ query.beyondLocations node :=
            nil_not_mem_beyondLocations h.compiles (fun hrun => hquery (Or.inl hrun)) hfunction node
          exact ⟨_, count, Query.removeAll_of_trace? htrace hroot hremove, hchange⟩

/-- What an append that succeeds does to the field. -/
theorem append_eq_append
    (h : Path.WellSpelled request.path query)
    (hstar : ¬ query.IsStarredRun)
    (hdocument : session.store.field? request.key request.field = some document)
    (happend : carryOut ((inMemory config).append request value) session = (.ok (), ended)) :
    ∃ changed count,
      query.append document value = (changed, .ok count) ∧
      session.store.FieldChange ended.store request.key request.field changed := by
  have hcourse := ((inMemory config).follows_append request value).run_eq happend
  obtain ⟨plan, hplan, -, hcontexts, hlast, hremainder⟩ := Path.exists_plan h
  have hclient : (inMemory config).plan request.path = .ok plan := hplan
  rw [appending, hclient, Course.bind] at hcourse
  obtain ⟨way, node, changed, htrace, hedit, hchange⟩ :=
    fieldChange_of_rewriting hcontexts hlast hdocument hcourse
  cases hadvanced : plan.advanced with
  | none =>
      rw [hadvanced] at hremainder hedit
      cases hremainder with
      | nothing hquery =>
          have hrun := hquery.resolve_right hstar
          have hextended := eq_ok_of_edited hedit
          exact ⟨_, _, Query.append_of_isRun hrun htrace hextended, hchange⟩
  | some source =>
      rw [hadvanced] at hremainder hedit
      cases hremainder with
      | beyond _ hcompile =>
          obtain ⟨count, hextended⟩ := extended_eq_ok hcompile hedit
          exact ⟨_, count, Query.append_of_trace? htrace hextended, hchange⟩

/-- What a put that succeeds does to the field, if it has a node to replace or an advanced part. -/
theorem put_eq_update
    (h : Path.WellSpelled request.path query)
    (hstar : ¬ query.IsStarredRun)
    (hdocument : session.store.field? request.key request.field = some document)
    (hput : carryOut ((inMemory config).put request value) session = (.ok (), ended))
    (hnode : query.IsRun → follow? query.leadingRun document ≠ none) :
    ∃ changed count,
      query.update document value = .ok (changed, count) ∧
      session.store.FieldChange ended.store request.key request.field changed := by
  have hcourse := ((inMemory config).follows_put request value).run_eq hput
  obtain ⟨plan, hplan, -, hcontexts, hlast, hremainder⟩ := Path.exists_plan h
  have hclient : (inMemory config).plan request.path = .ok plan := hplan
  rw [putting, changing, hclient, Course.bind] at hcourse
  cases hadvanced : plan.advanced with
  | none =>
      rw [hadvanced] at hremainder hcourse
      cases hremainder with
      | nothing hquery =>
          have hrun := hquery.resolve_right hstar
          obtain ⟨changed, hchanged, hchange⟩ :=
            fieldChange_of_sending (field_put _ _ _ _) hdocument hcourse rfl
          rw [hcontexts, hlast] at hchanged
          cases htrace : trace? query.leadingRun document with
          | none =>
              have hnone := Accessor.follow?_eq_trace? query.leadingRun document
              rw [htrace] at hnone
              exact absurd hnone (hnode hrun)
          | some traced =>
              rw [Store.write_put_of_trace? _ _ htrace] at hchanged
              rw [← Except.ok.inj hchanged] at hchange
              exact ⟨_, _, Query.update_of_isRun hrun value htrace, hchange⟩
  | some source =>
      rw [hadvanced] at hremainder hcourse
      cases hremainder with
      | beyond _ hcompile =>
          obtain ⟨way, node, changed, htrace, hedit, hchange⟩ :=
            fieldChange_of_rewriting hcontexts hlast hdocument hcourse
          obtain ⟨count, hupdate⟩ := changedBy_eq_ok hcompile hedit
          exact ⟨_, count, Query.update_of_trace? htrace hupdate, hchange⟩

/-- What a put that succeeds does to the field where its run leads nowhere yet. -/
theorem put_grows
    (h : Path.WellSpelled request.path query)
    (hdocument : session.store.field? request.key request.field = some document)
    (hput : carryOut ((inMemory config).put request value) session = (.ok (), ended))
    (hrun : query.IsRun)
    (hnone : follow? query.leadingRun document = none) :
    ∃ front last way parent grown changed,
      query.leadingRun = front ++ [last] ∧
      trace? front document = some (way, parent) ∧
      Grows value last parent grown ∧
      way.replace? grown document = some changed ∧
      session.store.FieldChange ended.store request.key request.field changed := by
  have hcourse := ((inMemory config).follows_put request value).run_eq hput
  obtain ⟨plan, hplan, -, hcontexts, hlast, hremainder⟩ := Path.exists_plan h
  have hclient : (inMemory config).plan request.path = .ok plan := hplan
  have htrace : trace? query.leadingRun document = none := by
    rw [Accessor.follow?_eq_trace?] at hnone
    exact Option.map_eq_none_iff.1 hnone
  rw [putting, changing, hclient, Course.bind] at hcourse
  cases hadvanced : plan.advanced with
  | none =>
      rw [hadvanced] at hcourse
      obtain ⟨changed, hchanged, hchange⟩ :=
        fieldChange_of_sending (field_put _ _ _ _) hdocument hcourse rfl
      rw [hcontexts, hlast] at hchanged
      obtain ⟨front, last, way, parent, grown, hleading, hfront, hgrows, rfl⟩ :=
        Store.grows_of_write_put htrace hchanged
      have hreplace := Location.replace?_of_resolve? grown (Accessor.resolve?_of_trace? hfront)
      exact ⟨front, last, way, parent, grown, _, hleading, hfront, hgrows, hreplace, hchange⟩
  | some source =>
      rw [hadvanced] at hremainder
      cases hremainder with
      | beyond hquery _ => exact absurd (Or.inl hrun) hquery

/--
A write of a well-spelled path, except for a run with a final star, that
succeeds does to the whole field what the edit with the whole query does, and
nothing else to the store. An append makes each list that the whole query
locates grow by the value, which becomes its last element, once for each list;
every other node keeps its outline. A put at the end of a run that leads nowhere
yet adds one entry under a new key, or one element at the end of a list.
-/
theorem writes_eq_edits
    (h : Path.WellSpelled request.path query)
    (hstar : ¬ query.IsStarredRun)
    (config : Config)
    (session : Session MemoryStore)
    (value : Value)
    (hdocument : session.store.field? request.key request.field = some document) :
    (∀ ended, carryOut ((inMemory config).delete request) session = (.ok (), ended) →
      ∃ changed count,
        query.removeAll document = .ok (changed, count) ∧
        session.store.FieldChange ended.store request.key request.field changed) ∧
    (∀ ended, carryOut ((inMemory config).append request value) session = (.ok (), ended) →
      ∃ changed count,
        query.append document value = (changed, .ok count) ∧
        session.store.FieldChange ended.store request.key request.field changed ∧
        (document.WellFormed →
          ∃ locations,
            query.locate document = .ok locations ∧
            ∀ way node, way.resolve? document = some node →
              ∃ kept,
                way.resolve? changed = some kept ∧
                Query.Grown value (way ∈ locations) node kept)) ∧
    (∀ ended, carryOut ((inMemory config).put request value) session = (.ok (), ended) →
      (¬ query.IsRun ∨ follow? query.leadingRun document ≠ none →
        ∃ changed count,
          query.update document value = .ok (changed, count) ∧
          session.store.FieldChange ended.store request.key request.field changed) ∧
      (query.IsRun → follow? query.leadingRun document = none →
        ∃ front last way parent grown changed,
          query.leadingRun = front ++ [last] ∧
          trace? front document = some (way, parent) ∧
          Grows value last parent grown ∧
          way.replace? grown document = some changed ∧
          session.store.FieldChange ended.store request.key request.field changed)) := by
  refine ⟨?_, ?_, ?_⟩
  · intro ended hdelete
    exact delete_eq_removeAll h hstar hdocument hdelete
  · intro ended happend
    obtain ⟨changed, count, hchanged, hchange⟩ := append_eq_append h hstar hdocument happend
    refine ⟨changed, count, hchanged, hchange, ?_⟩
    intro hwellFormed
    obtain ⟨locations, hlocate, -, hgrown⟩ := Query.grown_of_append hwellFormed hchanged
    exact ⟨locations, hlocate, hgrown⟩
  · intro ended hput
    constructor
    · intro hnode
      refine put_eq_update h hstar hdocument hput ?_
      intro hrun
      exact hnode.resolve_left fun hnot => hnot hrun
    · intro hrun hnone
      exact put_grows h hdocument hput hrun hnone

end Operations

/-- The titles below a node. -/
def titleQuery : Query :=
  ⟨⟨[.descent, .choose (.access (.key "title"))], none⟩, "$..title"⟩

/-- The last book without any title. -/
def untitledBook : Value :=
  .map [("parts", .list [.map []])]

theorem bookRequest_divided :
    (inMemory .default).plan bookRequest.path =
        .ok ⟨bookRequest.path, ⟨"$.shelf[-1]", some "$..title"⟩, [.key "shelf"],
          .access (.index (-1))⟩ ∧
      (inMemory .default).evaluator.compile "$..title" = .ok titleQuery ∧
      titleQuery.removeAll lastBook = .ok (untitledBook, 2) ∧
      bookQuery.removeAll books =
        .ok (.map [("shelf", .list [.map [("title", .text "Dune")], untitledBook])], 2) := by
  have hbook : titleQuery.locate lastBook =
      .ok [[.member "title"], [.member "parts", .index 0, .member "title"]] := by
    decide +kernel
  have hbooks : bookQuery.locate books =
      .ok [[.member "shelf", .index 1, .member "title"],
        [.member "shelf", .index 1, .member "parts", .index 0, .member "title"]] := by
    decide +kernel
  refine ⟨by decide +kernel, by decide +kernel, ?_, ?_⟩
  · rw [Query.removeAll, hbook, Except.map, Location.descending_self (by decide)]
    rfl
  · rw [Query.removeAll, hbooks, Except.map, Location.descending_self (by decide)]
    rfl

/-- A request about the parts below the last book. -/
def partRequest : Request :=
  { bookRequest with path := "$.shelf[-1]..parts" }

/-- The parts below the last book. -/
def partQuery : Query :=
  ⟨⟨[.choose (.access (.key "shelf")), .choose (.access (.index (-1))), .descent,
    .choose (.access (.key "parts"))], none⟩, "$.shelf[-1]..parts"⟩

theorem wellSpelled_partQuery :
    Path.WellSpelled partRequest.path partQuery ∧ ¬ partQuery.IsStarredRun := by
  refine ⟨⟨by decide +kernel, by decide +kernel, by decide +kernel⟩, ?_⟩
  rintro ⟨hchain, -⟩
  exact absurd (congrArg (fun chain => chain.selectors.length) hchain) (by decide)

/-- The parts below a node. -/
def belowQuery : Query :=
  ⟨⟨[.descent, .choose (.access (.key "parts"))], none⟩, "$..parts"⟩

/-- The last book with one part more. -/
def extendedBook : Value :=
  .map
    [("parts", .list [.map [("title", .text "II")], .null]),
      ("title", .text "Ring")]

theorem partRequest_divided :
    (inMemory .default).plan partRequest.path =
        .ok ⟨partRequest.path, ⟨"$.shelf[-1]", some "$..parts"⟩, [.key "shelf"],
          .access (.index (-1))⟩ ∧
      (inMemory .default).evaluator.compile "$..parts" = .ok belowQuery ∧
      belowQuery.append lastBook .null = (extendedBook, .ok 1) :=
  ⟨by decide +kernel, by decide +kernel, by decide +kernel⟩

theorem append_partRequest :
    (carryOut ((inMemory .default).append partRequest .null) (.start bookStore)).1 = .ok () := by
  obtain ⟨hplan, hcompile, happend⟩ := partRequest_divided
  have hextended : (inMemory .default).extended partRequest .null (some "$..parts") lastBook =
      .ok extendedBook := by
    rw [extended_eq_edited hcompile, happend]
    rfl
  have hread : received partRequest.path
      (bookStore.read partRequest.key
        (Operation.get partRequest.field [.key "shelf"] (.access (.index (-1))))) =
      .ok ⟨lastBook, 1⟩ := rfl
  rw [((inMemory .default).follows_append _ _).outcome, appending, hplan, Course.bind]
  exact congrArg Prod.fst (run_rewriting hread hextended)

/-- Two titles are deleted, and the one list of parts gets a second element. -/
theorem writes_eq_edits_books :
    (∃ ended,
      carryOut ((inMemory .default).delete bookRequest) (.start bookStore) = (.ok (), ended) ∧
      ended.store.field? bookRequest.key bookRequest.field =
        some (.map [("shelf", .list [.map [("title", .text "Dune")], untitledBook])])) ∧
    ∃ ended changed part,
      carryOut ((inMemory .default).append partRequest .null) (.start bookStore) =
        (.ok (), ended) ∧
      ended.store.field? partRequest.key partRequest.field = some changed ∧
      Location.resolve? [.member "shelf", .index 1, .member "parts"] changed =
        some (.list [part, .null]) ∧
      (Location.resolve? [.member "shelf"] changed).map Value.outline = some (.list 2) := by
  constructor
  · obtain ⟨hspelled, hstar⟩ := wellSpelled_bookQuery
    obtain ⟨hplan, hcompile, hremove, hremoveAll⟩ := bookRequest_divided
    obtain ⟨hdelete, -⟩ := @writes_eq_edits bookQuery bookRequest books hspelled hstar .default
      (.start bookStore) .null rfl
    have hremoved :
        (inMemory .default).changedBy bookRequest Query.removeAll "$..title" lastBook =
        .ok untitledBook := by
      rw [changedBy_eq_edited _ hcompile, hremove]
      rfl
    have hread : received bookRequest.path
        (bookStore.read bookRequest.key
          (Operation.get bookRequest.field [.key "shelf"] (.access (.index (-1))))) =
        .ok ⟨lastBook, 1⟩ := rfl
    have hdone : (carryOut ((inMemory .default).delete bookRequest) (.start bookStore)).1 =
        .ok () := by
      rw [((inMemory .default).follows_delete _).outcome, deleting, changing, hplan, Course.bind]
      exact congrArg Prod.fst (run_rewriting hread hremoved)
    obtain ⟨changed, count, hchanged, hchange⟩ := hdelete _ (Prod.ext hdone rfl)
    obtain ⟨rfl, -⟩ := Prod.mk.inj (Except.ok.inj (hremoveAll.symm.trans hchanged))
    exact ⟨_, Prod.ext hdone rfl, hchange.changed⟩
  · obtain ⟨hspelled, hstar⟩ := wellSpelled_partQuery
    obtain ⟨-, happend, -⟩ := @writes_eq_edits partQuery partRequest books hspelled hstar .default
      (.start bookStore) .null rfl
    have hbooks : books.WellFormed := by
      simp [books, lastBook, Members.names]
    have hfound : partQuery.locate books =
        .ok [[.member "shelf", .index 1, .member "parts"]] := by
      decide +kernel
    obtain ⟨changed, count, -, hchange, hgrown⟩ :=
      happend _ (Prod.ext append_partRequest rfl)
    obtain ⟨locations, hlocate, hnodes⟩ := hgrown hbooks
    obtain rfl := Except.ok.inj (hfound.symm.trans hlocate)
    obtain ⟨parts, hparts, hpartsGrown⟩ :=
      hnodes [.member "shelf", .index 1, .member "parts"] _ rfl
    obtain ⟨shelf, hshelf, hshelfGrown⟩ := hnodes [.member "shelf"] _ rfl
    obtain ⟨_, front, ⟨rfl⟩, rfl, hfront⟩ := hpartsGrown.list (by decide)
    obtain ⟨part, rfl⟩ := List.length_eq_one_iff.1 hfront
    refine ⟨_, changed, part, Prod.ext append_partRequest rfl, hchange.changed, hparts, ?_⟩
    rw [hshelf, Option.map_some, hshelfGrown.outline (by decide)]
    rfl

end Client
end FieldQuery
