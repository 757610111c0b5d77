import FieldQuery.Proofs.Writes

/-!
# Get and put at plain paths

A plain path names a place in a field, which the store reads and writes by
itself. The two agree with each other: what was put is what is got, to put back
what was got changes no field, and of two puts the second counts. A put may add
an entry, an element or a whole field and record; the place is there for the
next one, and the index behind the last element is then the last one.
-/

namespace FieldQuery

/-- The index behind the last element is the last position after one more is added. -/
theorem position?_succ
    (length : Nat) :
    position? length (length + 1) = some length := by
  have hsign : ¬ (length : Int) < 0 := by omega
  have hrange : (0 : Int) ≤ length ∧ (length : Int) < (length + 1 : Nat) := by omega
  simp only [position?, if_neg hsign, if_pos hrange, Int.toNat_natCast]

namespace Accessor

variable {value child : Value}
variable {segment : Segment}

/-- An accessor locates the child that was put in place of the one it located. -/
theorem locate?_replace
    {accessor : Accessor}
    (new : Value)
    (h : accessor.locate? value = some (segment, child)) :
    accessor.locate? (segment.replace new value) = some (segment, new) := by
  have hget := Segment.get?_replace new (segment_get?_of_locate? h)
  cases accessor with
  | key name =>
      cases value with
      | map members =>
          obtain ⟨found, -, heq⟩ := Option.map_eq_some_iff.1 h
          obtain ⟨rfl, rfl⟩ := Prod.mk.inj heq
          have hname : Members.get? name (Members.replace name new members) = some new := hget
          rw [Segment.replace, locate?, hname]
          rfl
      | _ => cases h
  | index index =>
      cases value with
      | list items =>
          obtain ⟨position, hposition, -, rfl⟩ := Store.locate?_index_eq_some h
          have hitem : (items.set position new)[position]? = some new := hget
          rw [Segment.replace, locate?, List.length_set, hposition, Option.bind_some, hitem]
          rfl
      | _ => cases h

/-- A chain of accessors traces the same way to what was put at its end. -/
theorem trace?_within
    {chain : List Accessor}
    {node : Value}
    {way : Location}
    (new : Value)
    (h : trace? chain value = some (way, node)) :
    trace? chain (way.within value new) = some (way, new) := by
  induction chain generalizing value way with
  | nil =>
      obtain ⟨rfl, rfl⟩ := Prod.mk.inj (Option.some.inj h)
      rfl
  | cons accessor rest ih =>
      obtain ⟨⟨segment, child⟩, hlocate, hrest⟩ := Option.bind_eq_some_iff.1 h
      obtain ⟨⟨more, found⟩, hmore, heq⟩ := Option.map_eq_some_iff.1 hrest
      obtain ⟨rfl, rfl⟩ := Prod.mk.inj heq
      rw [Location.within_cons new (segment_get?_of_locate? hlocate) (resolve?_of_trace? hmore),
        trace?, locate?_replace _ hlocate, Option.bind_some]
      simp only [ih hmore, Option.map_some]

end Accessor

namespace Store

open Accessor (follow? trace?)

section Collection

variable {last : Accessor}
variable {parent changed : Value}

/-- A child that was set is there. -/
theorem get?_of_setChild
    {value : Value}
    (h : setChild value last parent = .ok changed) :
    last.get? changed = some value := by
  cases last with
  | key key =>
      cases parent with
      | map members =>
          obtain rfl := Except.ok.inj h
          exact Members.get?_insert_self value
      | _ => cases h
  | index index =>
      cases parent with
      | list items =>
          rw [setChild, setIndex] at h
          by_cases hend : index = items.length
          · rw [if_pos hend] at h
            obtain rfl := Except.ok.inj h
            rw [Accessor.get?, hend, List.length_append, List.length_singleton, position?_succ]
            simp
          · rw [if_neg hend, boundedPosition] at h
            cases hposition : position? index items.length with
            | none =>
                rw [hposition] at h
                cases h
            | some position =>
                rw [hposition] at h
                obtain rfl := Except.ok.inj h
                have hlt := lt_of_position? hposition
                simp [Accessor.get?, hposition, hlt]
      | _ => cases h

/-- A child that can be set once can be set to anything, and of two values the second counts. -/
theorem setChild_setChild
    {first : Value}
    (second : Value)
    (h : setChild first last parent = .ok changed) :
    ∃ again,
      setChild second last changed = .ok again ∧
      setChild second last parent = .ok again := by
  cases last with
  | key key =>
      cases parent with
      | map members =>
          obtain rfl := Except.ok.inj h
          refine ⟨.map (Members.insert key second members), ?_, rfl⟩
          exact congrArg (fun members => Except.ok (Value.map members))
            (Members.insert_insert first second)
      | _ => cases h
  | index index =>
      cases parent with
      | list items =>
          rw [setChild, setIndex] at h
          by_cases hend : index = items.length
          · rw [if_pos hend] at h
            obtain rfl := Except.ok.inj h
            refine ⟨.list (items ++ [second]), ?_, ?_⟩
            · have hlength : (items ++ [first]).length = items.length + 1 := by simp
              have hnext : ¬ index = (items.length + 1 : Nat) := by omega
              rw [setChild, setIndex, hlength, if_neg hnext, boundedPosition, hend, position?_succ]
              simp [Except.map]
            · rw [setChild, setIndex, if_pos hend]
          · rw [if_neg hend, boundedPosition] at h
            cases hposition : position? index items.length with
            | none =>
                rw [hposition] at h
                cases h
            | some position =>
                rw [hposition] at h
                obtain rfl := Except.ok.inj h
                refine ⟨.list (items.set position second), ?_, ?_⟩
                · rw [setChild, setIndex, List.length_set, if_neg hend, boundedPosition, hposition]
                  simp [Except.map]
                · rw [setChild, setIndex, if_neg hend, boundedPosition, hposition]
                  rfl
      | _ => cases h

end Collection

variable {name : String}
variable {contexts : List Accessor}
variable {last : Path.Step}
variable {field : Option Value}
variable {value result : Value}

/-- A put into a missing field is one into an empty map, if it is possible at all. -/
theorem write_put_none
    {accessor : Accessor}
    (h : (Operation.put name contexts value (.access accessor)).write none = .ok result)
    (other : Value) :
    (Operation.put name contexts other (.access accessor)).write none =
      (Operation.put name contexts other (.access accessor)).write (some (.map [])) := by
  cases accessor with
  | key key =>
      cases contexts with
      | nil => rfl
      | cons context rest => cases h
  | index index =>
      cases contexts with
      | nil => cases h
      | cons context rest => cases h

/-- Where a put behind some contexts is made, and what it makes of the collection there. -/
theorem write_put_eq_ok
    {accessor : Accessor}
    (h : (Operation.put name contexts value (.access accessor)).write field = .ok result) :
    ∃ document way parent changed,
      (∀ other, (Operation.put name contexts other (.access accessor)).write field =
        changeAt (setChild other accessor) contexts document) ∧
      trace? contexts document = some (way, parent) ∧
      setChild value accessor parent = .ok changed ∧
      result = way.within document changed := by
  have hdocument : ∃ document, ∀ other,
      (Operation.put name contexts other (.access accessor)).write field =
        changeAt (setChild other accessor) contexts document := by
    cases field with
    | some document =>
        exact ⟨document, fun other => write_put_access name contexts accessor other document⟩
    | none =>
        refine ⟨.map [], fun other => ?_⟩
        rw [write_put_none h other]
        exact write_put_access name contexts accessor other (.map [])
  obtain ⟨document, hwrite⟩ := hdocument
  rw [hwrite] at h
  obtain ⟨way, parent, changed, htrace, hset, hresult⟩ := trace?_of_changeAt h
  exact ⟨document, way, parent, changed, hwrite, htrace, hset, hresult⟩

/-- What was put is what is got. -/
theorem read_of_write_put
    (h : (Operation.put name contexts value last).write field = .ok result) :
    (Operation.get name contexts last).read (some result) = .ok (some value) := by
  cases last with
  | root =>
      obtain rfl := Except.ok.inj h
      rfl
  | access accessor =>
      obtain ⟨document, way, parent, changed, -, htrace, hset, rfl⟩ := write_put_eq_ok h
      have hfound : follow? (contexts ++ [accessor]) (way.within document changed) =
          some value := by
        rw [Accessor.follow?_concat, Accessor.follow?_eq_trace?,
          Accessor.trace?_within changed htrace]
        exact get?_of_setChild hset
      have hfinds := finds_read_access name contexts accessor (some (way.within document changed))
      rw [Option.bind_some, hfound] at hfinds
      exact hfinds.eq_ok

/-- To put back what was got changes nothing. -/
theorem write_put_of_read
    (h : (Operation.get name contexts last).read field = .ok (some value)) :
    ∃ document,
      field = some document ∧
      (Operation.put name contexts value last).write (some document) = .ok document := by
  cases last with
  | root =>
      have hfield : field = some value := Except.ok.inj h
      exact ⟨value, hfield, rfl⟩
  | access accessor =>
      have hfinds := finds_read_access name contexts accessor field
      rw [h] at hfinds
      have hfound : field.bind (follow? (contexts ++ [accessor])) = some value := hfinds.symm
      obtain ⟨document, rfl, hfollow⟩ := Option.bind_eq_some_iff.1 hfound
      rw [Accessor.follow?_eq_trace?] at hfollow
      obtain ⟨⟨way, node⟩, htrace, rfl⟩ := Option.map_eq_some_iff.1 hfollow
      have hput := write_put_of_trace? name node htrace
      rw [Path.endpoints_concat, Location.within_self (Accessor.resolve?_of_trace? htrace)] at hput
      exact ⟨document, rfl, hput⟩

/-- Where one value was put any other can be, and then it is as if it alone had been put. -/
theorem write_put_put
    (other : Value)
    (h : (Operation.put name contexts value last).write field = .ok result) :
    ∃ again,
      (Operation.put name contexts other last).write (some result) = .ok again ∧
      (Operation.put name contexts other last).write field = .ok again := by
  cases last with
  | root => exact ⟨other, rfl, rfl⟩
  | access accessor =>
      obtain ⟨document, way, parent, changed, hwrite, htrace, hset, rfl⟩ := write_put_eq_ok h
      obtain ⟨again, hsecond, honce⟩ := setChild_setChild other hset
      refine ⟨way.within document again, ?_, ?_⟩
      · rw [write_put_access, changeAt_of_trace? _ (Accessor.trace?_within changed htrace), hsecond]
        exact congrArg Except.ok
          (Location.within_within changed again (Accessor.resolve?_of_trace? htrace))
      · rw [hwrite, changeAt_of_trace? _ htrace, honce]
        rfl

namespace MemoryStore

variable {store : MemoryStore}
variable {key : RecordKey}
variable {operation : Operation}

/-- A read of a field that is there returns what the operation reads from it. -/
theorem read_of_field?
    {document : Value}
    {found : Option Value}
    (hfield : store.field? key operation.field = some document)
    (h : operation.read (some document) = .ok found) :
    ∃ generation, store.read key operation = .ok ⟨found, generation⟩ := by
  obtain ⟨record, hrecord, hdocument⟩ := Option.bind_eq_some_iff.1 hfield
  refine ⟨record.generation, ?_⟩
  rw [read, hrecord]
  simp only [hdocument, h]
  rfl

/-- What a read returns is what the operation reads from the field. -/
theorem operation_read_of_read
    {fetched : Fetched}
    (h : store.read key operation = .ok fetched) :
    operation.read (store.field? key operation.field) = .ok fetched.value := by
  rw [read] at h
  rw [field?]
  cases hrecord : store.record? key with
  | none =>
      rw [hrecord] at h
      cases h
  | some record =>
      rw [hrecord] at h
      rw [Option.bind_some]
      cases hread : operation.read (Members.get? operation.field record.fields) with
      | error error =>
          simp only [hread] at h
          cases h
      | ok value =>
          simp only [hread] at h
          rw [← Except.ok.inj h]

end MemoryStore
end Store

namespace Client

open Store (MemoryStore Operation)

section Plain

variable {client : Client MemoryStore}
variable {request : Request}
variable {plan : Path.Plan}
variable (hbackend : client.backend = MemoryStore.backend)
variable (hplan : client.plan request.path = .ok plan)
variable (hplain : plan.advanced = none)

include hbackend hplan hplain

/-- What a put at a plain path does to the store. -/
theorem fieldChange_of_put
    {value : Value}
    {session after : Session MemoryStore}
    (h : carryOut (client.put request value) session = (.ok (), after)) :
    ∃ result,
      (Operation.put request.field plan.contexts value plan.last).write
        (session.store.field? request.key request.field) = .ok result ∧
      session.store.FieldChange after.store request.key request.field result := by
  have hrun := (client.follows_put request value).run_eq h
  simp only [putting, changing, hplan, Course.bind, hplain, hbackend] at hrun
  exact fieldChange_of_sending (field_put _ _ _ _) rfl hrun rfl

/-- A put at a plain path succeeds if the store can write there. -/
theorem exists_put_eq_ok
    {value result : Value}
    {session : Session MemoryStore}
    (h : (Operation.put request.field plan.contexts value plan.last).write
      (session.store.field? request.key request.field) = .ok result) :
    ∃ after, carryOut (client.put request value) session = (.ok (), after) := by
  have hwrite : (Operation.put request.field plan.contexts value plan.last).write
      (session.store.field? request.key
        (Operation.put request.field plan.contexts value plan.last).field) = .ok result := by
    rw [field_put]
    exact h
  obtain ⟨generation, store, happly⟩ :=
    MemoryStore.exists_apply_eq_ok (client.policyForWrite request) hwrite
  obtain ⟨statistics, hcarried⟩ := client.follows_put request value session
  have hrun : (client.putting request value).run client.backend session.store =
      (.ok (), store) := by
    simp only [putting, changing, hplan, Course.bind, hplain, hbackend, Course.sending, Course.run,
      MemoryStore.backend, happly]
    rfl
  rw [hrun] at hcarried
  exact ⟨_, hcarried⟩

/-- The course of a read at a plain path. -/
theorem run_selecting_plain
    (store : MemoryStore) :
    (client.selecting request).run client.backend store =
      ((received request.path (store.read request.key
          (Operation.get request.field plan.contexts plan.last))).map
        fun fragment => (plan, .single fragment.value),
        (store.fetch request.key (Operation.get request.field plan.contexts plan.last)
          ((client.config.readPolicyFor request.policy).map Policy.forStore)).2) := by
  rw [selecting, hplan, Course.bind, hbackend, run_fetching]
  cases received request.path (store.read request.key
      (Operation.get request.field plan.contexts plan.last)) with
  | error error => rfl
  | ok fragment =>
      simp only [Course.bind, selectIn, hplain]
      rfl

/-- What a read at a plain path finds, as one value and as a list. -/
theorem get_eq_ok
    {value document : Value}
    {session : Session MemoryStore}
    (hfield : session.store.field? request.key request.field = some document)
    (h : (Operation.get request.field plan.contexts plan.last).read (some document) =
      .ok (some value)) :
    (carryOut (client.get request) session).1 = .ok value ∧
      (carryOut (client.getAll request) session).1 = .ok [value] := by
  have hdocument : session.store.field? request.key
      (Operation.get request.field plan.contexts plan.last).field = some document := by
    rw [field_get]
    exact hfield
  obtain ⟨generation, hread⟩ := MemoryStore.read_of_field? hdocument h
  have hselected := run_selecting_plain hbackend hplan hplain session.store
  rw [hread] at hselected
  constructor
  · rw [(client.follows_get request).outcome, getting, Course.run_bind, hselected]
    rfl
  · rw [(client.follows_getAll request).outcome, gettingAll, Course.run_bind, hselected]
    rfl

/-- What a read at a plain path returned is in the store, and is still there. -/
theorem read_of_get
    {value : Value}
    {session after : Session MemoryStore}
    (h : carryOut (client.get request) session = (.ok value, after)) :
    (Operation.get request.field plan.contexts plan.last).read
        (session.store.field? request.key request.field) = .ok (some value) ∧
      after.store.records = session.store.records := by
  have hrun := (client.follows_get request).run_eq h
  have hselected := run_selecting_plain hbackend hplan hplain session.store
  rw [getting, Course.run_bind, hselected] at hrun
  cases hread : session.store.read request.key
      (Operation.get request.field plan.contexts plan.last) with
  | error error =>
      rw [hread] at hrun
      cases (Prod.mk.inj hrun).1
  | ok fetched =>
      have hfound := MemoryStore.operation_read_of_read hread
      rw [field_get] at hfound
      obtain ⟨found, generation⟩ := fetched
      cases found with
      | none =>
          rw [hread] at hrun
          cases (Prod.mk.inj hrun).1
      | some found =>
          rw [hread] at hrun
          obtain ⟨hvalue, hafter⟩ := Prod.mk.inj hrun
          obtain rfl : found = value := Except.ok.inj hvalue
          exact ⟨hfound, by rw [← hafter]; rfl⟩

/--
The laws of get and put at a plain path: what was put is what is got, to put
back what was got changes no field, and of two puts the second counts.
-/
theorem get_put_laws
    (session : Session MemoryStore)
    (first second : Value) :
    (∀ after, carryOut (client.put request first) session = (.ok (), after) →
      (carryOut (client.get request) after).1 = .ok first ∧
      (carryOut (client.getAll request) after).1 = .ok [first]) ∧
    (∀ after, carryOut (client.get request) session = (.ok first, after) →
      ∃ ended,
        carryOut (client.put request first) after = (.ok (), ended) ∧
        ∀ key name, ended.store.field? key name = session.store.field? key name) ∧
    (∀ after, carryOut (client.put request first) session = (.ok (), after) →
      ∃ twice once,
        carryOut (client.put request second) after = (.ok (), twice) ∧
        carryOut (client.put request second) session = (.ok (), once) ∧
        ∀ key name, twice.store.field? key name = once.store.field? key name) := by
  refine ⟨?_, ?_, ?_⟩
  · intro after hput
    obtain ⟨result, hwrite, hchange⟩ := fieldChange_of_put hbackend hplan hplain hput
    exact get_eq_ok hbackend hplan hplain hchange.changed (Store.read_of_write_put hwrite)
  · intro after hget
    obtain ⟨hread, hrecords⟩ := read_of_get hbackend hplan hplain hget
    have hfields (key : Store.RecordKey) (name : String) :
        after.store.field? key name = session.store.field? key name := by
      rw [MemoryStore.field?, MemoryStore.field?, MemoryStore.record?, MemoryStore.record?,
        hrecords]
    obtain ⟨document, hfield, hwrite⟩ := Store.write_put_of_read hread
    have hsame : (Operation.put request.field plan.contexts first plan.last).write
        (after.store.field? request.key request.field) = .ok document := by
      rw [hfields, hfield]
      exact hwrite
    obtain ⟨ended, hput⟩ := exists_put_eq_ok hbackend hplan hplain hsame
    obtain ⟨result, hresult, hchange⟩ := fieldChange_of_put hbackend hplan hplain hput
    obtain rfl : document = result := Except.ok.inj (hsame.symm.trans hresult)
    refine ⟨ended, hput, ?_⟩
    intro key name
    rw [hchange.field?_eq, hfields]
    by_cases hplace : key = request.key ∧ name = request.field
    · rw [if_pos hplace, hplace.1, hplace.2, hfield]
    · rw [if_neg hplace]
  · intro after hput
    obtain ⟨result, hwrite, hchange⟩ := fieldChange_of_put hbackend hplan hplain hput
    obtain ⟨again, hsecond, honly⟩ := Store.write_put_put second hwrite
    rw [← hchange.changed] at hsecond
    obtain ⟨twice, htwice⟩ := exists_put_eq_ok hbackend hplan hplain hsecond
    obtain ⟨once, honce⟩ := exists_put_eq_ok hbackend hplan hplain honly
    obtain ⟨last, hlast, hafter⟩ := fieldChange_of_put hbackend hplan hplain htwice
    obtain ⟨alone, halone, hbefore⟩ := fieldChange_of_put hbackend hplan hplain honce
    obtain rfl : again = last := Except.ok.inj (hsecond.symm.trans hlast)
    obtain rfl : again = alone := Except.ok.inj (honly.symm.trans halone)
    refine ⟨twice, once, htwice, honce, ?_⟩
    intro key name
    rw [hafter.field?_eq, hbefore.field?_eq, hchange.field?_eq]
    by_cases hplace : key = request.key ∧ name = request.field
    · rw [if_pos hplace, if_pos hplace]
    · rw [if_neg hplace, if_neg hplace, if_neg hplace]

end Plain

/-- A request about the place behind the last book. -/
def nextBookRequest : Request :=
  { bookRequest with path := "$.shelf[2]" }

/-- The first put adds a book, and the second one replaces it. -/
theorem get_put_laws_nextBook :
    ∃ after twice,
      carryOut ((inMemory .default).put nextBookRequest .null) (.start bookStore) =
        (.ok (), after) ∧
      (carryOut ((inMemory .default).get nextBookRequest) after).1 = .ok .null ∧
      carryOut ((inMemory .default).put nextBookRequest lastBook) after = (.ok (), twice) ∧
      twice.store.field? nextBookRequest.key nextBookRequest.field =
        some (.map [("shelf", .list [.map [("title", .text "Dune")], lastBook, lastBook])]) := by
  have hplan : (inMemory .default).plan nextBookRequest.path =
      .ok ⟨"$.shelf[2]", ⟨"$.shelf[2]", none⟩, [.key "shelf"], .access (.index 2)⟩ := by
    decide +kernel
  have hbackend : (inMemory .default).backend = MemoryStore.backend := rfl
  have hwrite (value : Value) : (Operation.put nextBookRequest.field [.key "shelf"] value
      (.access (.index 2))).write
        (bookStore.field? nextBookRequest.key nextBookRequest.field) =
          .ok (.map [("shelf", .list [.map [("title", .text "Dune")], lastBook, value])]) :=
    rfl
  obtain ⟨hget, -, htwice⟩ :=
    get_put_laws hbackend hplan rfl (.start bookStore) .null lastBook
  obtain ⟨after, hput⟩ : ∃ after,
      carryOut ((inMemory .default).put nextBookRequest .null) (.start bookStore) =
        (.ok (), after) :=
    exists_put_eq_ok hbackend hplan rfl (hwrite .null)
  obtain ⟨twice, once, hsecond, honce, hsame⟩ := htwice after hput
  obtain ⟨result, hresult, hchange⟩ := fieldChange_of_put hbackend hplan rfl honce
  obtain rfl := Except.ok.inj ((hwrite lastBook).symm.trans hresult)
  exact ⟨after, twice, hput, (hget after hput).1, hsecond, (hsame _ _).trans hchange.changed⟩

end Client
end FieldQuery
