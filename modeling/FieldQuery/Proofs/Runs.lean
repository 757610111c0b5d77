import FieldQuery.Proofs.Locations
import FieldQuery.Query.LeadingRun
import FieldQuery.Query.Matching

/-!
# Leading runs in a document

The leading run of a query leads to one node of a document or to none. What
the query matches in the document is what the chain beyond the run matches in
that node, with the way to the node in front of every location.
-/

namespace FieldQuery

namespace Accessor

/-- The node at the end of a chain of accessors, and the way that leads to it. -/
def trace? :
    List Accessor → Value → Option Located
  | [], value => some ([], value)
  | accessor :: rest, value =>
      (accessor.locate? value).bind fun (segment, child) =>
        (trace? rest child).map fun (way, node) => (segment :: way, node)

/-- An accessor names the child that it locates. -/
theorem get?_eq_locate?
    (accessor : Accessor)
    (value : Value) :
    accessor.get? value = (accessor.locate? value).map Prod.snd := by
  cases accessor with
  | key name =>
      cases value with
      | map members =>
          rw [get?, locate?]
          cases Members.get? name members <;> rfl
      | _ => rfl
  | index i =>
      cases value with
      | list items =>
          rw [get?, locate?]
          cases position? i items.length with
          | none => rfl
          | some position =>
              rw [Option.bind_some, Option.bind_some, Option.map_map]
              exact Option.map_id'.symm
      | _ => rfl

/-- The segment that an accessor locates identifies the same child. -/
theorem segment_get?_of_locate?
    {accessor : Accessor}
    {value child : Value}
    {segment : Segment}
    (h : accessor.locate? value = some (segment, child)) :
    segment.get? value = some child := by
  cases accessor with
  | key name =>
      cases value with
      | map members =>
          obtain ⟨found, hfound, heq⟩ := Option.map_eq_some_iff.1 h
          obtain ⟨rfl, rfl⟩ := Prod.mk.inj heq
          exact hfound
      | _ => cases h
  | index i =>
      cases value with
      | list items =>
          obtain ⟨position, -, hitem⟩ := Option.bind_eq_some_iff.1 h
          obtain ⟨found, hfound, heq⟩ := Option.map_eq_some_iff.1 hitem
          obtain ⟨rfl, rfl⟩ := Prod.mk.inj heq
          exact hfound
      | _ => cases h

/-- A chain of accessors names the node that it traces. -/
theorem follow?_eq_trace?
    (chain : List Accessor)
    (value : Value) :
    follow? chain value = (trace? chain value).map Prod.snd := by
  induction chain generalizing value with
  | nil =>
      rfl
  | cons accessor rest ih =>
      rw [follow?, trace?, get?_eq_locate?]
      cases accessor.locate? value with
      | none => rfl
      | some located =>
          rw [Option.map_some, Option.bind_some, Option.bind_some, ih, Option.map_map]
          rfl

/-- The way that a chain of accessors traces leads to the same node. -/
theorem resolve?_of_trace?
    {chain : List Accessor}
    {value node : Value}
    {way : Location}
    (h : trace? chain value = some (way, node)) :
    way.resolve? value = some node := by
  induction chain generalizing value way with
  | nil =>
      obtain ⟨rfl, rfl⟩ := Prod.mk.inj (Option.some.inj h)
      rfl
  | cons accessor rest ih =>
      obtain ⟨⟨segment, child⟩, hlocate, hrest⟩ := Option.bind_eq_some_iff.1 h
      obtain ⟨⟨more, found⟩, hmore, heq⟩ := Option.map_eq_some_iff.1 hrest
      obtain ⟨rfl, rfl⟩ := Prod.mk.inj heq
      rw [Location.resolve?, segment_get?_of_locate? hlocate, Option.bind_some]
      exact ih hmore

theorem trace?_concat
    (front : List Accessor)
    (last : Accessor)
    (value : Value) :
    trace? (front ++ [last]) value =
      (trace? front value).bind fun (way, node) =>
        (last.locate? node).map fun (segment, child) => (way ++ [segment], child) := by
  induction front generalizing value with
  | nil =>
      cases hlocate : last.locate? value with
      | none => simp [trace?, hlocate]
      | some located => simp [trace?, hlocate]
  | cons accessor front ih =>
      cases hlocate : accessor.locate? value with
      | none => simp [trace?, hlocate]
      | some located =>
          cases hfront : trace? front located.2 with
          | none => simp [trace?, hlocate, ih, hfront]
          | some traced => simp [trace?, hlocate, ih, hfront, Function.comp_def]

/-- Where a chain leads, by its last accessor. -/
theorem trace?_concat_eq_some
    {front : List Accessor}
    {last : Accessor}
    {value node : Value}
    {way : Location}
    (h : trace? (front ++ [last]) value = some (way, node)) :
    ∃ before parent segment,
      trace? front value = some (before, parent) ∧
      last.locate? parent = some (segment, node) ∧
      way = before ++ [segment] := by
  rw [trace?_concat] at h
  obtain ⟨⟨before, parent⟩, hfront, hlast⟩ := Option.bind_eq_some_iff.1 h
  obtain ⟨⟨segment, child⟩, hlocate, heq⟩ := Option.map_eq_some_iff.1 hlast
  obtain ⟨rfl, rfl⟩ := Prod.mk.inj heq
  exact ⟨before, parent, segment, hfront, hlocate, rfl⟩

end Accessor

namespace Query

/-- The nodes below a node, seen from where a way to that node starts. -/
def below
    (way : Location)
    (nodes : List Located) :
    List Located :=
  nodes.map fun (further, target) => (way ++ further, target)

theorem below_nil
    (nodes : List Located) :
    below [] nodes = nodes := by
  simp [below]

theorem below_below
    (first second : Location)
    (nodes : List Located) :
    below first (below second nodes) = below (first ++ second) nodes := by
  simp [below, Function.comp_def]

theorem below_flatMap
    (way : Location)
    (nodes : List Located)
    (next : Located → List Located) :
    below way (nodes.flatMap next) = nodes.flatMap fun node => below way (next node) := by
  simp [below, List.map_flatMap]

/-- Selectors lead from several nodes to what they lead to from each of them. -/
theorem foldl_advance
    (selectors : List Selector)
    (reached : List Located) :
    selectors.foldl advance reached =
      reached.flatMap fun (way, node) => below way (select selectors node) := by
  induction selectors generalizing reached with
  | nil =>
      simp [select, below]
  | cons selector rest ih =>
      have hselect (node : Value) : select (selector :: rest) node =
          (selector.reach node).flatMap fun (way, target) => below way (select rest target) := by
        rw [select, List.foldl_cons, ih]
        simp [advance]
      rw [List.foldl_cons, ih, advance, List.flatMap_assoc]
      congr 1
      funext ⟨way, node⟩
      simp only [hselect, below_flatMap, List.flatMap_map, below_below]

theorem select_cons
    (selector : Selector)
    (rest : List Selector)
    (node : Value) :
    select (selector :: rest) node =
      (selector.reach node).flatMap fun (way, target) => below way (select rest target) := by
  rw [select, List.foldl_cons, foldl_advance]
  simp [advance]

/-- What selectors with a run in front of them match. -/
theorem select_run
    (run : List Accessor)
    (rest : List Selector)
    (document : Value) :
    select (run.map (fun accessor => .choose (.access accessor)) ++ rest) document =
      (Accessor.trace? run document).toList.flatMap fun (way, node) =>
        below way (select rest node) := by
  induction run generalizing document with
  | nil =>
      simp [Accessor.trace?, below_nil]
  | cons accessor run ih =>
      rw [List.map_cons, List.cons_append, select_cons, Accessor.trace?]
      rw [Selector.reach, Choice.children]
      cases accessor.locate? document with
      | none => rfl
      | some located =>
          simp only [Option.toList_some, List.map_cons, List.map_nil, List.flatMap_singleton,
            oneStep, Option.bind_some, ih]
          cases Accessor.trace? run located.2 with
          | none => rfl
          | some traced =>
              simp [below_below]

/-- What a query matches, by its leading run. -/
theorem select_selectors
    (query : Query)
    (document : Value) :
    select query.selectors document =
      (Accessor.trace? query.leadingRun document).toList.flatMap fun (way, node) =>
        below way (select query.beyondRun.selectors node) := by
  have hchain : query.selectors = (query.beyondRun.prepend query.leadingRun).selectors := by
    rw [prepend_leadingRun]
    rfl
  rw [hchain, Chain.prepend, select_run]

/-- The locations of what lies beyond the leading run of a query, seen from its node. -/
def beyondLocations
    (query : Query)
    (node : Value) :
    List Location :=
  (select query.beyondRun.selectors node).map Prod.fst

section Trace

variable {query : Query}
variable {document node : Value}
variable {way : Location}

/-- A query finds in a document what the rest of it finds in the node of its run. -/
theorem find_of_trace?
    (source : String)
    (h : Accessor.trace? query.leadingRun document = some (way, node)) :
    query.find document = find ⟨query.beyondRun, source⟩ node := by
  have hnodes : (select query.selectors document).map Prod.snd =
      (select query.beyondRun.selectors node).map Prod.snd := by
    rw [select_selectors, h]
    simp [below, Function.comp_def]
  rw [find, hnodes]
  rfl

/-- A query locates in a document what the rest of it locates in the node of its run. -/
theorem locate_of_trace?
    (hfunction : query.function = none)
    (h : Accessor.trace? query.leadingRun document = some (way, node)) :
    query.locate document = .ok ((query.beyondLocations node).map (way ++ ·)) := by
  have hlocations : (select query.selectors document).map Prod.fst =
      (query.beyondLocations node).map (way ++ ·) := by
    rw [select_selectors, h]
    simp [below, beyondLocations, Function.comp_def]
  rw [locate, hfunction]
  exact congrArg Except.ok hlocations

/-- Where the leading run leads nowhere, a query locates nothing. -/
theorem locate_of_trace?_eq_none
    (hfunction : query.function = none)
    (h : Accessor.trace? query.leadingRun document = none) :
    query.locate document = .ok [] := by
  rw [locate, hfunction, select_selectors, h]
  rfl

theorem locate_beyondRun
    (source : String)
    (hfunction : query.function = none)
    (node : Value) :
    locate ⟨query.beyondRun, source⟩ node = .ok (query.beyondLocations node) := by
  have hrest : function ⟨query.beyondRun, source⟩ = none := hfunction
  rw [locate, hrest]
  rfl

end Trace

/-- Below a node itself stands everything that a selector other than a descent leads to. -/
theorem ne_nil_of_mem_reach
    {selector : Selector}
    {node : Value}
    {located : Located}
    (hselector : selector ≠ .descent)
    (h : located ∈ selector.reach node) :
    located.1 ≠ [] := by
  have step {children : List (Segment × Value)} (hmem : located ∈ children.map oneStep) :
      located.1 ≠ [] := by
    obtain ⟨child, -, rfl⟩ := List.mem_map.1 hmem
    simp [oneStep]
  cases selector with
  | descent => exact absurd rfl hselector
  | choose choice => exact step h
  | slice s => exact step h
  | filter predicate => exact step h
  | union choices => exact step h

/-- Selectors that do not end with a descent never match the node that they start from. -/
theorem nil_not_mem_select
    {selectors : List Selector}
    (hne : selectors ≠ [])
    (hlast : selectors.getLast? ≠ some .descent)
    (node : Value) :
    [] ∉ (select selectors node).map Prod.fst := by
  rcases List.eq_nil_or_concat selectors with rfl | ⟨front, last, rfl⟩
  · exact absurd rfl hne
  · rw [List.concat_eq_append, List.getLast?_concat, ne_eq, Option.some.injEq] at hlast
    rw [List.concat_eq_append, select, List.foldl_append, List.foldl_cons, List.foldl_nil, advance]
    intro hmem
    obtain ⟨located, hlocated, hnil⟩ := List.mem_map.1 hmem
    obtain ⟨⟨way, target⟩, -, hfurther⟩ := List.mem_flatMap.1 hlocated
    obtain ⟨⟨further, found⟩, hreach, rfl⟩ := List.mem_map.1 hfurther
    exact ne_nil_of_mem_reach hlast hreach (List.append_eq_nil_iff.1 hnil).2

end Query
end FieldQuery
