import FieldQuery.Proofs.Children
import FieldQuery.Proofs.Runs

/-!
# Matched nodes are where their locations say

In a well-formed document, the location that a node is matched with leads to
that node. So a query finds exactly the nodes that it locates, in the same
order.
-/

namespace FieldQuery
namespace Query

variable {value node : Value}
variable {way : Location}

/-- The child that a choice selects is the one its segment identifies. -/
theorem Choice.get?_of_mem_children
    {choice : Choice}
    {segment : Segment}
    (h : value.WellFormed)
    (hmem : (segment, node) ∈ choice.children value) :
    segment.get? value = some node := by
  cases choice with
  | access accessor =>
      exact Accessor.segment_get?_of_locate? (Option.mem_toList.1 hmem)
  | every => exact h.mem_children_iff.1 hmem

theorem Slice.get?_of_mem_children
    {slice : Slice}
    {segment : Segment}
    (hmem : (segment, node) ∈ slice.children value) :
    segment.get? value = some node := by
  cases value with
  | list items =>
      obtain ⟨i, -, hitem⟩ := List.mem_filterMap.1 hmem
      obtain ⟨item, hget, heq⟩ := Option.map_eq_some_iff.1 hitem
      obtain ⟨rfl, rfl⟩ := Prod.mk.inj heq
      exact hget
  | _ => cases hmem

/-- A selector leads to a node along a way that leads to it. -/
theorem Selector.resolve?_of_mem_reach
    {selector : Selector}
    (h : value.WellFormed)
    (hmem : (way, node) ∈ selector.reach value) :
    way.resolve? value = some node := by
  have step {children : List (Segment × Value)}
      (hchildren : ∀ child ∈ children, child.1.get? value = some child.2)
      (hstep : (way, node) ∈ children.map oneStep) :
      way.resolve? value = some node := by
    obtain ⟨⟨segment, child⟩, hchild, heq⟩ := List.mem_map.1 hstep
    obtain ⟨rfl, rfl⟩ := Prod.mk.inj heq
    have hget : segment.get? value = some child := hchildren _ hchild
    rw [Location.resolve?, hget]
    rfl
  cases selector with
  | choose choice =>
      exact step (fun _ hchild => choice.get?_of_mem_children h hchild) hmem
  | slice s =>
      exact step (fun _ hchild => s.get?_of_mem_children hchild) hmem
  | filter predicate =>
      refine step (fun _ hchild => ?_) hmem
      exact h.mem_children_iff.1 (List.mem_of_mem_filter hchild)
  | union choices =>
      refine step (fun _ hchild => ?_) hmem
      obtain ⟨choice, -, hmember⟩ := List.mem_flatMap.1 hchild
      exact choice.get?_of_mem_children h hmember
  | descent => exact h.mem_descendants_iff.1 hmem

theorem wellFormed_of_resolve?
    (h : value.WellFormed)
    (hresolve : way.resolve? value = some node) :
    node.WellFormed := by
  induction way generalizing value with
  | nil =>
      obtain rfl := Option.some.inj hresolve
      exact h
  | cons segment way ih =>
      obtain ⟨child, hchild, hnode⟩ := Option.bind_eq_some_iff.1 hresolve
      exact ih (h.of_mem_children (h.mem_children_iff.2 hchild)) hnode

/-- A chain of selectors matches a node at a location that leads to it. -/
theorem resolve?_of_mem_select
    {selectors : List Selector}
    (h : value.WellFormed)
    (hmem : (way, node) ∈ select selectors value) :
    way.resolve? value = some node := by
  induction selectors generalizing value way with
  | nil =>
      obtain ⟨rfl, rfl⟩ := Prod.mk.inj (List.mem_singleton.1 hmem)
      rfl
  | cons selector rest ih =>
      rw [select_cons] at hmem
      obtain ⟨⟨front, target⟩, htarget, hrest⟩ := List.mem_flatMap.1 hmem
      obtain ⟨⟨further, found⟩, hfound, heq⟩ := List.mem_map.1 hrest
      obtain ⟨rfl, rfl⟩ := Prod.mk.inj heq
      have hfront := Selector.resolve?_of_mem_reach h htarget
      rw [Location.resolve?_append, hfront, Option.bind_some]
      exact ih (wellFormed_of_resolve? h hfront) hfound

section Locate

variable {query : Query}
variable {document : Value}

/-- A query without a function locates what its selectors lead to. -/
theorem locate_eq_ok
    (document : Value)
    (hfunction : query.function = none) :
    query.locate document = .ok ((select query.selectors document).map Prod.fst) := by
  rw [locate, hfunction]

/-- There is a node at each location that a query locates. -/
theorem exists_resolve?_of_locate
    {locations : List Location}
    (hdocument : document.WellFormed)
    (hlocate : query.locate document = .ok locations)
    (hmem : way ∈ locations) :
    ∃ node, way.resolve? document = some node := by
  cases hfunction : query.function with
  | some function =>
      rw [locate, hfunction] at hlocate
      cases hlocate
  | none =>
      obtain rfl := Except.ok.inj ((locate_eq_ok document hfunction).symm.trans hlocate)
      obtain ⟨⟨_, node⟩, hselect, rfl⟩ := List.mem_map.1 hmem
      exact ⟨node, resolve?_of_mem_select hdocument hselect⟩

end Locate

end Query
end FieldQuery
