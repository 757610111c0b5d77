import FieldQuery.Proofs.Matching
import FieldQuery.Proofs.Replacement

/-!
# Appending at several locations

All locations are found before the first list grows, and the lists grow from
the root downwards. A list that grows keeps its elements where they are, so
each location that is still to come leads to the node that it was found with.
An append to the matches of a query fails only because a match is no list.
-/

namespace FieldQuery

namespace Location

variable {way location : Location}
variable {document node value : Value}
variable {items : List Value}

/-- A location that comes before another one is not below it. -/
theorem not_prefix_of_lt
    (h : compare way location = .lt) :
    ¬ location <+: way := by
  intro hfront
  have hle : notAfter way location = true := by
    rw [notAfter, h]
    rfl
  obtain rfl := eq_of_prefix hle hfront
  have hself : compare location location = .eq := Std.ReflCmp.compare_self
  rw [hself] at h
  cases h

/-- An element of a list is where it was when the list has grown. -/
theorem resolve?_push
    (hne : location ≠ [])
    (h : location.resolve? (.list items) = some node) :
    location.resolve? (.list (items ++ [value])) = some node := by
  cases location with
  | nil => exact absurd rfl hne
  | cons segment rest =>
      obtain ⟨child, hchild, hnode⟩ := Option.bind_eq_some_iff.1 h
      cases segment with
      | member name => cases hchild
      | index i =>
          have hitem : items[i]? = some child := hchild
          have hlength := (List.getElem?_eq_some_iff.1 hitem).1
          have hgrown : (Segment.index i).get? (.list (items ++ [value])) = some child := by
            rw [Segment.get?, List.getElem?_append_left hlength, hitem]
          rw [resolve?, hgrown]
          exact hnode

/-- When a list grows, every node is where it was, except for the list and those above it. -/
theorem resolve?_within_push
    (hlist : way.resolve? document = some (.list items))
    (hbelow : ¬ location <+: way)
    (hnode : location.resolve? document = some node) :
    location.resolve? (way.within document (.list (items ++ [value]))) = some node := by
  by_cases habove : way <+: location
  · obtain ⟨further, rfl⟩ := habove
    have hne : further ≠ [] := by
      rintro rfl
      exact hbelow (by rw [List.append_nil])
    rw [resolve?_append, hlist, Option.bind_some] at hnode
    rw [resolve?_append, resolve?_within _ hlist, Option.bind_some]
    exact resolve?_push hne hnode
  · have hreplace := replace?_of_resolve? (.list (items ++ [value])) hlist
    exact (resolve?_of_replace? hbelow habove hreplace).trans hnode

end Location

namespace Query

variable {document value : Value}

/-- A list grows, and no other node does. -/
theorem exists_appendTo_eq_ok_iff
    {node : Value} :
    (∃ changed, appendTo value node = .ok changed) ↔ ∃ items, node = .list items := by
  cases node with
  | list items => exact ⟨fun _ => ⟨items, rfl⟩, fun _ => ⟨_, rfl⟩⟩
  | _ => simp [appendTo]

/-- A visit that appends at ascending locations comes to its end exactly if all of them are
lists. -/
theorem exists_visitAt_eq_ok_iff
    {locations : List Location}
    {visited : Nat}
    (horder : locations.Pairwise fun a b => Location.compare a b = .lt)
    (hnodes : ∀ location ∈ locations, ∃ node, location.resolve? document = some node) :
    (∃ count, (visitAt (fun _ node => appendTo value node) visited locations document).2 =
        .ok count) ↔
      ∀ location ∈ locations, ∃ items, location.resolve? document = some (.list items) := by
  induction locations generalizing document visited with
  | nil =>
      constructor
      · rintro - location hlocation
        cases hlocation
      · exact fun _ => ⟨visited, rfl⟩
  | cons way rest ih =>
      obtain ⟨hlater, horder⟩ := List.pairwise_cons.1 horder
      obtain ⟨⟨node, hnode⟩, hnodes⟩ := List.forall_mem_cons.1 hnodes
      rw [visitAt, hnode, List.forall_mem_cons]
      by_cases hlist : ∃ items, node = .list items
      · obtain ⟨items, rfl⟩ := hlist
        have hkept : ∀ location ∈ rest,
            location.resolve? (way.within document (.list (items ++ [value]))) =
              location.resolve? document := by
          intro location hlocation
          obtain ⟨other, hother⟩ := hnodes location hlocation
          have hbelow := Location.not_prefix_of_lt (hlater location hlocation)
          rw [hother, Location.resolve?_within_push hnode hbelow hother]
        have hfound : ∀ location ∈ rest, ∃ node,
            location.resolve? (way.within document (.list (items ++ [value]))) = some node := by
          intro location hlocation
          rw [hkept location hlocation]
          exact hnodes location hlocation
        rw [and_iff_right ⟨items, hnode⟩]
        refine (ih horder hfound).trans (forall₂_congr fun location hlocation => ?_)
        rw [hkept location hlocation]
      · cases happend : appendTo value node with
        | ok changed => exact absurd (exists_appendTo_eq_ok_iff.1 ⟨changed, happend⟩) hlist
        | error error =>
            simp only [happend]
            constructor
            · rintro ⟨count, hcount⟩
              cases hcount
            · rintro ⟨⟨items, hitems⟩, -⟩
              exact absurd ⟨items, Option.some.inj (hnode.symm.trans hitems)⟩ hlist

/-- An append to the matches of a query succeeds exactly if all of them are lists. -/
theorem exists_append_eq_ok_iff
    {query : Query}
    (hdocument : document.WellFormed)
    (hfunction : query.function = none) :
    (∃ count, (query.append document value).2 = .ok count) ↔
      ∀ node ∈ query.find document, ∃ items, node = .list items := by
  have hlocate : query.locate document = .ok ((select query.selectors document).map Prod.fst) := by
    rw [locate, hfunction]
  have hnodes : ∀ location ∈ Location.ascending ((select query.selectors document).map Prod.fst),
      ∃ node, (location, node) ∈ select query.selectors document := by
    intro location hlocation
    obtain ⟨⟨way, node⟩, hmem, rfl⟩ := List.mem_map.1 (Location.mem_ascending.1 hlocation)
    exact ⟨node, hmem⟩
  have hresolve : ∀ location ∈ Location.ascending ((select query.selectors document).map Prod.fst),
      ∃ node, location.resolve? document = some node := by
    intro location hlocation
    obtain ⟨node, hmem⟩ := hnodes location hlocation
    exact ⟨node, resolve?_of_mem_select hdocument hmem⟩
  rw [append, forEach, hlocate, find, hfunction]
  refine (exists_visitAt_eq_ok_iff (Location.pairwise_ascending _) hresolve).trans ?_
  constructor
  · intro hlists node hnode
    obtain ⟨⟨way, found⟩, hmem, rfl⟩ := List.mem_map.1 hnode
    have hway := Location.mem_ascending.2 (List.mem_map_of_mem (f := Prod.fst) hmem)
    obtain ⟨items, hitems⟩ := hlists way hway
    exact ⟨items, Option.some.inj ((resolve?_of_mem_select hdocument hmem).symm.trans hitems)⟩
  · intro hlists location hlocation
    obtain ⟨node, hmem⟩ := hnodes location hlocation
    obtain ⟨items, rfl⟩ := hlists node (List.mem_map_of_mem (f := Prod.snd) hmem)
    exact ⟨items, resolve?_of_mem_select hdocument hmem⟩

end Query
end FieldQuery
