import FieldQuery.Proofs.LocationOrder
import FieldQuery.Proofs.Runs
import FieldQuery.Query.Edit

/-!
# Edits below a way

The three edits of a document at a list of locations that all start with the
same way are the edits of the node at the end of the way, put back there. So
an edit with a query is an edit with the chain beyond its leading run, made to
the node that the run leads to.
-/

namespace FieldQuery
namespace Query

open Location (within)

variable {way : Location}
variable {document node : Value}

/-- Replacement below a way is replacement in the node that the way leads to. -/
theorem replaceAt_map_append
    (new : Value)
    (locations : List Location)
    (h : way.resolve? document = some node) :
    replaceAt new (locations.map (way ++ ·)) document =
      (way.within document (replaceAt new locations node).1,
        (replaceAt new locations node).2) := by
  induction locations generalizing document node with
  | nil =>
      simp [replaceAt, Location.within_self h]
  | cons location rest ih =>
      rw [List.map_cons, replaceAt, replaceAt, Location.replace?_append new h]
      cases location.replace? new node with
      | none => exact ih h
      | some changed =>
          simp only [Option.map_some]
          rw [ih (Location.resolve?_within changed h), Location.within_within _ _ h]

/-- Removal at a location other than the root. -/
theorem removeAt_cons
    {location : Location}
    (rest : List Location)
    (document : Value)
    (hne : location ≠ []) :
    removeAt (location :: rest) document =
      match location.remove? document with
      | some (_, left) => ((removeAt rest left).1, (removeAt rest left).2 + 1)
      | none => removeAt rest document := by
  cases location with
  | nil => exact absurd rfl hne
  | cons segment more => rfl

/-- Removal below a way is removal from the node that the way leads to. -/
theorem removeAt_map_append
    {locations : List Location}
    (hne : [] ∉ locations)
    (h : way.resolve? document = some node) :
    removeAt (locations.map (way ++ ·)) document =
      (way.within document (removeAt locations node).1, (removeAt locations node).2) := by
  induction locations generalizing document node with
  | nil =>
      simp [removeAt, Location.within_self h]
  | cons location rest ih =>
      have hrest : [] ∉ rest := fun hmem => hne (List.mem_cons_of_mem _ hmem)
      have hlocation : location ≠ [] := fun heq => hne (by rw [heq]; exact List.mem_cons_self)
      have hbelow : way ++ location ≠ [] := by simp [hlocation]
      rw [List.map_cons, removeAt_cons _ _ hbelow, removeAt_cons _ _ hlocation,
        Location.remove?_append hlocation h]
      cases location.remove? node with
      | none => exact ih hrest h
      | some removed =>
          simp only [Option.map_some]
          rw [ih hrest (Location.resolve?_within removed.2 h), Location.within_within _ _ h]

/-- A visit below a way, if it succeeds, is a visit of the node that the way leads to. -/
theorem visitAt_map_append
    {visit : Nat → Value → Except QueryError Value}
    {visited count : Nat}
    {locations : List Location}
    {changed : Value}
    (h : way.resolve? document = some node)
    (hvisit : visitAt visit visited locations node = (changed, .ok count)) :
    visitAt visit visited (locations.map (way ++ ·)) document =
      (way.within document changed, .ok count) := by
  induction locations generalizing document node visited with
  | nil =>
      simp only [visitAt, Prod.mk.injEq, Except.ok.injEq] at hvisit
      rw [List.map_nil, visitAt, ← hvisit.1, ← hvisit.2, Location.within_self h]
  | cons location rest ih =>
      have hresolve := Location.resolve?_append way location document
      rw [h, Option.bind_some] at hresolve
      rw [visitAt] at hvisit
      rw [List.map_cons, visitAt, hresolve]
      cases hfound : location.resolve? node with
      | none =>
          rw [hfound] at hvisit
          cases hvisit
      | some found =>
          rw [hfound] at hvisit
          simp only at hvisit ⊢
          cases hresult : visit visited found with
          | error error =>
              rw [hresult] at hvisit
              cases hvisit
          | ok result =>
              rw [hresult] at hvisit
              simp only at hvisit ⊢
              rw [Location.replace?_of_resolve? result hfound] at hvisit
              rw [Location.replace?_append result h,
                Location.replace?_of_resolve? result hfound]
              have hrest := ih (Location.resolve?_within _ h) hvisit
              rw [Location.within_within _ _ h] at hrest
              exact hrest

section Run

variable {query : Query}
variable {source : String}
variable {changed value : Value}
variable {count : Nat}

/-- A query that computes values locates nothing, be it in the document or in the node. -/
theorem locate_beyondRun_eq_error
    {function : Function}
    (hfunction : query.function = some function)
    (node : Value) :
    locate ⟨query.beyondRun, source⟩ node = .error (.computesValue source) := by
  have hbeyond : Query.function ⟨query.beyondRun, source⟩ = some function := hfunction
  rw [locate, hbeyond]

/-- A query puts a value where the chain beyond its run puts it in the node of the run. -/
theorem update_of_trace?
    (h : Accessor.trace? query.leadingRun document = some (way, node))
    (hupdate : update ⟨query.beyondRun, source⟩ node value = .ok (changed, count)) :
    query.update document value = .ok (way.within document changed, count) := by
  cases hfunction : query.function with
  | some function =>
      rw [update, locate_beyondRun_eq_error hfunction] at hupdate
      cases hupdate
  | none =>
      rw [update, locate_beyondRun source hfunction] at hupdate
      have hreplace : replaceAt value (Location.sorted (query.beyondLocations node)) node =
          (changed, count) := Except.ok.inj hupdate
      rw [update, locate_of_trace? hfunction h, Except.map, Location.sorted_map_append,
        replaceAt_map_append value _ (Accessor.resolve?_of_trace? h), hreplace]

/--
A query removes what the chain beyond its run removes from the node of the
run, unless that is the node itself.
-/
theorem removeAll_of_trace?
    (h : Accessor.trace? query.leadingRun document = some (way, node))
    (hroot : query.function = none → [] ∉ query.beyondLocations node)
    (hremove : removeAll ⟨query.beyondRun, source⟩ node = .ok (changed, count)) :
    query.removeAll document = .ok (way.within document changed, count) := by
  cases hfunction : query.function with
  | some function =>
      rw [removeAll, locate_beyondRun_eq_error hfunction] at hremove
      cases hremove
  | none =>
      rw [removeAll, locate_beyondRun source hfunction] at hremove
      have hleft : removeAt (Location.descending (query.beyondLocations node)) node =
          (changed, count) := Except.ok.inj hremove
      have hdescending : [] ∉ Location.descending (query.beyondLocations node) :=
        fun hmem => hroot hfunction (Location.mem_descending.1 hmem)
      rw [removeAll, locate_of_trace? hfunction h, Except.map, Location.descending_map_append,
        removeAt_map_append hdescending (Accessor.resolve?_of_trace? h), hleft]

/-- A query extends the lists that the chain beyond its run extends in the node of the run. -/
theorem append_of_trace?
    (h : Accessor.trace? query.leadingRun document = some (way, node))
    (happend : append ⟨query.beyondRun, source⟩ node value = (changed, .ok count)) :
    query.append document value = (way.within document changed, .ok count) := by
  cases hfunction : query.function with
  | some function =>
      rw [append, forEach, locate_beyondRun_eq_error hfunction] at happend
      cases (Prod.mk.inj happend).2
  | none =>
      rw [append, forEach, locate_beyondRun source hfunction] at happend
      rw [append, forEach, locate_of_trace? hfunction h]
      simp only [Location.ascending_map_append] at happend ⊢
      exact visitAt_map_append (Accessor.resolve?_of_trace? h) happend

/-- A query that is nothing but its run names the node of the run. -/
theorem locate_of_isRun
    (hrun : query.IsRun)
    (h : Accessor.trace? query.leadingRun document = some (way, node)) :
    query.locate document = .ok [way] := by
  have hfunction : query.function = none := congrArg Chain.function hrun
  have hselectors : query.beyondRun.selectors = [] := congrArg Chain.selectors hrun
  rw [locate_of_trace? hfunction h, beyondLocations, hselectors]
  simp [select]

/-- What a query locates where its run leads nowhere is nothing, if it locates nodes at all. -/
theorem removeAll_of_trace?_eq_none
    (hfunction : query.function = none)
    (h : Accessor.trace? query.leadingRun document = none) :
    query.removeAll document = .ok (document, 0) := by
  rw [removeAll, locate_of_trace?_eq_none hfunction h]
  simp [Except.map, Location.descending, Location.withoutRepeats, removeAt]

theorem removeAll_of_isRun
    (hrun : query.IsRun)
    (h : Accessor.trace? query.leadingRun document = some (way, node)) :
    query.removeAll document = .ok (removeAt [way] document) := by
  rw [removeAll, locate_of_isRun hrun h]
  simp [Except.map, Location.descending, Location.withoutRepeats]

/-- The chain beyond such a query names the node that it is evaluated on. -/
theorem locate_root
    (hrun : query.IsRun)
    (source : String)
    (node : Value) :
    locate ⟨query.beyondRun, source⟩ node = .ok [[]] := by
  rw [hrun]
  rfl

theorem update_of_isRun
    (hrun : query.IsRun)
    (value : Value)
    (h : Accessor.trace? query.leadingRun document = some (way, node)) :
    query.update document value = .ok (way.within document value, 1) := by
  refine @update_of_trace? _ _ _ _ "" _ _ _ h ?_
  rw [update, locate_root hrun]
  simp [Except.map, Location.sorted, replaceAt, Location.replace?]

theorem append_of_isRun
    (hrun : query.IsRun)
    (h : Accessor.trace? query.leadingRun document = some (way, node))
    (happend : appendTo value node = .ok changed) :
    query.append document value = (way.within document changed, .ok 1) := by
  refine @append_of_trace? _ _ _ _ "" _ _ _ h ?_
  rw [append, forEach, locate_root hrun]
  simp [Location.ascending, Location.sorted, Location.withoutRepeats, visitAt,
    Location.resolve?, Location.replace?, happend]

end Run
end Query
end FieldQuery
