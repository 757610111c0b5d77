import FieldQuery.Client.Session
import FieldQuery.Proofs.Edits
import FieldQuery.Proofs.Plan
import FieldQuery.Proofs.Runs

/-!
# Native reads and writes

A store reads at the end of a run of accessors what the run leads to, and
fails to find anything where the run leads nowhere. It writes there by
replacing the node in its place. A key that is not there yet, or the index
behind the last element, is added to the collection that the run stops at.
-/

namespace FieldQuery

namespace Accessor

theorem follow?_append
    (front rest : List Accessor)
    (value : Value) :
    follow? (front ++ rest) value = (follow? front value).bind (follow? rest) := by
  induction front generalizing value with
  | nil =>
      rfl
  | cons accessor front ih =>
      rw [List.cons_append, follow?, follow?]
      cases accessor.get? value with
      | none => rfl
      | some child => exact ih child

theorem follow?_concat
    (front : List Accessor)
    (last : Accessor)
    (value : Value) :
    follow? (front ++ [last]) value = (follow? front value).bind last.get? := by
  have hlast : follow? [last] = last.get? := by
    funext node
    exact Option.bind_fun_some (last.get? node)
  rw [follow?_append, hlast]

end Accessor

namespace Store

open Accessor (follow? trace?)

/-- A descent along accessors ends at the node that they lead to. -/
theorem descend_of_follow?
    {contexts : List Accessor}
    {value node : Value}
    (h : follow? contexts value = some node) :
    descend contexts value = .ok node := by
  induction contexts generalizing value with
  | nil =>
      exact congrArg Except.ok (Option.some.inj h)
  | cons context rest ih =>
      obtain ⟨child, hchild, hrest⟩ := Option.bind_eq_some_iff.1 h
      rw [descend, hchild]
      exact ih hrest

theorem descend_of_follow?_eq_none
    {contexts : List Accessor}
    {value : Value}
    (h : follow? contexts value = none) :
    ∃ reason, descend contexts value = .error (.notApplicable reason) := by
  induction contexts generalizing value with
  | nil =>
      cases h
  | cons context rest ih =>
      rw [follow?] at h
      rw [descend]
      cases hchild : context.get? value with
      | none => exact ⟨_, rfl⟩
      | some child =>
          rw [hchild] at h
          exact ih h

/-- What a read must return if a value is to be found, or if there is none. -/
def Finds
    (found : Option Value) :
    Except StoreError (Option Value) → Prop
  | .ok value => value = found
  | .error error => found = none ∧ ∀ path, Client.translate path .fetch error = .objectNotFound path

/-- A read cannot fail if a value is to be found. -/
theorem Finds.eq_ok
    {value : Value}
    {result : Except StoreError (Option Value)}
    (h : Finds (some value) result) :
    result = .ok (some value) := by
  cases result with
  | ok found => exact congrArg Except.ok h
  | error error => cases h.1

/-- In the collection at hand a read finds the child that the last accessor names. -/
theorem finds_lookKey
    (key : String)
    (node : Value) :
    Finds ((Accessor.key key).get? node) (lookKey key (some node)) := by
  cases node with
  | map members => rfl
  | _ => exact ⟨rfl, fun _ => rfl⟩

theorem finds_lookIndex
    (field : String)
    (index : Int)
    (node : Value) :
    Finds ((Accessor.index index).get? node) (lookIndex field index (some node)) := by
  cases node with
  | list items =>
      rw [lookIndex, boundedPosition, Accessor.get?]
      cases position? index items.length with
      | none => exact ⟨rfl, fun _ => rfl⟩
      | some position => rfl
  | _ => exact ⟨rfl, fun _ => rfl⟩

/-- The lookup of a child of a collection. -/
def lookChild
    (field : String) :
    Accessor → Option Value → Except StoreError (Option Value)
  | .key key => lookKey key
  | .index index => lookIndex field index

theorem finds_lookChild
    (field : String)
    (last : Accessor)
    (node : Value) :
    Finds (last.get? node) (lookChild field last (some node)) := by
  cases last with
  | key key => exact finds_lookKey key node
  | index index => exact finds_lookIndex field index node

theorem read_get_access
    (name : String)
    (front : List Accessor)
    (last : Accessor)
    (field : Option Value) :
    (Operation.get name front (.access last)).read field =
      (collection field front).bind (lookChild name last) := by
  cases last <;> rfl

/-- Behind some contexts a read finds what one accessor more leads to. -/
theorem finds_read_access
    (name : String)
    (front : List Accessor)
    (last : Accessor)
    (field : Option Value) :
    Finds (field.bind (follow? (front ++ [last])))
      ((Operation.get name front (.access last)).read field) := by
  rw [read_get_access]
  cases field with
  | none =>
      rw [collection, present]
      by_cases hfront : front.isEmpty
      · rw [if_pos hfront]
        cases last with
        | key key => rfl
        | index index => exact ⟨rfl, fun _ => rfl⟩
      · rw [if_neg hfront]
        exact ⟨rfl, fun _ => rfl⟩
  | some value =>
      have hcollection : collection (some value) front = (descend front value).map some := by
        cases front <;> rfl
      rw [Option.bind_some, Accessor.follow?_concat, hcollection]
      cases hnode : follow? front value with
      | none =>
          obtain ⟨reason, hdescend⟩ := descend_of_follow?_eq_none hnode
          rw [hdescend]
          exact ⟨rfl, fun _ => rfl⟩
      | some node =>
          rw [descend_of_follow? hnode]
          exact finds_lookChild name last node

/-- A read finds what its accessors lead to in the field, if there is a field. -/
theorem finds_read
    (name : String)
    (run : List Accessor)
    (field : Option Value) :
    Finds (field.bind (follow? run))
      ((Operation.get name
        (Path.Plan.endpoints (.root :: run.map .access)).1
        (Path.Plan.endpoints (.root :: run.map .access)).2).read field) := by
  rcases List.eq_nil_or_concat run with rfl | ⟨front, last, rfl⟩
  · exact (Option.bind_fun_some field).symm
  · rw [List.concat_eq_append, Path.endpoints_concat]
    exact finds_read_access name front last field

/-- A change is made to the node that the contexts lead to, and put back in its place. -/
theorem changeAt_of_trace?
    {contexts : List Accessor}
    {value node : Value}
    {way : Location}
    (change : Value → Except StoreError Value)
    (h : trace? contexts value = some (way, node)) :
    changeAt change contexts value = (change node).map (way.within value) := by
  induction contexts generalizing value way with
  | nil =>
      obtain ⟨rfl, rfl⟩ := Prod.mk.inj (Option.some.inj h)
      rw [changeAt]
      cases change value <;> rfl
  | cons context rest ih =>
      obtain ⟨⟨segment, child⟩, hlocate, hrest⟩ := Option.bind_eq_some_iff.1 h
      obtain ⟨⟨more, found⟩, hmore, heq⟩ := Option.map_eq_some_iff.1 hrest
      obtain ⟨rfl, rfl⟩ := Prod.mk.inj heq
      have hchild := Accessor.segment_get?_of_locate? hlocate
      have hfound := Accessor.resolve?_of_trace? hmore
      rw [changeAt, hlocate]
      simp only [ih hmore]
      cases change found with
      | error error => rfl
      | ok changed => exact congrArg Except.ok (Location.within_cons changed hchild hfound).symm

theorem changeAt_of_trace?_eq_none
    {contexts : List Accessor}
    {value : Value}
    (change : Value → Except StoreError Value)
    (h : trace? contexts value = none) :
    ∃ reason, changeAt change contexts value = .error (.notApplicable reason) := by
  induction contexts generalizing value with
  | nil =>
      cases h
  | cons context rest ih =>
      rw [trace?] at h
      rw [changeAt]
      cases hlocate : context.locate? value with
      | none => exact ⟨_, rfl⟩
      | some located =>
          rw [hlocate, Option.bind_some, Option.map_eq_none_iff] at h
          obtain ⟨reason, hchange⟩ := ih h
          exact ⟨reason, by simp only [hchange]; rfl⟩

/-- A change that succeeds is made to a node that is there. -/
theorem trace?_of_changeAt
    {change : Value → Except StoreError Value}
    {contexts : List Accessor}
    {value result : Value}
    (h : changeAt change contexts value = .ok result) :
    ∃ way node changed,
      trace? contexts value = some (way, node) ∧
      change node = .ok changed ∧
      result = way.within value changed := by
  cases htrace : trace? contexts value with
  | none =>
      obtain ⟨reason, hchange⟩ := changeAt_of_trace?_eq_none change htrace
      rw [hchange] at h
      cases h
  | some traced =>
      obtain ⟨way, node⟩ := traced
      rw [changeAt_of_trace? change htrace] at h
      cases hchanged : change node with
      | error error =>
          rw [hchanged] at h
          cases h
      | ok changed =>
          rw [hchanged] at h
          exact ⟨way, node, changed, rfl, hchanged, (Except.ok.inj h).symm⟩

/-- The change that sets a child of a collection. -/
def setChild
    (value : Value) :
    Accessor → Value → Except StoreError Value
  | .key key => setKey key value
  | .index index => setIndex index value

/-- The change that takes a child out of a collection. -/
def removeChild :
    Accessor → Value → Except StoreError Value
  | .key key => removeKey key
  | .index index => popIndex index

theorem write_put_access
    (name : String)
    (front : List Accessor)
    (last : Accessor)
    (value document : Value) :
    (Operation.put name front value (.access last)).write (some document) =
      changeAt (setChild value last) front document := by
  cases last with
  | key key => cases front <;> rfl
  | index index => cases front <;> rfl

theorem write_delete_access
    (name : String)
    (front : List Accessor)
    (last : Accessor)
    (document : Value) :
    (Operation.delete name front (.access last)).write (some document) =
      changeAt (removeChild last) front document := by
  cases last with
  | key key => cases front <;> rfl
  | index index => cases front <;> rfl

/-- A collection with one entry more under a new key, or one element more at the end. -/
inductive Grows
    (value : Value) :
    Accessor → Value → Value → Prop where
  | entry
      {key : String}
      {before after : Members Value}
      (hnew : Members.get? key (before ++ after) = none) :
      Grows value (.key key) (.map (before ++ after)) (.map (before ++ (key, value) :: after))
  | element
      {items : List Value} :
      Grows value (.index items.length) (.list items) (.list (items ++ [value]))

/-- The index behind the last element has no position yet. -/
theorem position?_length
    (length : Nat) :
    position? length length = none := by
  rw [position?]
  have hsign : ¬ (length : Int) < 0 := by omega
  simp [hsign]

theorem lt_of_position?
    {index : Int}
    {length position : Nat}
    (h : position? index length = some position) :
    position < length := by
  rw [position?] at h
  by_cases hrange : 0 ≤ (if index < 0 then (length : Int) + index else index) ∧
      (if index < 0 then (length : Int) + index else index) < length
  · rw [if_pos hrange, Option.some.injEq] at h
    omega
  · rw [if_neg hrange] at h
    cases h

/-- A located element has a position and stands there. -/
theorem locate?_index_eq_some
    {index : Int}
    {items : List Value}
    {child : Value}
    {segment : Segment}
    (h : (Accessor.index index).locate? (.list items) = some (segment, child)) :
    ∃ position,
      position? index items.length = some position ∧
      items[position]? = some child ∧
      segment = .index position := by
  obtain ⟨position, hposition, hitem⟩ := Option.bind_eq_some_iff.1 h
  obtain ⟨found, hfound, heq⟩ := Option.map_eq_some_iff.1 hitem
  obtain ⟨rfl, rfl⟩ := Prod.mk.inj heq
  exact ⟨position, hposition, hfound, rfl⟩

/-- Where no element is located, the index has no position. -/
theorem position?_of_locate?_eq_none
    {index : Int}
    {items : List Value}
    (h : (Accessor.index index).locate? (.list items) = none) :
    position? index items.length = none := by
  cases hposition : position? index items.length with
  | none => rfl
  | some position =>
      have hlt := lt_of_position? hposition
      simp [Accessor.locate?, hposition, hlt] at h

/-- A child that is there is replaced. -/
theorem setChild_of_locate?
    {last : Accessor}
    {parent child : Value}
    {segment : Segment}
    (value : Value)
    (h : last.locate? parent = some (segment, child)) :
    setChild value last parent = .ok (segment.replace value parent) := by
  cases last with
  | key key =>
      cases parent with
      | map members =>
          obtain ⟨found, hfound, heq⟩ := Option.map_eq_some_iff.1 h
          obtain ⟨rfl, rfl⟩ := Prod.mk.inj heq
          rw [setChild, setKey, Members.insert, hfound]
          rfl
      | _ => cases h
  | index index =>
      cases parent with
      | list items =>
          obtain ⟨position, hposition, -, rfl⟩ := locate?_index_eq_some h
          have hne : index ≠ items.length := by
            rintro rfl
            rw [position?_length] at hposition
            cases hposition
          rw [setChild, setIndex, if_neg hne, boundedPosition, hposition]
          rfl
      | _ => cases h

/-- A child that is not there is added, if it can be set at all. -/
theorem grows_of_setChild
    {last : Accessor}
    {value parent grown : Value}
    (h : last.locate? parent = none)
    (hset : setChild value last parent = .ok grown) :
    Grows value last parent grown := by
  cases last with
  | key key =>
      cases parent with
      | map members =>
          have hnone : Members.get? key members = none := Option.map_eq_none_iff.1 h
          obtain ⟨before, after, hmembers, hadd⟩ := @Members.add_eq _ key members value
          rw [setChild, setKey, Members.insert, hnone, Except.ok.injEq] at hset
          rw [← hset]
          simp only
          rw [hadd, hmembers]
          exact .entry (hmembers ▸ hnone)
      | _ => cases hset
  | index index =>
      cases parent with
      | list items =>
          have hnone := position?_of_locate?_eq_none h
          rw [setChild, setIndex] at hset
          by_cases hend : index = items.length
          · rw [if_pos hend, Except.ok.injEq] at hset
            rw [hend, ← hset]
            exact .element
          · rw [if_neg hend, boundedPosition, hnone] at hset
            cases hset
      | _ => cases hset

/-- A child that is there is detached. -/
theorem removeChild_of_locate?
    {last : Accessor}
    {parent child : Value}
    {segment : Segment}
    (h : last.locate? parent = some (segment, child)) :
    ∃ left, segment.detach? parent = some (child, left) ∧ removeChild last parent = .ok left := by
  cases last with
  | key key =>
      cases parent with
      | map members =>
          obtain ⟨found, hfound, heq⟩ := Option.map_eq_some_iff.1 h
          obtain ⟨rfl, rfl⟩ := Prod.mk.inj heq
          exact ⟨_, by rw [Segment.detach?, hfound]; rfl, rfl⟩
      | _ => cases h
  | index index =>
      cases parent with
      | list items =>
          obtain ⟨position, hposition, hitem, rfl⟩ := locate?_index_eq_some h
          refine ⟨_, by rw [Segment.detach?, hitem]; rfl, ?_⟩
          rw [removeChild, popIndex, boundedPosition, hposition]
          rfl
      | _ => cases h

/-- To remove a child that is not there changes nothing, if it is allowed at all. -/
theorem eq_of_removeChild
    {last : Accessor}
    {parent left : Value}
    (h : last.locate? parent = none)
    (hremove : removeChild last parent = .ok left) :
    left = parent := by
  cases last with
  | key key =>
      cases parent with
      | map members =>
          have hnone : Members.get? key members = none := Option.map_eq_none_iff.1 h
          rw [removeChild, removeKey, Members.erase_of_get?_eq_none hnone, Except.ok.injEq] at hremove
          exact hremove.symm
      | _ => cases hremove
  | index index =>
      cases parent with
      | list items =>
          rw [removeChild, popIndex, boundedPosition, position?_of_locate?_eq_none h] at hremove
          cases hremove
      | _ => cases hremove

section Write

variable {run : List Accessor}
variable {value document node result : Value}
variable {way : Location}

/-- A put at the end of a run replaces the node that the run leads to. -/
theorem write_put_of_trace?
    (name : String)
    (value : Value)
    (h : trace? run document = some (way, node)) :
    (Operation.put name
        (Path.Plan.endpoints (.root :: run.map .access)).1 value
        (Path.Plan.endpoints (.root :: run.map .access)).2).write (some document) =
      .ok (way.within document value) := by
  rcases List.eq_nil_or_concat run with rfl | ⟨front, last, rfl⟩
  · obtain ⟨rfl, -⟩ := Prod.mk.inj (Option.some.inj h)
    rfl
  · rw [List.concat_eq_append] at h ⊢
    obtain ⟨before, parent, segment, hfront, hlocate, rfl⟩ := Accessor.trace?_concat_eq_some h
    have hparent := Accessor.resolve?_of_trace? hfront
    have hchild := Accessor.segment_get?_of_locate? hlocate
    have hnode : Location.resolve? [segment] parent = some node := by
      rw [Location.resolve?, hchild]
      rfl
    rw [Path.endpoints_concat, write_put_access, changeAt_of_trace? _ hfront,
      setChild_of_locate? value hlocate, Location.within_append value hparent hnode,
      Location.within_cons value hchild rfl]
    rfl

/-- Where a run stops short of its last accessor, a put adds what is missing there. -/
theorem grows_of_write_put
    {name : String}
    (h : trace? run document = none)
    (hwrite : (Operation.put name
        (Path.Plan.endpoints (.root :: run.map .access)).1 value
        (Path.Plan.endpoints (.root :: run.map .access)).2).write (some document) = .ok result) :
    ∃ front last way parent grown,
      run = front ++ [last] ∧
      trace? front document = some (way, parent) ∧
      Grows value last parent grown ∧
      result = way.within document grown := by
  rcases List.eq_nil_or_concat run with rfl | ⟨front, last, rfl⟩
  · cases h
  · rw [List.concat_eq_append] at h hwrite ⊢
    rw [Path.endpoints_concat, write_put_access] at hwrite
    obtain ⟨way, parent, grown, htrace, hset, hresult⟩ := trace?_of_changeAt hwrite
    rw [Accessor.trace?_concat, htrace, Option.bind_some, Option.map_eq_none_iff] at h
    exact ⟨front, last, way, parent, grown, rfl, htrace, grows_of_setChild h hset, hresult⟩

/-- A delete at the end of a run removes the node that the run leads to. -/
theorem write_delete_of_trace?
    (name : String)
    (h : trace? run document = some (way, node)) :
    (Operation.delete name
        (Path.Plan.endpoints (.root :: run.map .access)).1
        (Path.Plan.endpoints (.root :: run.map .access)).2).write (some document) =
      .ok (Query.removeAt [way] document).1 := by
  rcases List.eq_nil_or_concat run with rfl | ⟨front, last, rfl⟩
  · obtain ⟨rfl, -⟩ := Prod.mk.inj (Option.some.inj h)
    rfl
  · rw [List.concat_eq_append] at h ⊢
    obtain ⟨before, parent, segment, hfront, hlocate, rfl⟩ := Accessor.trace?_concat_eq_some h
    obtain ⟨left, hdetach, hremove⟩ := removeChild_of_locate? hlocate
    have hremoved : Location.remove? (before ++ [segment]) document =
        some (node, before.within document left) := by
      rw [Location.remove?_append (by simp) (Accessor.resolve?_of_trace? hfront),
        Location.remove?, hdetach]
      rfl
    rw [Path.endpoints_concat, write_delete_access, changeAt_of_trace? _ hfront, hremove,
      Query.removeAt_cons _ _ (by simp), hremoved]
    rfl

/-- Where a run leads nowhere, a delete changes nothing, if it is allowed at all. -/
theorem eq_of_write_delete
    {name : String}
    (h : trace? run document = none)
    (hwrite : (Operation.delete name
        (Path.Plan.endpoints (.root :: run.map .access)).1
        (Path.Plan.endpoints (.root :: run.map .access)).2).write (some document) = .ok result) :
    result = document := by
  rcases List.eq_nil_or_concat run with rfl | ⟨front, last, rfl⟩
  · cases h
  · rw [List.concat_eq_append] at h hwrite
    rw [Path.endpoints_concat, write_delete_access] at hwrite
    obtain ⟨way, parent, left, htrace, hremove, rfl⟩ := trace?_of_changeAt hwrite
    rw [Accessor.trace?_concat, htrace, Option.bind_some, Option.map_eq_none_iff] at h
    rw [eq_of_removeChild h hremove]
    exact Location.within_self (Accessor.resolve?_of_trace? htrace)

end Write
end Store
end FieldQuery
