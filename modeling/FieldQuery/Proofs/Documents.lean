import Mathlib.Data.List.Nodup
import FieldQuery.Json.Reader
import FieldQuery.Proofs.Members
import FieldQuery.Value.WellFormed

/-!
# Documents that are read are well formed

A text may repeat a key in a map. The value that it stands for does not: a
member that is put under a name that is present takes the place of the old
one, so members put one after the other never share a name.
-/

namespace FieldQuery

namespace Members

variable {α : Type}
variable {name : String}
variable {members : Members α}

theorem not_mem_names_of_get?_eq_none
    (h : members.get? name = none) :
    name ∉ members.names := by
  induction members with
  | nil => exact List.not_mem_nil
  | cons entry rest ih =>
      obtain ⟨key, value⟩ := entry
      by_cases hkey : key = name
      · simp [get?, hkey] at h
      · simp only [get?, if_neg hkey] at h
        exact List.not_mem_cons_of_ne_of_not_mem (fun hname => hkey hname.symm) (ih h)

/-- A value put under a name stands in place of an old one or among members of other names. -/
theorem insert_cases
    (value : α) :
    (∃ front old rest,
      members = front ++ (name, old) :: rest ∧
      members.insert name value = front ++ (name, value) :: rest) ∨
    (∃ front rest,
      name ∉ members.names ∧
      members = front ++ rest ∧
      members.insert name value = front ++ (name, value) :: rest) := by
  unfold insert
  cases hget : members.get? name with
  | some old =>
      obtain ⟨front, rest, rfl, hfront⟩ := exists_split_of_get? hget
      exact .inl ⟨front, old, rest, rfl, replace_behind value hfront⟩
  | none =>
      obtain ⟨front, rest, hmembers, hadd⟩ := @add_eq α name members value
      exact .inr ⟨front, rest, not_mem_names_of_get?_eq_none hget, hmembers, hadd⟩

theorem nodup_names_insert
    (value : α)
    (h : members.names.Nodup) :
    (members.insert name value).names.Nodup := by
  obtain ⟨front, old, rest, rfl, hinsert⟩ | ⟨front, rest, hname, rfl, hinsert⟩ :=
    @insert_cases α name members value
  · simpa [hinsert, names] using h
  · rw [hinsert, names, List.map_append, List.map_cons, List.nodup_middle, ← List.map_append]
    exact List.nodup_cons.2 ⟨hname, h⟩

theorem mem_insert
    {value : α}
    {member : String × α}
    (h : member ∈ members.insert name value) :
    member = (name, value) ∨ member ∈ members := by
  obtain ⟨front, old, rest, rfl, hinsert⟩ | ⟨front, rest, -, rfl, hinsert⟩ :=
    @insert_cases α name members value
  · rw [hinsert] at h
    simp only [List.mem_append, List.mem_cons] at h ⊢
    tauto
  · rw [hinsert] at h
    simp only [List.mem_append, List.mem_cons] at h ⊢
    tauto

/-- Members put one after the other have different names, and each is one of the pairs put. -/
theorem ofList_sound
    (pairs : List (String × α)) :
    (ofList pairs).names.Nodup ∧ ∀ member ∈ ofList pairs, member ∈ pairs := by
  have hrun (done : Members α) (rest : List (String × α)) (h : done.names.Nodup) :
      (rest.foldl (fun members pair => members.insert pair.1 pair.2) done).names.Nodup ∧
      ∀ member ∈ rest.foldl (fun members pair => members.insert pair.1 pair.2) done,
        member ∈ done ∨ member ∈ rest := by
    induction rest generalizing done with
    | nil => exact ⟨h, fun member hmem => .inl hmem⟩
    | cons pair rest ih =>
        obtain ⟨hnodup, hmem⟩ := ih (done.insert pair.1 pair.2) (nodup_names_insert pair.2 h)
        refine ⟨hnodup, ?_⟩
        intro member hmember
        rcases hmem member hmember with hput | hrest
        · rcases mem_insert hput with rfl | hdone
          · exact .inr List.mem_cons_self
          · exact .inl hdone
        · exact .inr (List.mem_cons_of_mem _ hrest)
  obtain ⟨hnodup, hmem⟩ := hrun [] pairs List.nodup_nil
  exact ⟨hnodup, fun member hmember => (hmem member hmember).resolve_left List.not_mem_nil⟩

end Members

namespace Json
namespace Tree

mutual

/-- The value of a tree is well formed, whatever keys the tree repeats. -/
theorem wellFormed_of_value?
    {room : Nat}
    {value : Value} :
    (tree : Tree) →
    tree.value? room = some value →
    value.WellFormed
  | null, h => by
      obtain rfl := Option.some.inj h
      exact .null
  | bool _, h => by
      obtain rfl := Option.some.inj h
      exact .bool
  | numeral _, h => by
      obtain ⟨number, -, rfl⟩ := Option.map_eq_some_iff.1 h
      exact .number
  | text _, h => by
      obtain ⟨text, -, rfl⟩ := Option.map_eq_some_iff.1 h
      exact .text
  | list items, h => by
      cases room with
      | zero => cases h
      | succ room =>
          obtain ⟨values, hvalues, rfl⟩ := Option.map_eq_some_iff.1 h
          exact .list (wellFormed_of_itemValues? items hvalues)
  | map members, h => by
      cases room with
      | zero => cases h
      | succ room =>
          obtain ⟨pairs, hpairs, rfl⟩ := Option.map_eq_some_iff.1 h
          obtain ⟨hnodup, hmem⟩ := Members.ofList_sound pairs
          exact .map hnodup fun member hmember =>
            wellFormed_of_memberValues? members hpairs member (hmem member hmember)

theorem wellFormed_of_itemValues?
    {room : Nat}
    {values : List Value} :
    (items : List Tree) →
    itemValues? room items = some values →
    ∀ value ∈ values, value.WellFormed
  | [], h => by
      obtain rfl := Option.some.inj h
      simp
  | item :: rest, h => by
      rw [itemValues?] at h
      split at h
      · next value others hvalue hothers =>
          obtain rfl := Option.some.inj h
          simp only [List.mem_cons, forall_eq_or_imp]
          exact ⟨wellFormed_of_value? item hvalue, wellFormed_of_itemValues? rest hothers⟩
      · cases h

theorem wellFormed_of_memberValues?
    {room : Nat}
    {pairs : List (String × Value)} :
    (members : List (List Nat × Tree)) →
    memberValues? room members = some pairs →
    ∀ pair ∈ pairs, pair.2.WellFormed
  | [], h => by
      obtain rfl := Option.some.inj h
      simp
  | (key, member) :: rest, h => by
      rw [memberValues?] at h
      split at h
      · next name value others hname hvalue hothers =>
          obtain rfl := Option.some.inj h
          simp only [List.mem_cons, forall_eq_or_imp]
          exact ⟨wellFormed_of_value? member hvalue, wellFormed_of_memberValues? rest hothers⟩
      · cases h

end

end Tree

/-- Every value that is read from a text is well formed. -/
theorem wellFormed_of_read?
    {text : String}
    {value : Value}
    (h : read? text = some value) :
    value.WellFormed := by
  obtain ⟨tree, -, hvalue⟩ := Option.bind_eq_some_iff.1 h
  exact tree.wellFormed_of_value? hvalue

end Json
end FieldQuery
