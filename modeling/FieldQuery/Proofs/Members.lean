import FieldQuery.Value.Members

/-!
# Lookup in members

What a change of the members of a map does to the value under each name.
-/

namespace FieldQuery
namespace Members

variable {α : Type}
variable {name other : String}
variable {members : Members α}

theorem get?_replace_self
    {old : α}
    (new : α)
    (h : members.get? name = some old) :
    (members.replace name new).get? name = some new := by
  induction members with
  | nil =>
      cases h
  | cons entry rest ih =>
      obtain ⟨key, value⟩ := entry
      by_cases hkey : key = name
      · simp [replace, get?, hkey]
      · simp only [get?, if_neg hkey] at h
        simp [replace, get?, hkey, ih h]

theorem get?_replace_of_ne
    (new : α)
    (h : other ≠ name) :
    (members.replace name new).get? other = members.get? other := by
  induction members with
  | nil =>
      rfl
  | cons entry rest ih =>
      obtain ⟨key, value⟩ := entry
      by_cases hkey : key = name
      · have hne : key ≠ other := fun heq => h (heq.symm.trans hkey)
        simp [replace, get?, hkey, hkey ▸ hne]
      · simp [replace, get?, hkey, ih]

theorem replace_replace
    (first second : α) :
    (members.replace name first).replace name second = members.replace name second := by
  induction members with
  | nil =>
      rfl
  | cons entry rest ih =>
      obtain ⟨key, value⟩ := entry
      by_cases hkey : key = name
      · simp [replace, hkey]
      · simp [replace, hkey, ih]

/-- To put back the value that a name has changes nothing. -/
theorem replace_self
    {value : α}
    (h : members.get? name = some value) :
    members.replace name value = members := by
  induction members with
  | nil =>
      rfl
  | cons entry rest ih =>
      obtain ⟨key, old⟩ := entry
      by_cases hkey : key = name
      · simp only [get?, if_pos hkey, Option.some.injEq] at h
        simp [replace, hkey, h]
      · simp only [get?, if_neg hkey] at h
        simp [replace, hkey, ih h]

/-- An added value stands in front of the first greater name. -/
theorem add_eq
    (value : α) :
    ∃ before after,
      members = before ++ after ∧
      members.add name value = before ++ (name, value) :: after := by
  induction members with
  | nil =>
      exact ⟨[], [], rfl, rfl⟩
  | cons entry rest ih =>
      obtain ⟨key, old⟩ := entry
      by_cases hless : name < key
      · exact ⟨[], (key, old) :: rest, rfl, by simp [add, hless]⟩
      · obtain ⟨before, after, hrest, hadd⟩ := ih
        refine ⟨(key, old) :: before, after, by rw [hrest]; rfl, ?_⟩
        simp [add, hless, hadd]

theorem get?_append
    (front rest : Members α) :
    Members.get? name (front ++ rest) = (front.get? name).or (rest.get? name) := by
  induction front with
  | nil =>
      rfl
  | cons entry front ih =>
      obtain ⟨key, value⟩ := entry
      by_cases hkey : key = name
      · simp [get?, hkey]
      · simp [get?, hkey, ih]

/-- A value that was put under a name is found there. -/
theorem get?_insert_self
    (value : α) :
    (members.insert name value).get? name = some value := by
  unfold insert
  split
  · next old h => exact get?_replace_self value h
  · next h =>
      obtain ⟨before, after, hmembers, hadd⟩ := @add_eq α name members value
      rw [hmembers, get?_append, Option.or_eq_none_iff] at h
      rw [hadd, get?_append, h.1]
      simp [get?]

/-- Under every other name there is what was there before. -/
theorem get?_insert_of_ne
    (value : α)
    (h : other ≠ name) :
    (members.insert name value).get? other = members.get? other := by
  unfold insert
  split
  · exact get?_replace_of_ne value h
  · obtain ⟨before, after, hmembers, hadd⟩ := @add_eq α name members value
    rw [hadd, hmembers, get?_append, get?_append, get?, if_neg h.symm]

/-- An added value can be put another one in place of. -/
theorem replace_add
    (first second : α)
    (h : members.get? name = none) :
    (members.add name first).replace name second = members.add name second := by
  induction members with
  | nil =>
      simp [add, replace]
  | cons entry rest ih =>
      obtain ⟨key, old⟩ := entry
      by_cases hkey : key = name
      · simp [get?, hkey] at h
      · simp only [get?, if_neg hkey] at h
        by_cases hless : name < key
        · simp [add, replace, hless]
        · simp [add, replace, hless, hkey, ih h]

/-- Of two values that are put under a name one after the other, the second counts. -/
theorem insert_insert
    (first second : α) :
    (members.insert name first).insert name second = members.insert name second := by
  have hfirst : (members.insert name first).get? name = some first := get?_insert_self first
  have houter : (members.insert name first).insert name second =
      (members.insert name first).replace name second := by
    rw [insert.eq_1 name second, hfirst]
  rw [houter, insert, insert]
  cases hget : members.get? name with
  | some old => exact replace_replace first second
  | none => exact replace_add first second hget

theorem insert_ne_nil
    (value : α) :
    members.insert name value ≠ [] := by
  intro hnil
  have hget : (members.insert name value).get? name = some value := get?_insert_self value
  rw [hnil] at hget
  cases hget

/-- Nothing is taken out if a name is not there. -/
theorem erase_of_get?_eq_none
    (h : members.get? name = none) :
    members.erase name = members := by
  induction members with
  | nil =>
      rfl
  | cons entry rest ih =>
      obtain ⟨key, value⟩ := entry
      by_cases hkey : key = name
      · simp [get?, hkey] at h
      · simp only [get?, if_neg hkey] at h
        simp [erase, hkey, ih h]

section Found

variable {front rest : Members α}
variable {value : α}

/-- A value that is found under a name stands behind members of other names. -/
theorem exists_split_of_get?
    (h : members.get? name = some value) :
    ∃ front rest, members = front ++ (name, value) :: rest ∧ name ∉ front.names := by
  induction members with
  | nil =>
      cases h
  | cons entry more ih =>
      obtain ⟨key, old⟩ := entry
      by_cases hkey : key = name
      · simp only [get?, if_pos hkey, Option.some.injEq] at h
        exact ⟨[], more, by rw [hkey, h]; rfl, List.not_mem_nil⟩
      · simp only [get?, if_neg hkey] at h
        obtain ⟨front, rest, rfl, hfront⟩ := ih h
        refine ⟨(key, old) :: front, rest, rfl, ?_⟩
        exact List.not_mem_cons_of_ne_of_not_mem (fun hname => hkey hname.symm) hfront

theorem mem_of_get?
    (h : members.get? name = some value) :
    (name, value) ∈ members := by
  obtain ⟨front, rest, rfl, -⟩ := exists_split_of_get? h
  exact List.mem_append_right _ List.mem_cons_self

theorem get?_behind
    (h : name ∉ front.names) :
    Members.get? name (front ++ (name, value) :: rest) = some value := by
  induction front with
  | nil =>
      simp [get?]
  | cons entry front ih =>
      obtain ⟨hkey, hfront⟩ := not_or.1 (mt List.mem_cons.2 h)
      rw [List.cons_append, get?, if_neg fun heq => hkey heq.symm, ih hfront]

theorem replace_behind
    (new : α)
    (h : name ∉ front.names) :
    Members.replace name new (front ++ (name, value) :: rest) = front ++ (name, new) :: rest := by
  induction front with
  | nil =>
      simp [replace]
  | cons entry front ih =>
      obtain ⟨hkey, hfront⟩ := not_or.1 (mt List.mem_cons.2 h)
      rw [List.cons_append, replace, if_neg fun heq => hkey heq.symm, ih hfront]
      rfl

theorem erase_behind
    (h : name ∉ front.names) :
    Members.erase name (front ++ (name, value) :: rest) = front ++ rest := by
  induction front with
  | nil =>
      simp [erase]
  | cons entry front ih =>
      obtain ⟨hkey, hfront⟩ := not_or.1 (mt List.mem_cons.2 h)
      rw [List.cons_append, erase, if_neg fun heq => hkey heq.symm, ih hfront]
      rfl

end Found

end Members
end FieldQuery
