import FieldQuery.Proofs.Documents
import FieldQuery.Proofs.InPlace
import FieldQuery.Proofs.Matching
import FieldQuery.Proofs.Native

/-!
# Stored documents are well formed

No access to a memory store brings about a map with two members of one name:
what is put somewhere is well formed, and what is changed on the way to it
stays well formed. So every document that a client finds in a store is.
-/

namespace FieldQuery

namespace Members

variable {α : Type}

theorem erase_sublist
    (name : String)
    (members : Members α) :
    (members.erase name).Sublist members := by
  induction members with
  | nil => exact .slnil
  | cons entry rest ih =>
      obtain ⟨key, value⟩ := entry
      rw [erase]
      split
      · exact List.sublist_cons_self _ _
      · exact ih.cons_cons _

end Members

namespace Value

variable {document new : Value}
variable {name : String}
variable {members : Members Value}

theorem WellFormed.insert
    (h : (Value.map members).WellFormed)
    (hnew : new.WellFormed) :
    (Value.map (Members.insert name new members)).WellFormed := by
  obtain ⟨hnames, hmembers⟩ := wellFormed_map_iff.1 h
  refine .map (Members.nodup_names_insert new hnames) fun member hmember => ?_
  rcases Members.mem_insert hmember with rfl | hold
  · exact hnew
  · exact hmembers member hold

theorem WellFormed.erase
    (h : (Value.map members).WellFormed) :
    (Value.map (Members.erase name members)).WellFormed := by
  obtain ⟨hnames, hmembers⟩ := wellFormed_map_iff.1 h
  have hsub := Members.erase_sublist name members
  exact .map (hnames.sublist (hsub.map Prod.fst)) fun member hmember =>
    hmembers member (hsub.subset hmember)

/-- A well-formed value with a well-formed child put in place of another one. -/
theorem WellFormed.replace
    {segment : Segment}
    {child : Value}
    (h : document.WellFormed)
    (hnew : new.WellFormed)
    (hchild : segment.get? document = some child) :
    (segment.replace new document).WellFormed := by
  cases segment with
  | member name =>
      cases document with
      | map members =>
          have hfound : Members.get? name members = some child := hchild
          have hinsert : Members.insert name new members = Members.replace name new members := by
            rw [Members.insert, hfound]
          rw [Segment.replace, ← hinsert]
          exact h.insert hnew
      | _ => cases hchild
  | index i =>
      cases document with
      | list items =>
          refine .list fun item hitem => ?_
          rcases List.mem_or_eq_of_mem_set hitem with hold | rfl
          · exact wellFormed_list_iff.1 h item hold
          · exact hnew
      | _ => cases hchild

theorem WellFormed.within
    {way : Location}
    {node : Value}
    (h : document.WellFormed)
    (hnew : new.WellFormed)
    (hnode : way.resolve? document = some node) :
    (way.within document new).WellFormed := by
  induction way generalizing document with
  | nil => exact hnew
  | cons segment way ih =>
      obtain ⟨child, hchild, hrest⟩ := Option.bind_eq_some_iff.1 hnode
      have hinner := ih (h.of_mem_children (h.mem_children_iff.2 hchild)) hrest
      rw [Location.within_cons new hchild hrest]
      exact h.replace hinner hchild

end Value

namespace Store

/-- Whether a change makes well-formed values of well-formed values. -/
def Lawful
    (change : Value → Except StoreError Value) : Prop :=
  ∀ value changed, value.WellFormed → change value = .ok changed → changed.WellFormed

theorem lawful_setKey
    (key : String)
    {new : Value}
    (hnew : new.WellFormed) :
    Lawful (setKey key new) := by
  intro value changed h hset
  cases value with
  | map members =>
      obtain rfl := Except.ok.inj hset
      exact h.insert hnew
  | _ => cases hset

theorem lawful_setIndex
    (index : Int)
    {new : Value}
    (hnew : new.WellFormed) :
    Lawful (setIndex index new) := by
  intro value changed h hset
  cases value with
  | list items =>
      have hitems := Value.wellFormed_list_iff.1 h
      rw [setIndex] at hset
      split at hset
      · obtain rfl := Except.ok.inj hset
        refine .list fun item hitem => ?_
        rcases List.mem_append.1 hitem with hold | hlast
        · exact hitems item hold
        · exact List.mem_singleton.1 hlast ▸ hnew
      · cases hposition : boundedPosition index items.length with
        | error error =>
            rw [hposition] at hset
            cases hset
        | ok position =>
            rw [hposition] at hset
            obtain rfl := Except.ok.inj hset
            refine .list fun item hitem => ?_
            rcases List.mem_or_eq_of_mem_set hitem with hold | rfl
            · exact hitems item hold
            · exact hnew
  | _ => cases hset

theorem lawful_removeKey
    (key : String) :
    Lawful (removeKey key) := by
  intro value changed h hremove
  cases value with
  | map members =>
      obtain rfl := Except.ok.inj hremove
      exact h.erase
  | _ => cases hremove

theorem lawful_popIndex
    (index : Int) :
    Lawful (popIndex index) := by
  intro value changed h hpop
  cases value with
  | list items =>
      rw [popIndex] at hpop
      cases hposition : boundedPosition index items.length with
      | error error =>
          rw [hposition] at hpop
          cases hpop
      | ok position =>
          rw [hposition] at hpop
          obtain rfl := Except.ok.inj hpop
          exact .list fun item hitem =>
            Value.wellFormed_list_iff.1 h item ((List.eraseIdx_sublist _ _).subset hitem)
  | _ => cases hpop

/-- A lawful change inside a value is a lawful change of the value. -/
theorem Lawful.changeAt
    {change : Value → Except StoreError Value}
    (h : Lawful change)
    (contexts : List Accessor) :
    Lawful (changeAt change contexts) := by
  intro value result hvalue hchange
  obtain ⟨way, node, changed, htrace, hchanged, rfl⟩ := trace?_of_changeAt hchange
  have hnode := Accessor.resolve?_of_trace? htrace
  exact hvalue.within (h node changed (Query.wellFormed_of_resolve? hvalue hnode) hchanged) hnode

/-- An operation that writes a well-formed value leaves a well-formed field. -/
theorem Operation.wellFormed_write
    {operation : Operation}
    {field : Option Value}
    {result : Value}
    (hvalue : ∀ value, operation.value? = some value → value.WellFormed)
    (hfield : ∀ document, field = some document → document.WellFormed)
    (h : operation.write field = .ok result) :
    result.WellFormed := by
  have lawful
      {change : Value → Except StoreError Value}
      {contexts : List Accessor}
      (hchange : Lawful change)
      (hwrite : (do changeAt change contexts (← present field)) = .ok result) :
      result.WellFormed := by
    cases field with
    | none => cases hwrite
    | some document => exact hchange.changeAt contexts document result (hfield document rfl) hwrite
  unfold Operation.write at h
  split at h
  · obtain rfl := Except.ok.inj h
    exact hvalue _ rfl
  · refine lawful_setKey _ (hvalue _ rfl) _ _ ?_ h
    cases field with
    | none => exact .map List.nodup_nil fun _ hmember => nomatch hmember
    | some document => exact hfield document rfl
  · exact lawful (lawful_setKey _ (hvalue _ rfl)) h
  · exact lawful (lawful_setIndex _ (hvalue _ rfl)) h
  · exact lawful (lawful_removeKey _) h
  · exact lawful (lawful_popIndex _) h
  · cases h

namespace Records

/-- Whether every field of every record is well formed. -/
def WellFormed
    (records : Records) : Prop :=
  ∀ entry ∈ records, ∀ member ∈ entry.2.fields, member.2.WellFormed

variable {records : Records}
variable {key : RecordKey}
variable {field : String}
variable {value : Value}

theorem WellFormed.getD
    (h : records.WellFormed)
    {member : String × Value}
    (hmember : member ∈ ((records.get? key).getD .blank).fields) :
    member.2.WellFormed := by
  cases hfound : records.get? key with
  | none =>
      rw [hfound] at hmember
      cases hmember
  | some record =>
      rw [hfound] at hmember
      exact h _ (mem_of_get? hfound) member hmember

/-- The records stay well formed if a field of one is set. -/
theorem WellFormed.put
    (h : records.WellFormed)
    (hvalue : value.WellFormed) :
    (records.put key (((records.get? key).getD .blank).withField field value)).WellFormed := by
  intro entry hentry member hmember
  rcases mem_put hentry with rfl | hold
  · rcases Members.mem_insert hmember with rfl | hkept
    · exact hvalue
    · exact h.getD hkept
  · exact h entry hold member hmember

theorem WellFormed.erase
    (h : records.WellFormed) :
    (records.erase key).WellFormed := by
  intro entry hentry
  exact h entry ((erase_sublist key records).subset hentry)

end Records

/-- Whether what an access puts into a store is well formed. -/
def Access.WellFormed :
    Access → Prop
  | .call made => ∀ value, made.operation.value? = some value → value.WellFormed
  | .insert _ _ value => value.WellFormed
  | .remove _ => True

namespace MemoryStore

variable {store : MemoryStore}

theorem wellFormed_of_field?
    {key : RecordKey}
    {field : String}
    {document : Value}
    (h : store.records.WellFormed)
    (hfield : store.field? key field = some document) :
    document.WellFormed := by
  obtain ⟨record, hrecord, hdocument⟩ := Option.bind_eq_some_iff.1 hfield
  exact h _ (Records.mem_of_get? hrecord) _ (Members.mem_of_get? hdocument)

/-- A store that holds well-formed documents holds them after an access, too. -/
theorem wellFormed_accessed
    {access : Access}
    (h : store.records.WellFormed)
    (haccess : access.WellFormed) :
    (store.accessed access).records.WellFormed := by
  cases access with
  | insert key field value => exact h.put haccess
  | remove key => exact h.erase
  | call call =>
      cases call with
      | fetch key operation policy => exact h
      | apply key operation options =>
          rcases happly : store.apply key operation options with ⟨result, after⟩
          have hafter : store.accessed (.call (.apply key operation options)) = after :=
            congrArg Prod.snd happly
          rw [hafter]
          cases result with
          | error error =>
              rw [apply_eq_error happly]
              exact h
          | ok generation =>
              obtain ⟨record, hwrite, -, hrecords⟩ := apply_eq_ok happly
              obtain ⟨before, value, htarget, -, hvalue, rfl⟩ := write_eq_ok hwrite
              rw [field?_of_target htarget] at hvalue
              rw [hrecords, eq_getD_of_target htarget]
              refine h.put (Operation.wellFormed_write haccess ?_ hvalue)
              exact fun document hdocument => wellFormed_of_field? h hdocument

/-- Whatever led to a store, it holds well-formed documents if only such were put into it. -/
theorem wellFormed_reached
    {accesses : List Access}
    (h : ∀ access ∈ accesses, access.WellFormed) :
    (reached accesses).records.WellFormed := by
  induction accesses with
  | nil =>
      intro entry hentry
      cases hentry
  | cons access before ih =>
      obtain ⟨haccess, hbefore⟩ := List.forall_mem_cons.1 h
      exact wellFormed_accessed (ih hbefore) haccess

end MemoryStore
end Store
end FieldQuery
