import FieldQuery.Proofs.Documents
import FieldQuery.Proofs.InPlace
import FieldQuery.Proofs.Native
import FieldQuery.Proofs.Outlines
import FieldQuery.Store.Effect

/-!
# What a write leaves alone

A write that succeeds leaves every other record and every other field as they
were, and of the field that it is about everything but the entry that it
addresses. The way down to the innermost collection is the same before and
after, so the frame of a write is that of its effect on this one collection,
put back in its place.
-/

namespace FieldQuery

namespace Members

variable {α : Type}

/-- Under every other name, members are the same with one between them and without it. -/
theorem get?_around
    {name other : String}
    {value : α}
    {front rest : Members α}
    (h : other ≠ name) :
    Members.get? other (front ++ (name, value) :: rest) = Members.get? other (front ++ rest) := by
  rw [get?_append, get?_append, get?, if_neg h.symm]

end Members

namespace Store

/-- A change at an index that is in bounds is made between what stands before and behind it. -/
theorem exists_split_of_bounded
    {index : Int}
    {items : List Value}
    {change : Nat → Value}
    {result : Value}
    (h : (boundedPosition index items.length).map change = .ok result) :
    ∃ front old rest,
      items = front ++ old :: rest ∧
      position? index items.length = some front.length ∧
      change front.length = result := by
  rw [boundedPosition] at h
  cases hposition : position? index items.length with
  | none =>
      rw [hposition] at h
      cases h
  | some position =>
      rw [hposition] at h
      have hlt := lt_of_position? hposition
      have hlength : (items.take position).length = position :=
        List.length_take_of_le (Nat.le_of_lt hlt)
      refine ⟨items.take position, items[position], items.drop (position + 1), ?_, ?_, ?_⟩
      · rw [List.cons_getElem_drop_succ, List.take_append_drop]
      · rw [hlength]
      · rw [hlength]
        exact Except.ok.inj h

section Effect

variable {key : String}
variable {index : Int}
variable {value collection changed : Value}

theorem effect_of_setKey
    (h : setKey key value collection = .ok changed) :
    (Action.setByKey key value).Effect (.member key) collection changed := by
  cases collection with
  | map members =>
      obtain rfl := Except.ok.inj h
      cases hfound : Members.get? key members with
      | some old =>
          obtain ⟨front, rest, rfl, hfront⟩ := Members.exists_split_of_get? hfound
          rw [Members.insert, hfound]
          simp only
          rw [Members.replace_behind value hfront]
          exact .replaced hfront
      | none =>
          obtain ⟨front, rest, rfl, hadd⟩ := @Members.add_eq _ key members value
          rw [Members.insert, hfound]
          simp only
          rw [hadd]
          exact .added (Members.not_mem_names_of_get?_eq_none hfound)
  | _ => cases h

theorem effect_of_removeKey
    (h : removeKey key collection = .ok changed) :
    (Action.removeByKey key).Effect (.member key) collection changed := by
  cases collection with
  | map members =>
      obtain rfl := Except.ok.inj h
      cases hfound : Members.get? key members with
      | some old =>
          obtain ⟨front, rest, rfl, hfront⟩ := Members.exists_split_of_get? hfound
          rw [Members.erase_behind hfront]
          exact .removed hfront
      | none =>
          rw [Members.erase_of_get?_eq_none hfound]
          exact .unneeded (Members.not_mem_names_of_get?_eq_none hfound)
  | _ => cases h

theorem effect_of_setIndex
    (h : setIndex index value collection = .ok changed) :
    ∃ segment, (Action.setByIndex index value).Effect segment collection changed := by
  cases collection with
  | list items =>
      rw [setIndex] at h
      by_cases hend : index = items.length
      · rw [if_pos hend] at h
        obtain rfl := Except.ok.inj h
        rw [hend]
        exact ⟨_, .pushed⟩
      · rw [if_neg hend] at h
        obtain ⟨front, old, rest, rfl, hposition, rfl⟩ := exists_split_of_bounded h
        rw [List.set_append_right _ _ (Nat.le_refl _), Nat.sub_self, List.set_cons_zero]
        exact ⟨_, .exchanged hposition⟩
  | _ => cases h

theorem effect_of_popIndex
    (h : popIndex index collection = .ok changed) :
    ∃ segment, (Action.popByIndex index).Effect segment collection changed := by
  cases collection with
  | list items =>
      obtain ⟨front, old, rest, rfl, hposition, rfl⟩ := exists_split_of_bounded h
      rw [List.eraseIdx_append_of_length_le (Nat.le_refl _), Nat.sub_self, List.eraseIdx_cons_zero]
      exact ⟨_, .popped hposition⟩
  | _ => cases h

end Effect

namespace Action.Effect

variable {action : Action}
variable {segment other : Segment}
variable {collection changed : Value}

/-- A list stays a list, and a map stays a map. -/
theorem shape_eq
    (h : action.Effect segment collection changed) :
    changed.shape = collection.shape := by
  cases h <;> rfl

theorem isContainer
    (h : action.Effect segment collection changed) :
    collection.outline.isContainer = true := by
  cases h <;> rfl

/-- The other entries are what they were, except behind an element that is popped. -/
theorem get?_of_ne
    (h : action.Effect segment collection changed)
    (hne : other ≠ segment)
    (hbehind : action.isPop = true → ¬ Behind other segment) :
    other.get? changed = other.get? collection := by
  cases other with
  | member name =>
      have hname (key : String) (hkey : Segment.member name ≠ .member key) : name ≠ key :=
        fun heq => hkey (congrArg Segment.member heq)
      cases h with
      | replaced =>
          exact (Members.get?_around (hname _ hne)).trans (Members.get?_around (hname _ hne)).symm
      | added => exact Members.get?_around (hname _ hne)
      | removed => exact (Members.get?_around (hname _ hne)).symm
      | unneeded => rfl
      | exchanged => rfl
      | pushed => rfl
      | popped => rfl
  | index later =>
      cases h with
      | replaced => rfl
      | added => rfl
      | removed => rfl
      | unneeded => rfl
      | exchanged =>
          simp only [Segment.get?]
          grind
      | pushed =>
          simp only [Segment.get?]
          grind
      | popped =>
          have hfront := hbehind rfl
          simp only [Segment.get?, Behind] at hfront ⊢
          grind

/-- Behind an element that is popped, each one moves up by one position. -/
theorem get?_of_popped
    {position later : Nat}
    (h : action.Effect (.index position) collection changed)
    (hpop : action.isPop = true)
    (hlater : position ≤ later) :
    (Segment.index later).get? changed = (Segment.index (later + 1)).get? collection := by
  cases h with
  | exchanged => cases hpop
  | pushed => cases hpop
  | popped =>
      simp only [Segment.get?]
      grind

/-- The frame of an effect on the collection at the end of a way. -/
theorem framed
    {way : Location}
    {document : Value}
    (h : action.Effect segment collection changed)
    (hway : way.resolve? document = some collection) :
    Framed action way segment document (way.within document changed) := by
  have hreplace := Location.replace?_of_resolve? changed hway
  have hchanged := Location.resolve?_within changed hway
  constructor
  · intro location hbelow habove hbehind
    by_cases hfront : way <+: location
    · obtain ⟨further, rfl⟩ := hfront
      rw [Location.resolve?_append, Location.resolve?_append, hway, hchanged]
      cases further with
      | nil => exact absurd ⟨[segment], by rw [List.append_nil]⟩ habove
      | cons next rest =>
          have hne : next ≠ segment := by
            rintro rfl
            exact hbelow ⟨rest, by rw [List.append_assoc]; rfl⟩
          rw [Option.bind_some, Option.bind_some, Location.resolve?, Location.resolve?,
            h.get?_of_ne hne fun hpop => hbehind next rest hpop rfl]
    · have hback : ¬ location <+: way := fun hback =>
        habove (hback.trans (List.prefix_append _ _))
      exact Location.resolve?_of_replace? hback hfront hreplace
  · rintro hpop position later rest rfl hlater
    rw [Location.resolve?_append, Location.resolve?_append, hway, hchanged, Option.bind_some,
      Option.bind_some, Location.resolve?, Location.resolve?, h.get?_of_popped hpop hlater]
  · intro location hfront
    by_cases hend : location = way
    · subst hend
      exact ⟨collection, changed, hway, hchanged, h.isContainer, h.shape_eq,
        fun hne => absurd rfl hne⟩
    · obtain ⟨further, rfl⟩ := hfront
      have hfurther : further ≠ [] := by
        rintro rfl
        exact hend (List.append_nil location).symm
      have houtline := Location.outline_of_replace?
        (fun hback => hend (List.prefix_append _ _ |>.eq_of_length_le hback.length_le)) hreplace
      rw [Location.resolve?_append] at hway
      obtain ⟨container, hcontainer, hbelow⟩ := Option.bind_eq_some_iff.1 hway
      rw [hcontainer, Option.map_some] at houtline
      obtain ⟨kept, hkept, hsame⟩ := Option.map_eq_some_iff.1 houtline
      exact ⟨container, kept, hcontainer, hkept,
        Location.isContainer_of_resolve? hfurther hbelow, Value.shape_eq_of_outline hsame,
        fun _ => hsame⟩

end Action.Effect

/-- What an action that writes makes of the innermost collection. -/
theorem effect_of_write
    {field : String}
    {contexts : List Accessor}
    {action : Action}
    {document result : Value}
    (h : (Operation.act field contexts action).write (some document) = .ok result) :
    ∃ way segment collection changed,
      Accessor.trace? contexts document = some (way, collection) ∧
      action.Effect segment collection changed ∧
      result = way.within document changed := by
  have effect
      {change : Value → Except StoreError Value}
      (hchange : ∀ collection changed, change collection = .ok changed →
        ∃ segment, action.Effect segment collection changed)
      (hwrite : changeAt change contexts document = .ok result) :
      ∃ way segment collection changed,
        Accessor.trace? contexts document = some (way, collection) ∧
        action.Effect segment collection changed ∧
        result = way.within document changed := by
    obtain ⟨way, collection, changed, htrace, hchanged, hresult⟩ := trace?_of_changeAt hwrite
    obtain ⟨segment, heffect⟩ := hchange collection changed hchanged
    exact ⟨way, segment, collection, changed, htrace, heffect, hresult⟩
  cases action with
  | getByKey key => cases contexts <;> cases h
  | getByIndex index => cases contexts <;> cases h
  | setByKey key value =>
      refine effect (fun _ _ hset => ⟨_, effect_of_setKey hset⟩) ?_
      cases contexts <;> exact h
  | setByIndex index value =>
      refine effect (fun _ _ hset => effect_of_setIndex hset) ?_
      cases contexts <;> exact h
  | removeByKey key =>
      refine effect (fun _ _ hremove => ⟨_, effect_of_removeKey hremove⟩) ?_
      cases contexts <;> exact h
  | popByIndex index =>
      refine effect (fun _ _ hpop => effect_of_popIndex hpop) ?_
      cases contexts <;> exact h

/-- What comes of a missing field, and by which operations. -/
theorem cases_of_write_none
    {operation : Operation}
    {result : Value}
    (h : operation.write none = .ok result) :
    operation = .writeField operation.field result ∨
      ∃ entry value,
        operation = .act operation.field [] (.setByKey entry value) ∧
        result = .map [(entry, value)] := by
  cases operation with
  | readField field => cases h
  | writeField field value => exact Or.inl (congrArg _ (Except.ok.inj h))
  | act field contexts action =>
      cases contexts with
      | nil =>
          cases action with
          | setByKey entry value => exact Or.inr ⟨entry, value, rfl, (Except.ok.inj h).symm⟩
          | _ => cases h
      | cons context rest => cases action <;> cases h

/-- What comes of a field that is there: another value altogether, or a change inside it. -/
theorem cases_of_write_some
    {operation : Operation}
    {document result : Value}
    (h : operation.write (some document) = .ok result) :
    operation = .writeField operation.field result ∨
      ∃ action way segment collection changed,
        operation = .act operation.field operation.contexts action ∧
        Accessor.trace? operation.contexts document = some (way, collection) ∧
        way.resolve? result = some changed ∧
        action.Effect segment collection changed ∧
        Framed action way segment document result := by
  cases operation with
  | readField field => cases h
  | writeField field value => exact Or.inl (congrArg _ (Except.ok.inj h))
  | act field contexts action =>
      obtain ⟨way, segment, collection, changed, htrace, heffect, rfl⟩ := effect_of_write h
      have hway := Accessor.resolve?_of_trace? htrace
      exact Or.inr ⟨action, way, segment, collection, changed, rfl, htrace,
        Location.resolve?_within changed hway, heffect, heffect.framed hway⟩

namespace MemoryStore

/--
A write that succeeds changes only its target. Unless the counter starts again,
the generation of its record becomes one more than it was, or one if there was
no such record; the other records and the other fields of the record stay as
they were. A record or a field that was missing comes about only by a write of
the whole field or by a key that is set without a context. In a field that was
there, the contexts lead to a collection, the action has its effect at one
entry of it, and all that is neither around this entry nor at it or below stays
in its place. The same is returned, and the same records are left, where the
write is made in place.
-/
theorem apply_changes_target
    {accesses : List Access}
    {key : RecordKey}
    {operation : Operation}
    {options : WriteOptions}
    {generation : Nat}
    {after : MemoryStore}
    (h : (reached accesses).apply key operation options = (.ok generation, after)) :
    (((reached accesses).generation? key).getD 0 + 1 < UInt32.size →
      generation = ((reached accesses).generation? key).elim 1 (· + 1)) ∧
    after.generation? key = some generation ∧
    (∀ other, other ≠ key → after.record? other = (reached accesses).record? other) ∧
    (∀ name, name ≠ operation.field →
      after.field? key name = (reached accesses).field? key name) ∧
    ((reached accesses).field? key operation.field = none →
      (∃ value,
        operation = .writeField operation.field value ∧
        after.field? key operation.field = some value) ∨
      (∃ entry value,
        operation = .act operation.field [] (.setByKey entry value) ∧
        after.field? key operation.field = some (.map [(entry, value)]))) ∧
    (∀ document, (reached accesses).field? key operation.field = some document →
      ∃ result,
        after.field? key operation.field = some result ∧
        (operation = .writeField operation.field result ∨
          ∃ action way segment collection changed,
            operation = .act operation.field operation.contexts action ∧
            Accessor.trace? operation.contexts document = some (way, collection) ∧
            way.resolve? result = some changed ∧
            action.Effect segment collection changed ∧
            Framed action way segment document result)) ∧
    (Records.reached accesses).applyInPlace key operation options.expected =
      (.ok generation, after.records) := by
  obtain ⟨value, hvalue, hchange⟩ := fieldChange_of_apply h
  obtain ⟨record, hwrite, rfl, hrecords⟩ := apply_eq_ok h
  obtain ⟨start, _, htarget, -, -, rfl⟩ := write_eq_ok hwrite
  refine ⟨?_, ?_, hchange.records, hchange.fields, ?_, ?_, ?_⟩
  · intro hbound
    rw [eq_getD_of_target htarget, generation?]
    rw [generation?] at hbound
    cases hrecord : (reached accesses).record? key with
    | none => rfl
    | some record =>
        rw [hrecord] at hbound
        exact nextGeneration_eq hbound
  · rw [generation?, record?, hrecords, Records.get?_put_self]
    rfl
  · intro hmissing
    rw [hmissing] at hvalue
    rcases cases_of_write_none hvalue with hwhole | ⟨entry, new, hset, rfl⟩
    · exact Or.inl ⟨value, hwhole, hchange.changed⟩
    · exact Or.inr ⟨entry, new, hset, hchange.changed⟩
  · intro document hdocument
    rw [hdocument] at hvalue
    exact ⟨value, hchange.changed, cases_of_write_some hvalue⟩
  · rw [← apply_reached accesses, h]

/-- The key of the record that has rows. -/
def rowsKey : RecordKey :=
  ⟨"library", "shelves", .text "seven"⟩

/-- A document with rows of numbers. -/
def rowsDocument : Value :=
  .map [("rows", .list [.list [.int 1], .list [.int 10, .int 20, .int 30]]), ("tag", .text "x")]

/-- Of the last row, the element three from the end is popped: the ones behind it move up, and
what is beside the rows stays. -/
theorem apply_changes_target_rows :
    ∃ after result,
      (reached [.insert rowsKey "doc" rowsDocument]).apply rowsKey
        (.act "doc" [.key "rows", .index (-1)] (.popByIndex (-3))) ⟨none, some 1⟩ =
        (.ok 2, after) ∧
      after.field? rowsKey "doc" = some result ∧
      after.field? rowsKey "other" = none ∧
      Location.resolve? [.member "rows", .index 1, .index 1] result = some (.int 30) ∧
      Location.resolve? [.member "rows", .index 0] result = some (.list [.int 1]) ∧
      Location.resolve? [.member "tag"] result = some (.text "x") := by
  have happly : (reached [.insert rowsKey "doc" rowsDocument]).apply rowsKey
      (.act "doc" [.key "rows", .index (-1)] (.popByIndex (-3))) ⟨none, some 1⟩ =
      (.ok 2, ((reached [.insert rowsKey "doc" rowsDocument]).apply rowsKey
        (.act "doc" [.key "rows", .index (-1)] (.popByIndex (-3))) ⟨none, some 1⟩).2) := by
    rfl
  obtain ⟨-, -, -, hfields, -, hinside, -⟩ := apply_changes_target happly
  obtain ⟨result, hresult, hwhole | ⟨action, way, segment, collection, changed, haction, htrace,
    -, heffect, hframed⟩⟩ := hinside rowsDocument rfl
  · cases hwhole
  · cases haction
    obtain ⟨rfl, rfl⟩ := Prod.mk.inj (Option.some.inj htrace)
    generalize hitems : Value.list [.int 10, .int 20, .int 30] = row at heffect
    cases heffect with
    | @popped _ _ front _ hposition =>
        rw [← Value.list.inj hitems] at hposition
        have hfront : 0 = front.length := Option.some.inj hposition
        rw [← hfront] at hframed
        refine ⟨_, result, happly, hresult, (hfields "other" (by decide)).trans rfl, ?_, ?_, ?_⟩
        · exact hframed.behind rfl 0 1 [] rfl (by decide)
        · exact hframed.apart _ (by decide) (by decide) (by simp)
        · exact hframed.apart _ (by decide) (by decide) (by simp)

end MemoryStore

end Store
end FieldQuery
