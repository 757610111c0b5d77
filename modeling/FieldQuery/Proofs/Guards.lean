import Mathlib.Data.List.Nodup
import FieldQuery.Proofs.InPlace
import FieldQuery.Store.History

/-!
# What a guard finds out

The generation of a record counts its writes since it was dropped last, or
since the store was there. So a write that is guarded by a generation that was
read goes through only if the record was not changed in between, or else was
dropped and has been written again just as often; that is, unless there were so
many writes in between that the counter got round. Generations are not handed
out anew only as long as nobody drops a record.
-/

namespace FieldQuery
namespace Store

namespace Records

variable {key other : RecordKey}
variable {record : Record}
variable {records : Records}

/-- The keys of some records. -/
def keys
    (records : Records) :
    List RecordKey :=
  records.map Prod.fst

theorem get?_eq_none
    (h : key ∉ keys records) :
    records.get? key = none := by
  induction records with
  | nil => rfl
  | cons entry rest ih =>
      have hne : entry.1 ≠ key := fun heq => h (heq ▸ List.mem_cons_self)
      rw [get?, if_neg hne]
      exact ih fun hmem => h (List.mem_cons_of_mem _ hmem)

/-- Nothing is taken out where nothing is found. -/
theorem erase_of_get?_eq_none
    (h : records.get? key = none) :
    records.erase key = records := by
  induction records with
  | nil => rfl
  | cons entry rest ih =>
      rw [get?] at h
      rw [erase]
      split at h
      · cases h
      · next hne => rw [if_neg hne, ih h]

theorem get?_erase_self
    (hkeys : (keys records).Nodup) :
    (records.erase key).get? key = none := by
  induction records with
  | nil => rfl
  | cons entry rest ih =>
      obtain ⟨hfirst, hrest⟩ := List.nodup_cons.1 hkeys
      rw [erase]
      split
      · next heq => exact get?_eq_none (heq ▸ hfirst)
      · next hne =>
          rw [get?, if_neg hne]
          exact ih hrest

theorem get?_erase_of_ne
    (h : other ≠ key) :
    (records.erase key).get? other = records.get? other := by
  induction records with
  | nil => rfl
  | cons entry rest ih =>
      rw [erase]
      split
      · next heq => rw [get?, if_neg (heq ▸ h.symm)]
      · rw [get?, get?, ih]

theorem nodup_keys_put
    (record : Record)
    (h : (keys records).Nodup) :
    (keys (records.put key record)).Nodup := by
  induction records with
  | nil => exact List.nodup_singleton key
  | cons entry rest ih =>
      obtain ⟨hfirst, hrest⟩ := List.nodup_cons.1 h
      rw [put]
      split
      · next heq => exact List.nodup_cons.2 ⟨heq ▸ hfirst, hrest⟩
      · next hne =>
          refine List.nodup_cons.2 ⟨?_, ih hrest⟩
          intro hmem
          obtain ⟨found, hfound, hkey⟩ := List.mem_map.1 hmem
          rcases mem_put hfound with rfl | hold
          · exact hne hkey.symm
          · exact hfirst (hkey ▸ List.mem_map_of_mem hold)

theorem nodup_keys_erase
    (key : RecordKey)
    (h : (keys records).Nodup) :
    (keys (records.erase key)).Nodup :=
  h.sublist ((erase_sublist key records).map Prod.fst)

end Records

section Changes

variable {key : RecordKey}

/-- A record was not written more often than all records together. -/
theorem writesSinceDrop_le
    (key : RecordKey)
    (history : List (RecordKey × Change)) :
    writesSinceDrop (changesOf key history) ≤ writesIn history := by
  have hwritten : ∀ changes : List Change,
      writesSinceDrop changes ≤ changes.countP fun change => change = .written := by
    intro changes
    rw [writesSinceDrop, List.countP_eq_length_filter]
    induction changes with
    | nil => exact Nat.le_refl _
    | cons change rest ih =>
        cases change with
        | written => exact Nat.succ_le_succ ih
        | dropped => exact Nat.zero_le _
  refine Nat.le_trans (hwritten _) ?_
  rw [changesOf, List.countP_map]
  exact List.filter_sublist.countP_le

theorem writesSinceDrop_append
    {later : List Change}
    (earlier : List Change)
    (h : .dropped ∉ later) :
    writesSinceDrop (later ++ earlier) = later.length + writesSinceDrop earlier := by
  induction later with
  | nil => exact (Nat.zero_add _).symm
  | cons change rest ih =>
      have hrest := ih fun hmem => h (List.mem_cons_of_mem _ hmem)
      cases change with
      | written =>
          have hcons : writesSinceDrop (.written :: rest ++ earlier) =
              writesSinceDrop (rest ++ earlier) + 1 := by
            rfl
          rw [hcons, hrest, List.length_cons]
          omega
      | dropped => exact absurd List.mem_cons_self h

theorem writesSinceDrop_append_of_dropped
    {later : List Change}
    (earlier : List Change)
    (h : .dropped ∈ later) :
    writesSinceDrop (later ++ earlier) = writesSinceDrop later := by
  induction later with
  | nil => cases h
  | cons change rest ih =>
      cases change with
      | written =>
          have hrest : Change.dropped ∈ rest := by simpa using h
          exact congrArg (· + 1) (ih hrest)
      | dropped => rfl

/-- What was done to a record between two moments at which it has the same generation. -/
theorem eq_nil_or_dropped
    {later earlier : List Change}
    (hbound : writesSinceDrop later < UInt32.size - 1)
    (h : laterGeneration 0 (writesSinceDrop (later ++ earlier)) =
      laterGeneration 0 (writesSinceDrop earlier)) :
    later = [] ∨
      .dropped ∈ later ∧
        writesSinceDrop later = laterGeneration 0 (writesSinceDrop earlier) := by
  by_cases hdropped : Change.dropped ∈ later
  · rw [writesSinceDrop_append_of_dropped earlier hdropped,
      laterGeneration_eq_add (by omega), Nat.zero_add] at h
    exact Or.inr ⟨hdropped, h⟩
  · have hlength : writesSinceDrop later = later.length := by
      have happend := writesSinceDrop_append [] hdropped
      rw [List.append_nil] at happend
      exact happend
    rw [writesSinceDrop_append earlier hdropped, Nat.add_comm, laterGeneration_add] at h
    have hnone := eq_zero_of_laterGeneration_eq h (hlength ▸ hbound)
    exact Or.inl (List.eq_nil_of_length_eq_zero hnone)

theorem changesOf_append
    (key : RecordKey)
    (later earlier : List (RecordKey × Change)) :
    changesOf key (later ++ earlier) = changesOf key later ++ changesOf key earlier := by
  rw [changesOf, List.filter_append, List.map_append]
  rfl

theorem changesOf_self
    (key : RecordKey)
    (change : Change)
    (history : List (RecordKey × Change)) :
    changesOf key ((key, change) :: history) = change :: changesOf key history := by
  simp [changesOf]

theorem changesOf_of_ne
    {other : RecordKey}
    (change : Change)
    (history : List (RecordKey × Change))
    (h : other ≠ key) :
    changesOf key ((other, change) :: history) = changesOf key history := by
  simp [changesOf, h]

end Changes

namespace MemoryStore

variable {store : MemoryStore}

/-- The generation of a record, or zero if there is none. -/
def generationOf
    (store : MemoryStore)
    (key : RecordKey) :
    Nat :=
  (store.generation? key).getD 0

/-- A write that succeeds puts a record that was written once more. -/
theorem exists_put_of_apply
    {key : RecordKey}
    {operation : Operation}
    {options : WriteOptions}
    {generation : Nat}
    {after : MemoryStore}
    (h : store.apply key operation options = (.ok generation, after)) :
    ∃ record,
      after.records = Records.put key record store.records ∧
      record.generation = nextGeneration (store.generationOf key) := by
  obtain ⟨record, hwrite, -, hrecords⟩ := apply_eq_ok h
  obtain ⟨start, value, htarget, -, -, rfl⟩ := write_eq_ok hwrite
  refine ⟨_, hrecords, ?_⟩
  rw [eq_getD_of_target htarget, generationOf, generation?]
  cases store.record? key <;> rfl

theorem generationOf_put_self
    {after : MemoryStore}
    {key : RecordKey}
    {record : Record}
    (h : after.records = Records.put key record store.records) :
    after.generationOf key = record.generation := by
  rw [generationOf, generation?, record?, h, Records.get?_put_self]
  rfl

theorem generationOf_put_of_ne
    {after : MemoryStore}
    {key other : RecordKey}
    {record : Record}
    (h : after.records = Records.put other record store.records)
    (hne : key ≠ other) :
    after.generationOf key = store.generationOf key := by
  rw [generationOf, generation?, record?, h, Records.get?_put_of_ne _ _ hne]
  rfl

/-- What an access changes, and the records after it. -/
theorem change?_cases
    (store : MemoryStore)
    (access : Access) :
    (store.change? access = none ∧ (store.accessed access).records = store.records) ∨
    (∃ key record,
      store.change? access = some (key, .written) ∧
      (store.accessed access).records = Records.put key record store.records ∧
      record.generation = nextGeneration (store.generationOf key)) ∨
    ∃ key,
      store.change? access = some (key, .dropped) ∧
      (store.accessed access).records = Records.erase key store.records := by
  cases access with
  | call call =>
      cases call with
      | fetch key operation policy => exact Or.inl ⟨rfl, rfl⟩
      | apply key operation options =>
          rcases happly : store.apply key operation options with ⟨result, after⟩
          have hafter : (store.accessed (.call (.apply key operation options))).records =
              after.records :=
            congrArg (fun served => served.2.records) happly
          rw [hafter, change?, happly]
          cases result with
          | error error => exact Or.inl ⟨rfl, apply_eq_error happly⟩
          | ok generation =>
              obtain ⟨record, hrecords, hgeneration⟩ := exists_put_of_apply happly
              exact Or.inr (Or.inl ⟨key, record, rfl, hrecords, hgeneration⟩)
  | insert key field value =>
      refine Or.inr (Or.inl ⟨key, _, rfl, rfl, ?_⟩)
      rw [generationOf, generation?]
      cases store.record? key <;> rfl
  | remove key =>
      rw [change?]
      cases hrecord : store.record? key with
      | some record => exact Or.inr (Or.inr ⟨key, rfl, rfl⟩)
      | none => exact Or.inl ⟨rfl, Records.erase_of_get?_eq_none hrecord⟩

/-- Whatever was done to a store, no key stands in it twice. -/
theorem nodup_keys_reached
    (accesses : List Access) :
    (Records.keys (reached accesses).records).Nodup := by
  induction accesses with
  | nil => exact List.nodup_nil
  | cons access before ih =>
      rw [reached]
      rcases (reached before).change?_cases access with
        ⟨-, hsame⟩ | ⟨key, record, -, hput, -⟩ | ⟨key, -, herase⟩
      · rw [hsame]
        exact ih
      · rw [hput]
        exact Records.nodup_keys_put record ih
      · rw [herase]
        exact Records.nodup_keys_erase key ih

/-- An access moves the generation of a record on by just what it does to the record. -/
theorem generationOf_accessed
    {key : RecordKey}
    {changes : List Change}
    (hkeys : (Records.keys store.records).Nodup)
    (hwrites : store.generationOf key = laterGeneration 0 (writesSinceDrop changes))
    (access : Access) :
    (store.accessed access).generationOf key =
      laterGeneration 0
        (writesSinceDrop (changesOf key (store.change? access).toList ++ changes)) := by
  rcases store.change?_cases access with
    ⟨hchange, hsame⟩ | ⟨other, record, hchange, hput, hgeneration⟩ | ⟨other, hchange, herase⟩
  · rw [hchange, generationOf, generation?, record?, hsame]
    exact hwrites
  · rw [hchange, Option.toList_some]
    by_cases hother : other = key
    · subst hother
      rw [generationOf_put_self hput, hgeneration, hwrites, changesOf_self]
      rfl
    · rw [generationOf_put_of_ne hput (Ne.symm hother), hwrites, changesOf_of_ne _ _ hother]
      rfl
  · rw [hchange, Option.toList_some, generationOf, generation?, record?, herase]
    by_cases hother : other = key
    · subst hother
      rw [Records.get?_erase_self hkeys, changesOf_self]
      rfl
    · rw [Records.get?_erase_of_ne (Ne.symm hother), changesOf_of_ne _ _ hother]
      exact hwrites

/-- The generation of a record counts its writes since it was dropped. -/
theorem generationOf_reached
    (accesses : List Access)
    (key : RecordKey) :
    (reached accesses).generationOf key =
      laterGeneration 0 (writesSinceDrop (changesOf key (history [] accesses))) := by
  induction accesses with
  | nil => rfl
  | cons access before ih =>
      rw [reached, history, List.append_nil, changesOf_append]
      exact generationOf_accessed (nodup_keys_reached before) ih access

/-- The history of a run in two parts. -/
theorem history_append
    (before accesses : List Access) :
    history [] (accesses ++ before) = history before accesses ++ history [] before := by
  induction accesses with
  | nil => rfl
  | cons access earlier ih =>
      rw [List.cons_append, history, history, List.append_nil, ih, List.append_assoc]

/-- A guarded write goes through only at the generation that it expects. -/
theorem generationOf_of_guarded
    {key : RecordKey}
    {operation : Operation}
    {options : WriteOptions}
    {expected generation : Nat}
    (hexpected : options.expected = some expected)
    (h : (store.apply key operation options).1 = .ok generation) :
    store.generationOf key = expected := by
  obtain ⟨record, hwrite, -, -⟩ := apply_eq_ok (Prod.ext h rfl)
  obtain ⟨start, value, htarget, hcheck, -, -⟩ := write_eq_ok hwrite
  have hstart : store.generationOf key = start.generation := by
    rw [eq_getD_of_target htarget, generationOf, generation?]
    cases store.record? key <;> rfl
  rw [hexpected, checkGeneration] at hcheck
  split at hcheck
  · next heq => exact hstart.trans heq
  · cases hcheck

/-- A read returns the generation of the record that it found. -/
theorem generationOf_of_fetch
    {key : RecordKey}
    {operation : Operation}
    {policy : Option Policy}
    {fetched : Fetched}
    (h : (store.fetch key operation policy).1 = .ok fetched) :
    store.generationOf key = fetched.generation := by
  obtain ⟨record, hrecord, hgeneration⟩ := exists_record_of_read h
  rw [generationOf, generation?, hrecord]
  exact hgeneration

/--
A write that is guarded by a generation that was read goes through only if
nothing was done to the record since then, or else the record was dropped and
has been written again just as often as the generation says; that is, if there
were fewer writes in between than there are generations. What was done in
between may include the read itself, which changes nothing. The memory store
does all this as it would be done in place.
-/
theorem guarded_write_unchanged :
    (∀ before between key reading writing policy options fetched generation,
      writesIn (history before between) < UInt32.size - 1 →
      ((reached before).fetch key reading policy).1 = .ok fetched →
      options.expected = some fetched.generation →
      ((reached (between ++ before)).apply key writing options).1 = .ok generation →
      changesOf key (history before between) = [] ∨
        .dropped ∈ changesOf key (history before between) ∧
          writesSinceDrop (changesOf key (history before between)) = fetched.generation) ∧
    ∀ accesses,
      (reached accesses).records = Records.reached accesses ∧
      ∀ key operation options,
        (((reached accesses).apply key operation options).1,
            ((reached accesses).apply key operation options).2.records) =
          (Records.reached accesses).applyInPlace key operation options.expected := by
  constructor
  · intro before between key reading writing policy options fetched generation
      hwrites hfetch hguard happly
    have hread := generationOf_of_fetch hfetch
    have hwritten := generationOf_of_guarded hguard happly
    rw [generationOf_reached] at hread hwritten
    rw [history_append, changesOf_append, ← hread] at hwritten
    rw [← hread]
    exact eq_nil_or_dropped (Nat.lt_of_le_of_lt (writesSinceDrop_le key _) hwrites) hwritten
  · intro accesses
    exact ⟨records_reached accesses, apply_reached accesses⟩

/-- The key of a record that several write to. -/
def sharedKey : RecordKey :=
  ⟨"library", "books", .text "fiction"⟩

/-- The record is read, read again, and written in vain by someone whose guard is too old. -/
theorem guarded_write_unchanged_shared :
    let before : List Access := [.insert sharedKey "doc" .null, .insert sharedKey "doc" .null]
    let between : List Access :=
      [.call (.apply sharedKey (.writeField "doc" .null) ⟨none, some 1⟩),
        .call (.fetch sharedKey (.readField "doc") none)]
    ((reached (between ++ before)).apply sharedKey (.writeField "doc" .null) ⟨none, some 2⟩).1 =
        .ok 3 ∧
      changesOf sharedKey (history before between) = [] ∧
      (reached (between ++ before)).records = Records.reached (between ++ before) := by
  intro before between
  have happly : ((reached (between ++ before)).apply sharedKey (.writeField "doc" .null)
      ⟨none, some 2⟩).1 = .ok 3 := by
    rfl
  have hchanges := guarded_write_unchanged.1 before between sharedKey (.readField "doc")
    (.writeField "doc" .null) none ⟨none, some 2⟩ ⟨some .null, 2⟩ 3 (by decide) rfl rfl happly
  have hinplace := guarded_write_unchanged.2 (between ++ before)
  refine ⟨happly, ?_, hinplace.1⟩
  rcases hchanges with hnone | ⟨hdropped, -⟩
  · exact hnone
  · exact absurd hdropped (by decide)

/-- A record that was dropped and written again passes for the one that was read. -/
theorem guarded_write_changed_dropped :
    let before : List Access := [.insert sharedKey "doc" .null]
    let between : List Access := [.insert sharedKey "doc" (.list []), .remove sharedKey]
    ((reached before).fetch sharedKey (.readField "doc") none).1 = .ok ⟨some .null, 1⟩ ∧
      ((reached (between ++ before)).apply sharedKey (.writeField "doc" .null)
        ⟨none, some 1⟩).1 = .ok 2 ∧
      changesOf sharedKey (history before between) = [.written, .dropped] := by
  refine ⟨rfl, rfl, rfl⟩

end MemoryStore
end Store
end FieldQuery
