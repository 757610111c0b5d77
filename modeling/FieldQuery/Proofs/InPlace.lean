import FieldQuery.Proofs.Stores
import FieldQuery.Store.InPlace

/-!
# Failed writes in place

A write that works on the records where they lie leaves no trace if it fails.
A blank record is put there only for operations that succeed on a blank record,
unless their guard fails, and then it is taken out again; an empty map is put
only into a field where setting a key then succeeds. So in every state that a
store can come to, each record was written, and the memory store, which puts
nothing but finished records, does the same as a write in place.
-/

namespace FieldQuery
namespace Store

namespace Operation

variable {operation : Operation}
variable {fields : Members Value}

/-- An operation that may create its field succeeds where the field is missing. -/
theorem exists_write_none
    (h : operation.creates = true) :
    ∃ value, operation.write none = .ok value := by
  unfold creates at h
  split at h
  · exact ⟨_, rfl⟩
  · exact ⟨_, rfl⟩
  · cases h

/-- Only an operation that may create its field opens one, and only if there is none. -/
theorem openIn_eq
    (operation : Operation)
    (fields : Members Value) :
    operation.openIn fields = fields ∨
      operation.creates = true ∧
        fields.get? operation.field = none ∧
        operation.openIn fields = fields.insert operation.field (.map []) := by
  unfold openIn
  split
  · next field key value =>
      cases hfield : fields.get? field with
      | some _ => exact Or.inl rfl
      | none => exact Or.inr ⟨rfl, hfield, rfl⟩
  · exact Or.inl rfl

/-- An operation does not tell a map that was opened for it from a missing field. -/
theorem write_openIn
    (operation : Operation)
    (fields : Members Value) :
    operation.write ((operation.openIn fields).get? operation.field) =
      operation.write (fields.get? operation.field) := by
  unfold openIn
  split
  · next field key value =>
      rw [Operation.field]
      cases hfield : fields.get? field with
      | some document =>
          dsimp only
          rw [hfield]
      | none =>
          dsimp only
          rw [Members.get?_insert_self]
          rfl
  · rfl

/-- An operation that fails leaves the fields as they were. -/
theorem writeIn_of_error
    {error : StoreError}
    (h : operation.write (fields.get? operation.field) = .error error) :
    operation.writeIn fields = (.error error, fields) := by
  have hopened : operation.openIn fields = fields := by
    rcases openIn_eq operation fields with hsame | ⟨hcreates, hmissing, -⟩
    · exact hsame
    · obtain ⟨value, hvalue⟩ := exists_write_none hcreates
      rw [hmissing, hvalue] at h
      cases h
  rw [writeIn, hopened, h]

/-- An operation that succeeds leaves the fields with what it comes to. -/
theorem writeIn_of_ok
    {value : Value}
    (h : operation.write (fields.get? operation.field) = .ok value) :
    operation.writeIn fields = (.ok (), fields.insert operation.field value) := by
  rw [writeIn, write_openIn, h]
  rcases openIn_eq operation fields with hsame | ⟨-, -, hopened⟩
  · rw [hsame]
  · rw [hopened]
    dsimp only
    rw [Members.insert_insert]

end Operation

namespace Records

variable {key : RecordKey}
variable {record : Record}
variable {records : Records}

theorem mem_of_get?
    (h : records.get? key = some record) :
    (key, record) ∈ records := by
  induction records with
  | nil =>
      cases h
  | cons entry rest ih =>
      obtain ⟨found, old⟩ := entry
      by_cases hfound : found = key
      · simp only [get?, if_pos hfound, Option.some.injEq] at h
        rw [hfound, h]
        exact List.mem_cons_self
      · simp only [get?, if_neg hfound] at h
        exact List.mem_cons_of_mem _ (ih h)

/-- A record that stands under its key already is put there to no effect. -/
theorem put_self
    (h : records.get? key = some record) :
    records.put key record = records := by
  induction records with
  | nil =>
      cases h
  | cons entry rest ih =>
      obtain ⟨found, old⟩ := entry
      by_cases hfound : found = key
      · simp only [get?, if_pos hfound, Option.some.injEq] at h
        simp [put, hfound, h]
      · simp only [get?, if_neg hfound] at h
        simp [put, hfound, ih h]

theorem put_put
    (first second : Record) :
    (records.put key first).put key second = records.put key second := by
  induction records with
  | nil =>
      simp [put]
  | cons entry rest ih =>
      obtain ⟨found, old⟩ := entry
      by_cases hfound : found = key
      · simp [put, hfound]
      · simp [put, hfound, ih]

/-- A record that is put under a new key and taken out again leaves no trace. -/
theorem erase_put
    (record : Record)
    (h : records.get? key = none) :
    (records.put key record).erase key = records := by
  induction records with
  | nil =>
      simp [put, erase]
  | cons entry rest ih =>
      obtain ⟨found, old⟩ := entry
      by_cases hfound : found = key
      · simp [get?, hfound] at h
      · simp only [get?, if_neg hfound] at h
        simp [put, erase, hfound, ih h]

/-- A record that is put somewhere is the only new one. -/
theorem mem_put
    {entry : RecordKey × Record}
    (h : entry ∈ records.put key record) :
    entry = (key, record) ∨ entry ∈ records := by
  induction records with
  | nil =>
      exact Or.inl (List.mem_singleton.1 h)
  | cons first rest ih =>
      obtain ⟨found, old⟩ := first
      by_cases hfound : found = key
      · rw [put, if_pos hfound] at h
        rcases List.mem_cons.1 h with heq | hmem
        · exact Or.inl heq
        · exact Or.inr (List.mem_cons_of_mem _ hmem)
      · rw [put, if_neg hfound] at h
        rcases List.mem_cons.1 h with heq | hmem
        · exact Or.inr (heq ▸ List.mem_cons_self)
        · rcases ih hmem with heq | hrest
          · exact Or.inl heq
          · exact Or.inr (List.mem_cons_of_mem _ hrest)

theorem erase_sublist
    (key : RecordKey)
    (records : Records) :
    (records.erase key).Sublist records := by
  induction records with
  | nil =>
      exact List.Sublist.refl _
  | cons entry rest ih =>
      obtain ⟨found, old⟩ := entry
      by_cases hfound : found = key
      · rw [erase, if_pos hfound]
        exact List.sublist_cons_self _ _
      · rw [erase, if_neg hfound]
        exact ih.cons_cons _

section Apply

variable {operation : Operation}
variable {expected : Option Nat}
variable {store : MemoryStore}

/-- What an operation finds under its key in place is what it starts from. -/
theorem openFor_of_target
    (h : store.target key operation = .ok record) :
    (store.records.openFor key operation).get? key = some record ∧
      (store.records.get? key = some record ∧
          store.records.openFor key operation = store.records ∨
        store.records.get? key = none ∧
          operation.creates = true ∧
          record = .blank ∧
          store.records.openFor key operation = store.records.put key .blank) := by
  rw [MemoryStore.target, MemoryStore.record?] at h
  rw [openFor]
  cases hfound : store.records.get? key with
  | some found =>
      rw [hfound] at h
      rw [← Except.ok.inj h]
      exact ⟨hfound, Or.inl ⟨rfl, rfl⟩⟩
  | none =>
      rw [hfound] at h
      by_cases hcreates : operation.creates = true
      · dsimp only at h ⊢
        rw [if_pos hcreates] at h ⊢
        rw [← Except.ok.inj h]
        exact ⟨get?_put_self _ _, Or.inr ⟨rfl, hcreates, rfl, rfl⟩⟩
      · simp only [if_neg hcreates] at h
        cases h

/-- A write that succeeds does in place what the memory store does at once. -/
theorem applyInPlace_of_ok
    {value : Value}
    (htarget : store.target key operation = .ok record)
    (hcheck : MemoryStore.checkGeneration expected record.generation = .ok ())
    (hvalue : operation.write (record.fields.get? operation.field) = .ok value) :
    store.records.applyInPlace key operation expected =
      (.ok (nextGeneration record.generation),
        store.records.put key
          ⟨record.fields.insert operation.field value, nextGeneration record.generation⟩) := by
  obtain ⟨hget, hopened⟩ := openFor_of_target htarget
  simp only [applyInPlace, hget, hcheck, Operation.writeIn_of_ok hvalue]
  rcases hopened with ⟨-, hsame⟩ | ⟨-, -, -, hput⟩
  · rw [hsame]
  · rw [hput, put_put]

/-- A write that finds no record, and may not create one, changes nothing in place. -/
theorem applyInPlace_of_missing
    {error : StoreError}
    (h : store.target key operation = .error error) :
    store.records.applyInPlace key operation expected = (.error error, store.records) := by
  rw [MemoryStore.target, MemoryStore.record?] at h
  cases hfound : store.records.get? key with
  | some found =>
      rw [hfound] at h
      cases h
  | none =>
      rw [hfound] at h
      by_cases hcreates : operation.creates = true
      · simp only [if_pos hcreates] at h
        cases h
      · simp only [if_neg hcreates] at h
        have hopened : store.records.openFor key operation = store.records := by
          simp only [openFor, hfound, if_neg hcreates]
        simp only [applyInPlace, hopened, hfound, Except.error.inj h]

/-- A write that fails leaves records that were written as they were. -/
theorem applyInPlace_of_error
    {error : StoreError}
    (hwritten : store.records.Written)
    (h : store.write key operation expected = .error error) :
    store.records.applyInPlace key operation expected = (.error error, store.records) := by
  rcases MemoryStore.write_eq_error h with hmissing | ⟨record, htarget, hfailed⟩
  · exact applyInPlace_of_missing hmissing
  · obtain ⟨hget, hopened⟩ := openFor_of_target htarget
    rcases hfailed with hcheck | ⟨hcheck, hvalue⟩
    · simp only [applyInPlace, hget, hcheck, discardBlank]
      rcases hopened with ⟨hfound, hsame⟩ | ⟨hmissing, -, rfl, hput⟩
      · have hpos := (hwritten _ (mem_of_get? hfound)).1
        rw [if_neg (Nat.pos_iff_ne_zero.1 hpos), hsame]
      · have hblank : Record.blank.generation = 0 := rfl
        rw [if_pos hblank, hput, erase_put _ hmissing]
    · simp only [applyInPlace, hget, hcheck, Operation.writeIn_of_error hvalue]
      rcases hopened with ⟨hfound, hsame⟩ | ⟨-, hcreates, rfl, -⟩
      · rw [hsame, put_self hfound]
      · -- a blank record is put there only for an operation that succeeds on it
        obtain ⟨value, hok⟩ := Operation.exists_write_none hcreates
        exact absurd (hok.symm.trans hvalue) (by simp)

/-- Every write in place fails and leaves the records, or puts a record that was written. -/
theorem applyInPlace_cases
    (hwritten : store.records.Written)
    (key : RecordKey)
    (operation : Operation)
    (expected : Option Nat) :
    (∃ error,
      store.write key operation expected = .error error ∧
      store.records.applyInPlace key operation expected = (.error error, store.records)) ∨
    ∃ start value,
      store.target key operation = .ok start ∧
      store.write key operation expected = .ok (start.withField operation.field value) ∧
      store.records.applyInPlace key operation expected =
        (.ok (nextGeneration start.generation),
          store.records.put key
            ⟨start.fields.insert operation.field value, nextGeneration start.generation⟩) := by
  cases hwrite : store.write key operation expected with
  | error error => exact Or.inl ⟨error, rfl, applyInPlace_of_error hwritten hwrite⟩
  | ok after =>
      obtain ⟨start, value, htarget, hcheck, hvalue, rfl⟩ := MemoryStore.write_eq_ok hwrite
      exact Or.inr ⟨start, value, htarget, rfl, applyInPlace_of_ok htarget hcheck hvalue⟩

end Apply

/-- What every access does to records that were written: it takes some out, or puts one more. -/
theorem accessed_cases
    (hwritten : records.Written)
    (access : Access) :
    (records.accessed access).Sublist records ∨
      ∃ key record,
        records.accessed access = records.put key record ∧
        0 < record.generation ∧
        record.fields ≠ [] := by
  cases access with
  | call call =>
      cases call with
      | fetch => exact Or.inl (List.Sublist.refl _)
      | apply key operation options =>
          rcases @applyInPlace_cases ⟨records, ⟨0, 0, 0⟩, []⟩ hwritten key operation
            options.expected with ⟨error, -, hplace⟩ | ⟨start, value, -, -, hplace⟩
          · have hsame : records.accessed (.call (.apply key operation options)) = records :=
              congrArg Prod.snd hplace
            exact Or.inl (by simp only [hsame, List.Sublist.refl])
          · exact Or.inr ⟨key, ⟨start.fields.insert operation.field value, _⟩,
              congrArg Prod.snd hplace, nextGeneration_pos _, Members.insert_ne_nil value⟩
  | insert key field value =>
      exact Or.inr ⟨key, ⟨((records.get? key).getD .blank).fields.insert field value, _⟩, rfl,
        nextGeneration_pos _, Members.insert_ne_nil value⟩
  | remove key => exact Or.inl (erase_sublist key records)

/-- Records that were written stay so with one more that was written. -/
theorem Written.put
    (h : records.Written)
    (hpos : 0 < record.generation)
    (hfields : record.fields ≠ []) :
    (records.put key record).Written := by
  intro entry hentry
  rcases mem_put hentry with rfl | hold
  · exact ⟨hpos, hfields⟩
  · exact h entry hold

theorem Written.sublist
    {less : Records}
    (h : records.Written)
    (hsub : less.Sublist records) :
    less.Written :=
  fun entry hentry => h entry (hsub.subset hentry)

/-- Records that were written stay so. -/
theorem Written.accessed
    (h : records.Written)
    (access : Access) :
    (records.accessed access).Written := by
  rcases accessed_cases h access with hsub | ⟨key, record, heq, hpos, hfields⟩
  · exact h.sublist hsub
  · rw [heq]
    exact h.put hpos hfields

/-- Whatever was done to a store, its records were written. -/
theorem written_reached
    (accesses : List Access) :
    (reached accesses).Written := by
  induction accesses with
  | nil =>
      intro entry hentry
      cases hentry
  | cons access before ih => exact ih.accessed access

end Records

namespace MemoryStore

/-- The memory store does what is done in place. -/
theorem apply_eq_applyInPlace
    {store : MemoryStore}
    (hwritten : store.records.Written)
    (key : RecordKey)
    (operation : Operation)
    (options : WriteOptions) :
    ((store.apply key operation options).1, (store.apply key operation options).2.records) =
      store.records.applyInPlace key operation options.expected := by
  rcases Records.applyInPlace_cases hwritten key operation options.expected with
    ⟨error, hwrite, hplace⟩ | ⟨start, value, -, hwrite, hplace⟩
  · simp only [hplace, apply, note, hwrite]
    rfl
  · simp only [hplace, apply, note, hwrite]
    rfl

theorem records_accessed
    {store : MemoryStore}
    (hwritten : store.records.Written)
    (access : Access) :
    (store.accessed access).records = store.records.accessed access := by
  cases access with
  | call call =>
      cases call with
      | fetch => rfl
      | apply key operation options =>
          exact congrArg Prod.snd (apply_eq_applyInPlace hwritten key operation options)
  | insert key field value => rfl
  | remove key => rfl

/-- The memory store comes to the records that the same accesses lead to in place. -/
theorem records_reached
    (accesses : List Access) :
    (reached accesses).records = Records.reached accesses := by
  induction accesses with
  | nil => rfl
  | cons access before ih =>
      have hwritten := Records.written_reached before
      rw [reached, Records.reached, ← ih]
      rw [← ih] at hwritten
      exact records_accessed hwritten access

theorem written_reached
    (accesses : List Access) :
    (reached accesses).records.Written := by
  rw [records_reached]
  exact Records.written_reached accesses

/-- In every state that it can come to, the memory store does what is done in place. -/
theorem apply_reached
    (accesses : List Access)
    (key : RecordKey)
    (operation : Operation)
    (options : WriteOptions) :
    (((reached accesses).apply key operation options).1,
        ((reached accesses).apply key operation options).2.records) =
      (Records.reached accesses).applyInPlace key operation options.expected := by
  rw [← records_reached accesses]
  exact apply_eq_applyInPlace (written_reached accesses) key operation options

/--
In every state that a store can come to, each record has been written and has
a field, and a write that fails leaves all records as they were, though it
works on them in place. So it is with the memory store, which does just what is
done in place.
-/
theorem failed_writes_leave_nothing
    (accesses : List Access) :
    (Records.reached accesses).Written ∧
    (∀ key operation expected error after,
      (Records.reached accesses).applyInPlace key operation expected = (.error error, after) →
      after = Records.reached accesses) ∧
    (reached accesses).records.Written ∧
    (∀ key operation options error after,
      (reached accesses).apply key operation options = (.error error, after) →
      after.records = (reached accesses).records) ∧
    (reached accesses).records = Records.reached accesses ∧
    ∀ key operation options,
      (((reached accesses).apply key operation options).1,
          ((reached accesses).apply key operation options).2.records) =
        (Records.reached accesses).applyInPlace key operation options.expected := by
  have hwritten := Records.written_reached accesses
  refine ⟨hwritten, ?_, written_reached accesses, ?_, records_reached accesses,
    apply_reached accesses⟩
  · intro key operation expected error after happly
    rcases @Records.applyInPlace_cases ⟨Records.reached accesses, ⟨0, 0, 0⟩, []⟩ hwritten key
      operation expected with ⟨_, -, hplace⟩ | ⟨_, _, -, -, hplace⟩
    · exact (Prod.mk.inj (happly.symm.trans hplace)).2
    · cases (Prod.mk.inj (happly.symm.trans hplace)).1
  · intro key operation options error after happly
    exact apply_eq_error happly

/-- The key of a record that is not there any more. -/
def droppedKey : RecordKey :=
  ⟨"library", "books", .text "fiction"⟩

/-- The record is written, and then dropped. -/
def droppedAccesses : List Access :=
  [.remove droppedKey, .insert droppedKey "doc" .null]

/-- A guarded write of a record that was dropped leaves no record. -/
theorem failed_writes_leave_nothing_dropped :
    (Records.reached droppedAccesses).applyInPlace droppedKey (.writeField "doc" .null) (some 1) =
      (.error (.generationMismatch 1 0), []) ∧
    Records.reached droppedAccesses = [] ∧
    ((reached droppedAccesses).apply droppedKey (.writeField "doc" .null) ⟨none, some 1⟩).1 =
      .error (.generationMismatch 1 0) ∧
    ((reached droppedAccesses).apply droppedKey (.writeField "doc" .null)
      ⟨none, some 1⟩).2.records = [] := by
  have hplace : (Records.reached droppedAccesses).applyInPlace droppedKey
      (.writeField "doc" .null) (some 1) = (.error (.generationMismatch 1 0), []) := by
    rfl
  have hfails : ((reached droppedAccesses).apply droppedKey (.writeField "doc" .null)
      ⟨none, some 1⟩).1 = .error (.generationMismatch 1 0) := by
    rfl
  obtain ⟨-, hinplace, -, hleaves, hsame, -⟩ := failed_writes_leave_nothing droppedAccesses
  have hempty := hinplace _ _ _ _ _ hplace
  have hrecords := hleaves _ _ _ _ _ (Prod.ext hfails rfl)
  exact ⟨hplace, hempty.symm, hfails, hrecords.trans (hsame.trans hempty.symm)⟩

end MemoryStore
end Store
end FieldQuery
