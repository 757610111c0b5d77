import FieldQuery.Proofs.Members
import FieldQuery.Store.Scripted

/-!
# Writes of the memory store

A write that succeeds gives one field of one record another value and the
record the next generation. Everything else stays as it was; after a write that
fails, everything does. Counters and journal are never looked at. A generation
comes back only after as many writes as there are generations. So as long as
nobody drops a record, and it is not written that often, its generation tells
whether it is still what it was when it was read.
-/

namespace FieldQuery
namespace Store

section Generations

variable {generation writes : Nat}

theorem nextGeneration_pos
    (generation : Nat) :
    0 < nextGeneration generation := by
  rw [nextGeneration]
  omega

theorem nextGeneration_lt
    (generation : Nat) :
    nextGeneration generation < UInt32.size := by
  have hmod : (generation + 1) % UInt32.size < UInt32.size := Nat.mod_lt _ (by decide)
  have hsize : 1 < UInt32.size := by decide
  rw [nextGeneration]
  omega

/-- As long as the counter does not start again, the generation is one more. -/
theorem nextGeneration_eq
    (h : generation + 1 < UInt32.size) :
    nextGeneration generation = generation + 1 := by
  rw [nextGeneration, Nat.mod_eq_of_lt h]
  omega

/-- At its end the counter starts again with one. -/
theorem nextGeneration_last
    (h : generation + 1 = UInt32.size) :
    nextGeneration generation = 1 := by
  rw [nextGeneration, h, Nat.mod_self]
  rfl

/-- The last generation of 32 bits is followed by the first. -/
example : nextGeneration 4294967294 = 4294967295 ∧ nextGeneration 4294967295 = 1 := by
  decide

/-- The generation after some more writes. -/
def laterGeneration
    (generation : Nat) :
    Nat → Nat
  | 0 => generation
  | writes + 1 => nextGeneration (laterGeneration generation writes)

theorem laterGeneration_add
    (generation first second : Nat) :
    laterGeneration generation (first + second) =
      laterGeneration (laterGeneration generation first) second := by
  induction second with
  | zero => rfl
  | succ second ih => exact congrArg nextGeneration ih

/-- As long as the counter does not start again, it counts all writes. -/
theorem laterGeneration_eq_add
    (h : generation + writes < UInt32.size) :
    laterGeneration generation writes = generation + writes := by
  induction writes with
  | zero => rfl
  | succ writes ih =>
      rw [laterGeneration, ih (by omega), nextGeneration_eq (by omega), Nat.add_assoc]

/-- The counter goes round all generations but zero. -/
theorem laterGeneration_eq_mod
    (hpos : 0 < generation)
    (hlt : generation < UInt32.size)
    (writes : Nat) :
    laterGeneration generation writes =
      (generation - 1 + writes) % (UInt32.size - 1) + 1 := by
  have hsize : UInt32.size = 4294967296 := rfl
  induction writes with
  | zero =>
      rw [laterGeneration, Nat.add_zero, Nat.mod_eq_of_lt (by omega)]
      omega
  | succ writes ih =>
      rw [laterGeneration, ih, nextGeneration, hsize]
      omega

/-- A generation comes back only after as many writes as there are generations. -/
theorem eq_zero_of_laterGeneration_eq
    (h : laterGeneration generation writes = generation)
    (hwrites : writes < UInt32.size - 1) :
    writes = 0 := by
  cases writes with
  | zero => rfl
  | succ writes =>
      have hpos : 0 < generation := h ▸ nextGeneration_pos _
      have hlt : generation < UInt32.size := h ▸ nextGeneration_lt _
      have hsize : UInt32.size = 4294967296 := rfl
      rw [laterGeneration_eq_mod hpos hlt, hsize] at h
      omega

end Generations

section Stages

variable {ε α β : Type}
variable {outcome : Except ε α}
variable {further : α → Except ε β}

/-- What succeeds in two stages succeeds in each. -/
theorem exists_ok_of_bind
    {result : β}
    (h : outcome >>= further = .ok result) :
    ∃ value, outcome = .ok value ∧ further value = .ok result := by
  cases outcome with
  | error error => cases h
  | ok value => exact ⟨value, rfl, h⟩

/-- What fails in two stages fails in the first, or else in the second. -/
theorem error_or_of_bind
    {error : ε}
    (h : outcome >>= further = .error error) :
    outcome = .error error ∨ ∃ value, outcome = .ok value ∧ further value = .error error := by
  cases outcome with
  | error first => exact Or.inl (congrArg Except.error (Except.error.inj h))
  | ok value => exact Or.inr ⟨value, rfl, h⟩

end Stages

namespace Records

variable {key other : RecordKey}

theorem get?_put_self
    (record : Record)
    (records : Records) :
    get? key (put key record records) = some record := by
  induction records with
  | nil =>
      simp [put, get?]
  | cons entry rest ih =>
      obtain ⟨found, old⟩ := entry
      by_cases hfound : found = key
      · simp [put, get?, hfound]
      · simp [put, get?, hfound, ih]

theorem get?_put_of_ne
    (record : Record)
    (records : Records)
    (h : other ≠ key) :
    get? other (put key record records) = get? other records := by
  induction records with
  | nil =>
      simp [put, get?, h.symm]
  | cons entry rest ih =>
      obtain ⟨found, old⟩ := entry
      by_cases hfound : found = key
      · simp [put, get?, hfound, h.symm]
      · simp [put, get?, hfound, ih]

end Records

namespace MemoryStore

variable {store : MemoryStore}
variable {key : RecordKey}
variable {operation : Operation}

/-- A write starts from the record that is there, or else from a blank one. -/
theorem eq_getD_of_target
    {record : Record}
    (h : store.target key operation = .ok record) :
    record = (store.record? key).getD .blank := by
  rw [target] at h
  cases hfound : store.record? key with
  | some found =>
      rw [hfound] at h
      exact (Except.ok.inj h).symm
  | none =>
      rw [hfound] at h
      by_cases hcreates : operation.creates = true
      · rw [if_pos hcreates] at h
        exact (Except.ok.inj h).symm
      · rw [if_neg hcreates] at h
        cases h

/-- What a write that succeeds starts from, and what it comes to. -/
theorem write_eq_ok
    {expected : Option Nat}
    {after : Record}
    (h : store.write key operation expected = .ok after) :
    ∃ record value,
      store.target key operation = .ok record ∧
      checkGeneration expected record.generation = .ok () ∧
      operation.write (Members.get? operation.field record.fields) = .ok value ∧
      after = record.withField operation.field value := by
  obtain ⟨record, htarget, hafterTarget⟩ := exists_ok_of_bind h
  obtain ⟨⟨⟩, hcheck, hafterCheck⟩ := exists_ok_of_bind hafterTarget
  obtain ⟨value, hvalue, hafter⟩ := exists_ok_of_bind hafterCheck
  exact ⟨record, value, htarget, hcheck, hvalue, (Except.ok.inj hafter).symm⟩

/-- Where a write that fails came to. -/
theorem write_eq_error
    {expected : Option Nat}
    {error : StoreError}
    (h : store.write key operation expected = .error error) :
    store.target key operation = .error error ∨
      ∃ record,
        store.target key operation = .ok record ∧
        (checkGeneration expected record.generation = .error error ∨
          checkGeneration expected record.generation = .ok () ∧
            operation.write (Members.get? operation.field record.fields) = .error error) := by
  rcases error_or_of_bind h with hmissing | ⟨record, htarget, hafterTarget⟩
  · exact Or.inl hmissing
  · refine Or.inr ⟨record, htarget, ?_⟩
    rcases error_or_of_bind hafterTarget with hmismatch | ⟨⟨⟩, hcheck, hafterCheck⟩
    · exact Or.inl hmismatch
    · rcases error_or_of_bind hafterCheck with hfault | ⟨value, -, hafter⟩
      · exact Or.inr ⟨hcheck, hfault⟩
      · cases hafter

/-- A write that succeeds puts the record that it comes to. -/
theorem apply_eq_ok
    {options : WriteOptions}
    {after : MemoryStore}
    {generation : Nat}
    (h : store.apply key operation options = (.ok generation, after)) :
    ∃ record,
      store.write key operation options.expected = .ok record ∧
      record.generation = generation ∧
      after.records = Records.put key record store.records := by
  obtain ⟨hresult, hafter⟩ := Prod.mk.inj h
  rw [← hafter]
  cases hwrite : store.write key operation options.expected with
  | error error =>
      rw [hwrite] at hresult
      cases hresult
  | ok record =>
      rw [hwrite] at hresult
      refine ⟨record, rfl, Except.ok.inj hresult, ?_⟩
      rfl

/-- A write that fails changes no record. -/
theorem apply_eq_error
    {options : WriteOptions}
    {after : MemoryStore}
    {error : StoreError}
    (h : store.apply key operation options = (.error error, after)) :
    after.records = store.records := by
  obtain ⟨hresult, hafter⟩ := Prod.mk.inj h
  rw [← hafter]
  cases hwrite : store.write key operation options.expected with
  | error _ => rfl
  | ok record =>
      rw [hwrite] at hresult
      cases hresult

/-- Two stores that differ in one field of one record, and in its generation. -/
structure FieldChange
    (before after : MemoryStore)
    (key : RecordKey)
    (field : String)
    (value : Value) : Prop where
  changed : after.field? key field = some value
  fields : ∀ other, other ≠ field → after.field? key other = before.field? key other
  records : ∀ other, other ≠ key → after.record? other = before.record? other

/-- Every field after such a change. -/
theorem FieldChange.field?_eq
    {after : MemoryStore}
    {field : String}
    {value : Value}
    (h : store.FieldChange after key field value)
    (other : RecordKey)
    (name : String) :
    after.field? other name =
      if other = key ∧ name = field then
        some value
      else
        store.field? other name := by
  by_cases hother : other = key
  · subst hother
    by_cases hname : name = field
    · rw [if_pos ⟨rfl, hname⟩, hname]
      exact h.changed
    · rw [if_neg fun hboth => hname hboth.2]
      exact h.fields name hname
  · rw [if_neg fun hboth => hother hboth.1, field?, h.records other hother]
    rfl

/-- What a field is in the record that a write starts from. -/
theorem field?_of_target
    {record : Record}
    (h : store.target key operation = .ok record)
    (name : String) :
    Members.get? name record.fields = store.field? key name := by
  rw [eq_getD_of_target h, field?]
  cases store.record? key with
  | some found => rfl
  | none => rfl

/-- A write that succeeds changes the field that it is about, and nothing else. -/
theorem fieldChange_of_apply
    {options : WriteOptions}
    {after : MemoryStore}
    {generation : Nat}
    (h : store.apply key operation options = (.ok generation, after)) :
    ∃ value,
      operation.write (store.field? key operation.field) = .ok value ∧
      store.FieldChange after key operation.field value := by
  obtain ⟨result, hwrite, -, hrecords⟩ := apply_eq_ok h
  obtain ⟨record, value, htarget, -, hvalue, rfl⟩ := write_eq_ok hwrite
  rw [field?_of_target htarget] at hvalue
  have hself : after.record? key = some (record.withField operation.field value) := by
    rw [record?, hrecords, Records.get?_put_self]
  refine ⟨value, hvalue, ?_, ?_, ?_⟩
  · rw [field?, hself]
    exact Members.get?_insert_self value
  · intro other hother
    rw [← field?_of_target htarget, field?, hself]
    exact Members.get?_insert_of_ne value hother
  · intro other hother
    rw [record?, hrecords, Records.get?_put_of_ne _ _ hother]
    rfl

/-- An operation that writes to a missing field may create it. -/
theorem creates_of_write_none
    {value : Value}
    (h : operation.write none = .ok value) :
    operation.creates = true := by
  unfold Operation.write at h
  split at h
  case h_1 => rfl
  case h_2 => rfl
  all_goals cases h

/-- A write that its guard lets through succeeds if the operation fits the field. -/
theorem exists_apply_eq_ok_of_guard
    {value : Value}
    {options : WriteOptions}
    (hguard : ∀ record, store.target key operation = .ok record →
      checkGeneration options.expected record.generation = .ok ())
    (h : operation.write (store.field? key operation.field) = .ok value) :
    ∃ generation after, store.apply key operation options = (.ok generation, after) := by
  have htarget : ∃ record, store.target key operation = .ok record := by
    rw [target]
    cases hfound : store.record? key with
    | some record => exact ⟨record, rfl⟩
    | none =>
        rw [field?, hfound] at h
        exact ⟨.blank, if_pos (creates_of_write_none h)⟩
  obtain ⟨record, htarget⟩ := htarget
  rw [← field?_of_target htarget] at h
  have hwrite : store.write key operation options.expected =
      .ok (record.withField operation.field value) := by
    simp only [write, htarget, hguard record htarget, h, bind, Except.bind]
    rfl
  refine ⟨nextGeneration record.generation, (store.apply key operation options).2, ?_⟩
  refine Prod.ext ?_ rfl
  simp only [apply, hwrite]
  rfl

/-- Without a guard, a write succeeds if the operation fits the field that it is about. -/
theorem exists_apply_eq_ok
    {value : Value}
    (policy : Option Policy)
    (h : operation.write (store.field? key operation.field) = .ok value) :
    ∃ generation after, store.apply key operation ⟨policy, none⟩ = (.ok generation, after) :=
  exists_apply_eq_ok_of_guard (fun _ _ => rfl) h

/-- A call is answered by the record that it is about. -/
theorem read_congr
    {other : MemoryStore}
    (h : store.record? key = other.record? key) :
    store.read key operation = other.read key operation := by
  rw [read, read, h]

theorem write_congr
    {other : MemoryStore}
    (h : store.record? key = other.record? key)
    (expected : Option Nat) :
    store.write key operation expected = other.write key operation expected := by
  rw [write, write, target, target, h]

/-- A call is answered in the same way, and does the same, where the records are the same. -/
theorem serve_congr
    {other : MemoryStore}
    (h : store.records = other.records)
    (call : Call) :
    (store.serve call).1 = (other.serve call).1 ∧
      (store.serve call).2.records = (other.serve call).2.records := by
  have hrecord (key : RecordKey) : store.record? key = other.record? key := by
    rw [record?, record?, h]
  cases call with
  | fetch key operation policy =>
      exact ⟨congrArg Answer.fetched (read_congr (hrecord key)), h⟩
  | apply key operation options =>
      have hwrite := @write_congr _ _ operation _ (hrecord key) options.expected
      constructor
      · exact congrArg (fun result => Answer.applied (result.map Record.generation)) hwrite
      · simp only [serve, apply, note, hwrite, h]

/-- Only a write that succeeds changes records. -/
theorem records_serve
    {call : Call}
    (h : ∀ generation, (store.serve call).1 ≠ .applied (.ok generation)) :
    (store.serve call).2.records = store.records := by
  cases call with
  | fetch key operation policy => rfl
  | apply key operation options =>
      rcases happly : store.apply key operation options with ⟨result, after⟩
      rw [serve, happly] at h ⊢
      cases result with
      | ok generation => exact absurd rfl (h generation)
      | error error => exact apply_eq_error happly

/-- What one call, or one direct write, can make of the records, by the number of its writes. -/
inductive Evolves
    (before : Records) :
    Nat → Records → Prop where
  | same :
      Evolves before 0 before
  | written
      {key : RecordKey}
      {record : Record}
      (hgeneration : record.generation =
        nextGeneration ((Records.get? key before).getD .blank).generation) :
      Evolves before 1 (Records.put key record before)

theorem evolves_serve
    (store : MemoryStore)
    (call : Call) :
    Evolves store.records (store.serve call).1.writes (store.serve call).2.records := by
  cases call with
  | fetch key operation policy => exact .same
  | apply key operation options =>
      rcases happly : store.apply key operation options with ⟨result, after⟩
      have hserve : store.serve (.apply key operation options) = (.applied result, after) := by
        rw [serve, happly]
      rw [hserve]
      cases result with
      | error error =>
          rw [apply_eq_error happly]
          exact .same
      | ok generation =>
          obtain ⟨record, hwrite, -, hrecords⟩ := apply_eq_ok happly
          obtain ⟨start, value, htarget, -, -, rfl⟩ := write_eq_ok hwrite
          rw [hrecords]
          refine .written ?_
          rw [eq_getD_of_target htarget]
          rfl

theorem evolves_insert
    (store : MemoryStore)
    (key : RecordKey)
    (field : String)
    (value : Value) :
    Evolves store.records 1 (store.insert key field value).records :=
  .written rfl

/--
What was read of a record is what is still there, unless the record has been
written to, and with the writes that may come the counter does not get round.
-/
def Fresh
    (store : MemoryStore)
    (coming : Nat)
    (key : RecordKey)
    (operation : Operation)
    (fetched : Fetched) : Prop :=
  ∃ record writes,
    store.record? key = some record ∧
    writes + coming < UInt32.size - 1 ∧
    record.generation = laterGeneration fetched.generation writes ∧
    (writes = 0 → store.read key operation = .ok fetched)

theorem exists_record_of_read
    {fetched : Fetched}
    (h : store.read key operation = .ok fetched) :
    ∃ record,
      store.record? key = some record ∧
      record.generation = fetched.generation := by
  rw [read] at h
  cases hrecord : store.record? key with
  | none =>
      rw [hrecord] at h
      cases h
  | some record =>
      rw [hrecord] at h
      simp only at h
      cases hvalue : operation.read (Members.get? operation.field record.fields) with
      | error error =>
          rw [hvalue] at h
          cases h
      | ok value =>
          rw [hvalue] at h
          exact ⟨record, rfl, congrArg Fetched.generation (Except.ok.inj h)⟩

theorem fresh_of_read
    {coming : Nat}
    {fetched : Fetched}
    (hcoming : coming < UInt32.size - 1)
    (h : store.read key operation = .ok fetched) :
    store.Fresh coming key operation fetched := by
  obtain ⟨record, hrecord, hgeneration⟩ := exists_record_of_read h
  exact ⟨record, 0, hrecord, by omega, hgeneration, fun _ => h⟩

/-- Freshness outlasts what can happen to the records, as far as it was to come. -/
theorem Fresh.evolves
    {after : MemoryStore}
    {fetched : Fetched}
    {writes coming : Nat}
    (h : store.Fresh (coming + writes) key operation fetched)
    (hevolves : Evolves store.records writes after.records) :
    after.Fresh coming key operation fetched := by
  obtain ⟨record, earlier, hrecord, hbound, hlater, hread⟩ := h
  have hkept (hsame : after.record? key = store.record? key) :
      after.Fresh coming key operation fetched := by
    refine ⟨record, earlier, hsame.trans hrecord, by omega, hlater, ?_⟩
    intro hnone
    rw [read_congr hsame]
    exact hread hnone
  generalize hrecords : after.records = records at hevolves
  cases hevolves with
  | same => exact hkept (by rw [record?, record?, hrecords])
  | @written written new hgeneration =>
      by_cases hkey : key = written
      · subst hkey
        rw [record?] at hrecord
        rw [hrecord, Option.getD_some, hlater] at hgeneration
        refine ⟨new, earlier + 1, ?_, by omega, hgeneration, fun hnone => nomatch hnone⟩
        rw [record?, hrecords, Records.get?_put_self]
      · exact hkept (by rw [record?, record?, hrecords, Records.get?_put_of_ne _ _ hkey])

end MemoryStore
end Store
end FieldQuery
