import FieldQuery.Query.Fault

/-!
# Readings

A grammar rule reads some tokens from the front of a list. Whether it
succeeds or not, what it leaves is the list without the tokens it took, so a
reading consists of the outcome and the number of tokens taken.
-/

namespace FieldQuery
namespace Query

/-- The outcome of a grammar rule and the number of tokens it took. -/
structure Reading (α : Type) where
  outcome : Except Fault α
  taken : Nat

namespace Reading

variable {α β : Type}

/-- A success that took some tokens. -/
def success
    (value : α)
    (taken : Nat) :
    Reading α :=
  ⟨.ok value, taken⟩

/-- A fault after some tokens were taken. -/
def failure
    (fault : Fault)
    (taken : Nat) :
    Reading α :=
  ⟨.error fault, taken⟩

/-- The same outcome with more tokens taken before. -/
def after
    (before : Nat)
    (reading : Reading α) :
    Reading α :=
  ⟨reading.outcome, before + reading.taken⟩

/-- The same tokens taken with another result. -/
def map
    (f : α → β)
    (reading : Reading α) :
    Reading β :=
  ⟨reading.outcome.map f, reading.taken⟩

/-- The tokens that a reading leaves of the ones it was given. -/
def rest
    (tokens : List Token)
    (reading : Reading α) :
    List Token :=
  tokens.drop reading.taken

/-- Reads one given token, which closes a bracket around a result. -/
def closing
    (wanted : Token)
    (result : α) :
    List Token → Reading α
  | [] => failure (.expected wanted .endOfInput) 0
  | found :: _ =>
      if found = wanted then
        success result 1
      else
        failure (.expected wanted found) 1

end Reading
end Query
end FieldQuery
