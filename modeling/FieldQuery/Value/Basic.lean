import FieldQuery.Value.Members
import FieldQuery.Value.Number

/-!
# Document values

A value is what a record field holds: null, a boolean, a number, a text, a
list of values or a map from names to values. This module also has the names
of the shapes for messages, the positions that list indices denote, and
structural equality.
-/

namespace FieldQuery

/-- A document value. -/
inductive Value where
  | null
  | bool (value : Bool)
  | number (value : Number)
  | text (value : String)
  | list (items : List Value)
  | map (members : List (String × Value))
deriving Inhabited

namespace Value

/-- The integer value of a number. -/
abbrev int
    (value : Int) :
    Value :=
  number (.int value)

/-- The shape of a value as messages name it. -/
def shape :
    Value → String
  | null => "null"
  | bool _ => "boolean"
  | number _ => "number"
  | text _ => "string"
  | list _ => "list"
  | map _ => "map"

mutual

/-- Structural equality, where the two zeros among the floats are equal. -/
def same :
    Value → Value → Bool
  | null, null => true
  | bool a, bool b => a = b
  | number a, number b => a.same b
  | text a, text b => a = b
  | list a, list b => sameItems a b
  | map a, map b => sameMembers a b
  | _, _ => false

/-- Structural equality of lists. -/
def sameItems :
    List Value → List Value → Bool
  | [], [] => true
  | a :: as, b :: bs => same a b && sameItems as bs
  | _, _ => false

/-- Structural equality of maps. -/
def sameMembers :
    List (String × Value) → List (String × Value) → Bool
  | [], [] => true
  | (j, a) :: as, (k, b) :: bs => j = k && same a b && sameMembers as bs
  | _, _ => false

end

mutual

/-- Equality of values is decided member by member. -/
def decEq :
    (a b : Value) → Decidable (a = b)
  | null, null => isTrue rfl
  | bool a, bool b =>
      if h : a = b then
        isTrue (h ▸ rfl)
      else
        isFalse (fun e => h (bool.inj e))
  | number a, number b =>
      if h : a = b then
        isTrue (h ▸ rfl)
      else
        isFalse (fun e => h (number.inj e))
  | text a, text b =>
      if h : a = b then
        isTrue (h ▸ rfl)
      else
        isFalse (fun e => h (text.inj e))
  | list a, list b =>
      match decEqItems a b with
      | isTrue h => isTrue (h ▸ rfl)
      | isFalse h => isFalse (fun e => h (list.inj e))
  | map a, map b =>
      match decEqMembers a b with
      | isTrue h => isTrue (h ▸ rfl)
      | isFalse h => isFalse (fun e => h (map.inj e))
  | null, bool _ | null, number _ | null, text _ | null, list _ | null, map _
  | bool _, null | bool _, number _ | bool _, text _ | bool _, list _ | bool _, map _
  | number _, null | number _, bool _ | number _, text _ | number _, list _ | number _, map _
  | text _, null | text _, bool _ | text _, number _ | text _, list _ | text _, map _
  | list _, null | list _, bool _ | list _, number _ | list _, text _ | list _, map _
  | map _, null | map _, bool _ | map _, number _ | map _, text _ | map _, list _ =>
      isFalse (fun e => nomatch e)

/-- Equality of lists of values. -/
def decEqItems :
    (a b : List Value) → Decidable (a = b)
  | [], [] => isTrue rfl
  | [], _ :: _ => isFalse (fun e => nomatch e)
  | _ :: _, [] => isFalse (fun e => nomatch e)
  | a :: as, b :: bs =>
      match decEq a b with
      | isFalse h => isFalse (fun e => h (List.cons.inj e).1)
      | isTrue h =>
          match decEqItems as bs with
          | isFalse t => isFalse (fun e => t (List.cons.inj e).2)
          | isTrue t => isTrue (h ▸ t ▸ rfl)

/-- Equality of members. -/
def decEqMembers :
    (a b : List (String × Value)) → Decidable (a = b)
  | [], [] => isTrue rfl
  | [], _ :: _ => isFalse (fun e => nomatch e)
  | _ :: _, [] => isFalse (fun e => nomatch e)
  | (j, a) :: as, (k, b) :: bs =>
      if n : j = k then
        match decEq a b with
        | isFalse h => isFalse (fun e => h (Prod.mk.inj (List.cons.inj e).1).2)
        | isTrue h =>
            match decEqMembers as bs with
            | isFalse t => isFalse (fun e => t (List.cons.inj e).2)
            | isTrue t => isTrue (n ▸ h ▸ t ▸ rfl)
      else
        isFalse (fun e => n (Prod.mk.inj (List.cons.inj e).1).1)

end

instance : DecidableEq Value :=
  decEq

end Value
end FieldQuery
