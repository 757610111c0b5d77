/-!
# Members

The members of a map are pairs of a name and a value, kept in ascending order
of the names, so that a map has one form however it came about. Names are
ordered by their code points, which is also the order of their encoded bytes.
-/

namespace FieldQuery

/-- Named values in ascending order of their names. -/
abbrev Members
    (α : Type) :=
  List (String × α)

namespace Members

variable {α : Type}

/-- The value under a name. -/
def get?
    (name : String) :
    Members α → Option α
  | [] => none
  | (key, value) :: rest =>
      if key = name then
        some value
      else
        get? name rest

/-- Takes a name out. -/
def erase
    (name : String) :
    Members α → Members α
  | [] => []
  | (key, value) :: rest =>
      if key = name then
        rest
      else
        (key, value) :: erase name rest

/-- Puts another value under a name that is present. -/
def replace
    (name : String)
    (value : α) :
    Members α → Members α
  | [] => []
  | (key, old) :: rest =>
      if key = name then
        (key, value) :: rest
      else
        (key, old) :: replace name value rest

/-- Puts a value under a name that is not present, in front of the greater names. -/
def add
    (name : String)
    (value : α) :
    Members α → Members α
  | [] => [(name, value)]
  | (key, old) :: rest =>
      if name < key then
        (name, value) :: (key, old) :: rest
      else
        (key, old) :: add name value rest

/-- Puts a value under a name, in place of any value it had. -/
def insert
    (name : String)
    (value : α)
    (members : Members α) :
    Members α :=
  match members.get? name with
  | some _ => members.replace name value
  | none => members.add name value

/-- Members from pairs in any order; of two pairs with one name the later counts. -/
def ofList
    (pairs : List (String × α)) :
    Members α :=
  pairs.foldl (fun members pair => members.insert pair.1 pair.2) []

/-- The names in ascending order. -/
def names
    (members : Members α) :
    List String :=
  members.map Prod.fst

end Members
end FieldQuery
