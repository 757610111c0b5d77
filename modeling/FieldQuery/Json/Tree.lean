import FieldQuery.Json.Lexeme

/-!
# JSON trees

A tree is a JSON text as it is nested, with repeated keys, undecoded texts
and unread numbers. Any text that follows the grammar has a tree, even if
some part of it stands for no value.
-/

namespace FieldQuery
namespace Json

/-- A JSON text as it is nested. -/
inductive Tree where
  | null
  | bool (value : Bool)
  | numeral (value : Numeral)
  | text (units : List Nat)
  | list (items : List Tree)
  | map (members : List (List Nat × Tree))

namespace Tree

mutual

/-- Reads one tree from the front of some lexemes. -/
def one? :
    Nat → List Lexeme → Option (Tree × List Lexeme)
  | 0, _ => none
  | steps + 1, lexemes =>
      match lexemes with
      | .null :: rest => some (null, rest)
      | .bool value :: rest => some (bool value, rest)
      | .numeral value :: rest => some (numeral value, rest)
      | .text units :: rest => some (text units, rest)
      | .openList :: .closeList :: rest => some (list [], rest)
      | .openList :: rest => (items? steps rest).map fun (items, left) => (list items, left)
      | .openMap :: .closeMap :: rest => some (map [], rest)
      | .openMap :: rest => (members? steps rest).map fun (members, left) => (map members, left)
      | _ => none

/-- Reads the items of a list up to its closing bracket. -/
def items? :
    Nat → List Lexeme → Option (List Tree × List Lexeme)
  | 0, _ => none
  | steps + 1, lexemes =>
      match one? steps lexemes with
      | some (item, .comma :: rest) =>
          (items? steps rest).map fun (items, left) => (item :: items, left)
      | some (item, .closeList :: rest) => some ([item], rest)
      | _ => none

/-- Reads the members of a map up to its closing brace. -/
def members? :
    Nat → List Lexeme → Option (List (List Nat × Tree) × List Lexeme)
  | 0, _ => none
  | steps + 1, lexemes =>
      match lexemes with
      | .text key :: .colon :: rest =>
          match one? steps rest with
          | some (value, .comma :: rest) =>
              (members? steps rest).map fun (members, left) => ((key, value) :: members, left)
          | some (value, .closeMap :: rest) => some ([(key, value)], rest)
          | _ => none
      | _ => none

end

/-- The tree of a text. Two steps for each lexeme suffice. -/
def ofText?
    (text : String) :
    Option Tree :=
  let characters := text.toList
  match Lexeme.ofText? characters.length characters with
  | none => none
  | some lexemes =>
      match one? (2 * lexemes.length + 1) lexemes with
      | some (tree, []) => some tree
      | _ => none

end Tree
end Json
end FieldQuery
