import FieldQuery.Integer64
import FieldQuery.Path.Quotes
import FieldQuery.Query.Compiled
import FieldQuery.Text.Blank

/-!
# Division of a path

A path is divided into a plain part, which a store can resolve by itself,
and an advanced part, which is a query of its own on the value that the
plain part leads to. The advanced part starts at the first operator outside
quotes: a double dot, a star with another segment after it, a call of
`length()`, or a bracket that holds anything but one index or one quoted
key. Nothing at the very start of the text counts as an operator.
-/

namespace FieldQuery
namespace Path

/-- A plain part, and the advanced part after it with its own root sign. -/
structure Division where
  plain : String
  advanced : Option String
deriving DecidableEq

namespace Division

/-- A pattern gives, place by place, the characters that may stand there. -/
abbrev Pattern :=
  List (List Char)

/-- The operators that are not brackets. -/
def operators : List Pattern :=
  [ [['.'], ['.']],
    [['.'], ['*'], ['.', '[']],
    [['.'], ['l'], ['e'], ['n'], ['g'], ['t'], ['h'], ['('], [')']] ]

/-- Whether a text starts with a pattern. -/
def startsWith :
    Pattern → List Char → Bool
  | [], _ => true
  | _ :: _, [] => false
  | allowed :: more, c :: rest => allowed.contains c && startsWith more rest

/--
The positions of the occurrences of a pattern from left to right, where an
occurrence does not overlap the one before it: after each of them, as many
characters are skipped as it has left.
-/
def occurrences
    (pattern : Pattern)
    (skip position : Nat) :
    List Char → List Nat
  | [] => []
  | c :: rest =>
      match skip with
      | skip + 1 => occurrences pattern skip (position + 1) rest
      | 0 =>
          if startsWith pattern (c :: rest) then
            position :: occurrences pattern (pattern.length - 1) (position + 1) rest
          else
            occurrences pattern 0 (position + 1) rest

/-- The first occurrence of a pattern that counts as an operator. -/
def firstOperator?
    (spans : List Span)
    (text : List Char)
    (pattern : Pattern) :
    Option Nat :=
  (occurrences pattern 0 0 text).find? fun position =>
    0 < position && !isCovered spans position

/-- The characters between two positions. -/
def between
    (text : List Char)
    (start stop : Nat) :
    List Char :=
  (text.take stop).drop start

/--
Whether the content of a bracket, which starts at a position, is one index or
exactly one quoted key, apart from blanks around it.
-/
def isPlainContent
    (spans : List Span)
    (content : List Char)
    (position : Nat) :
    Bool :=
  let start := position + (content.length - (Text.trimStart content).length)
  let stop := position + (Text.trimEnd content).length
  (Integer64.read? (Text.trim content)).isSome ||
    (start < stop && spans.contains ⟨start, stop⟩)

/--
The position of the first bracket whose content is not plain, among the
characters from a position on. `opened` is the bracket that is still open.
-/
def firstBracket?
    (spans : List Span)
    (text : List Char)
    (opened : Option Nat)
    (position : Nat) :
    List Char → Option Nat
  | [] => none
  | c :: rest =>
      if isCovered spans position then
        firstBracket? spans text opened (position + 1) rest
      else
        match opened, c with
        | none, '[' =>
            let opened := if 0 < position then some position else none
            firstBracket? spans text opened (position + 1) rest
        | some start, ']' =>
            let content := between text (start + 1) position
            if isPlainContent spans content (start + 1) then
              firstBracket? spans text none (position + 1) rest
            else
              some start
        | _, _ => firstBracket? spans text opened (position + 1) rest

/-- The least of some positions. -/
def least? :
    List Nat → Option Nat
  | [] => none
  | first :: rest => some (rest.foldl min first)

/-- The position where the advanced part of a path starts. -/
def start?
    (text : List Char) :
    Option Nat :=
  let spans := quotedSpans text
  least?
    (operators.filterMap (firstOperator? spans text) ++
      (firstBracket? spans text none 0 text).toList)

/-- Divides a path. -/
def ofText
    (path : String) :
    Division :=
  let text := path.toList
  match start? text with
  | none => ⟨path, none⟩
  | some start =>
      ⟨String.ofList (text.take start), some (String.ofList ('$' :: text.drop start))⟩

/-- Whether a call of `length()` is all there is to the advanced part. -/
def isLengthOnly
    (division : Division) :
    Bool :=
  match division.advanced with
  | none => false
  | some advanced =>
      match Query.compile advanced with
      | .ok query => query.isPlainLength
      | .error _ => false

end Division
end Path
end FieldQuery
