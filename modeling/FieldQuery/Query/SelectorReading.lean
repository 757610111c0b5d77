import FieldQuery.Query.FilterReading
import FieldQuery.Query.Selector

/-!
# Reading selectors

A segment of a query is a dot with a name or a star, a bracket, or a double
dot, which needs another segment as its target. A bracket holds one member,
several members separated by commas, a slice, or a question mark with a
filter.
-/

namespace FieldQuery
namespace Query
namespace Selector

/-- The selector of a child with a given name. -/
def named
    (name : String) :
    Selector :=
  choose (.access (.key name))

/-- The choice that a token stands for among the members of a union. -/
def choice? :
    Token → Option Choice
  | .text name => some (.access (.key name))
  | .integer index => some (.access (.index index))
  | .star => some .every
  | _ => none

/-- Reads the members of a union after the first ones, and the closing bracket. -/
def unionTail
    (before : List Choice) :
    List Token → Reading Selector
  | .comma :: member :: rest =>
      match choice? member with
      | some choice => (unionTail (before ++ [choice]) rest).after 2
      | none => .failure .badUnionMember 2
  | [.comma] => .failure .badUnionMember 1
  | tokens => .closing .closeBracket (union before) tokens

/-- Reads what follows a name or a star in a bracket. -/
def afterChoice
    (first : Choice)
    (tokens : List Token) :
    Reading Selector :=
  match tokens with
  | .comma :: _ => unionTail [first] tokens
  | _ => .closing .closeBracket (choose first) tokens

/-- The integer at the front of a list of tokens, if there is one. -/
def leadingInteger? :
    List Token → Option Int
  | .integer value :: _ => some value
  | _ => none

/-- Reads the step of a slice after its second colon, and the closing bracket. -/
def sliceStep
    (start stop : Option Int)
    (tokens : List Token) :
    Reading Selector :=
  let step := leadingInteger? tokens
  let taken := step.toList.length
  if step = some 0 then
    .failure .zeroStep taken
  else
    (Reading.closing .closeBracket (slice ⟨start, stop, step⟩) (tokens.drop taken)).after taken

/-- Reads a slice after its first colon, and the closing bracket. -/
def sliceTail
    (start : Option Int)
    (tokens : List Token) :
    Reading Selector :=
  let stop := leadingInteger? tokens
  let taken := stop.toList.length
  match tokens.drop taken with
  | .colon :: rest => (sliceStep start stop rest).after (taken + 1)
  | rest => (Reading.closing .closeBracket (slice ⟨start, stop, none⟩) rest).after taken

/-- Reads what follows an integer in a bracket. -/
def afterIndex
    (index : Int)
    (tokens : List Token) :
    Reading Selector :=
  match tokens with
  | .closeBracket :: _ => .success (choose (.access (.index index))) 1
  | .colon :: rest => (sliceTail (some index) rest).after 1
  | .comma :: _ => unionTail [.access (.index index)] tokens
  | _ => .failure .badAfterIndex 0

/-- Reads a filter after its question mark, and the closing bracket. -/
def filterTail
    (tokens : List Token) :
    Reading Selector :=
  match Filter.read tokens with
  | ⟨.ok predicate, taken⟩ =>
      (Reading.closing .closeBracket (filter predicate) (tokens.drop taken)).after taken
  | ⟨.error fault, taken⟩ => .failure fault taken

/-- Reads a bracket after it was opened. -/
def bracket
    (tokens : List Token) :
    Reading Selector :=
  match tokens with
  | .question :: rest => (filterTail rest).after 1
  | .integer index :: rest => (afterIndex index rest).after 1
  | .colon :: rest => (sliceTail none rest).after 1
  | .star :: rest => (afterChoice .every rest).after 1
  | .text name :: rest => (afterChoice (.access (.key name)) rest).after 1
  | .closeBracket :: _ => .failure .emptyBrackets 0
  | .endOfInput :: _ => .failure .unterminatedBracket 0
  | [] => .failure .unterminatedBracket 0
  | found :: _ => .failure (.unexpectedInBrackets found) 0

/-- Reads a name or a star after a dot. -/
def afterDot :
    List Token → Reading Selector
  | [] => .failure .dotAtEnd 0
  | .endOfInput :: _ => .failure .dotAtEnd 0
  | .star :: _ => .success (choose .every) 1
  | found :: _ =>
      match found.memberName? with
      | some name => .success (named name) 1
      | none => .failure .noNameAfterDot 0

/-- Reads one segment. Of a descent it reads the double dot alone. -/
def read :
    List Token → Reading Selector
  | .dot :: rest => (afterDot rest).after 1
  | .descent :: _ => .success descent 1
  | .openBracket :: rest => (bracket rest).after 1
  | .closeBracket :: _ => .failure .unmatchedBracket 0
  | .current :: _ => .failure .currentOutsideFilter 0
  | .root :: _ => .failure .secondRoot 0
  | _ => .failure .noSelector 0

/-- Reads the target of a descent: a name, a star or a bracket. -/
def readTarget :
    List Token → Reading Selector
  | .star :: _ => .success (choose .every) 1
  | .openBracket :: rest => (bracket rest).after 1
  | found :: _ =>
      match found.memberName? with
      | some name => .success (named name) 1
      | none => .failure .noDescentTarget 0
  | [] => .failure .noDescentTarget 0

end Selector
end Query
end FieldQuery
