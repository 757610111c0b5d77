import FieldQuery.Location.Basic
import FieldQuery.Query.Token

/-!
# Faults and errors of queries

A fault says why a text is no query. An error is a fault with its text and
position, or the reason why a query cannot be used for a change of a
document. The wording of both is fixed here.
-/

namespace FieldQuery
namespace Query

/-- Why a text is no query. -/
inductive Fault where
  -- the text as a whole
  | empty
  | startsAtCurrent
  | notRooted
  | bracketFirst
  -- tokens
  | unexpectedCharacter (c : Char)
  | dots
  | unterminatedText
  | badEscape
  | badCodeEscape
  | loneHighSurrogate
  | loneLowSurrogate
  | missingDigits
  | leadingZero
  | negativeZero
  | integerRange
  | singleEquals
  | singleBang
  -- the chain of segments
  | missingRoot
  | lengthNotLast
  | danglingDescent
  | noDescentTarget
  | unmatchedBracket
  | currentOutsideFilter
  | secondRoot
  | noSelector
  | dotAtEnd
  | noNameAfterDot
  -- brackets
  | emptyBrackets
  | unterminatedBracket
  | unexpectedInBrackets (found : Token)
  | badUnionMember
  | badAfterIndex
  | zeroStep
  | expected (wanted : Token) (found : Token)
  -- filters
  | expectedInFilter (wanted : Token)
  | rootInFilter
  | unterminatedFilter
  | unexpectedInFilter (found : Token)
  | noNameAfterCurrent
deriving DecidableEq

namespace Fault

/-- The wording of a fault. -/
def message :
    Fault → String
  | empty => "expression is empty"
  | startsAtCurrent => "'@' names the current node and is only valid inside a filter"
  | notRooted => "expression must start at the root '$'"
  | bracketFirst => "expression must not start with a bracket"
  | unexpectedCharacter c => "unexpected character '" ++ c.toString ++ "'"
  | dots => "'...' is not a segment; use '..' for descendants"
  | unterminatedText => "unterminated string literal"
  | badEscape => "invalid escape sequence"
  | badCodeEscape => "invalid unicode escape sequence"
  | loneHighSurrogate => "high surrogate not followed by valid low surrogate"
  | loneLowSurrogate => "low surrogate without preceding high surrogate"
  | missingDigits => "expected digits after '-'"
  | leadingZero => "integers cannot have leading zeros"
  | negativeZero => "negative zero is not allowed"
  | integerRange => "invalid integer format"
  | singleEquals => "single '=' not supported, use '==' for equality"
  | singleBang => "single '!' not supported, use '!=' for inequality"
  | missingRoot => "JSONPath expressions must start with '$'"
  | lengthNotLast => "length() must be the final segment of the path"
  | danglingDescent => "descendant segment '..' must be followed by a selector"
  | noDescentTarget =>
      "descendant segment '..' must be followed by a name, '*' or a bracket selector"
  | unmatchedBracket => "unmatched closing bracket ']'"
  | currentOutsideFilter =>
      "current node identifier '@' is only valid within filter expressions [?...]"
  | secondRoot => "root identifier '$' may only appear once"
  | noSelector => "expected selector (.property, [index] or [expression])"
  | dotAtEnd => "incomplete property access (path ends with '.')"
  | noNameAfterDot => "expected property name or '*' (wildcard) after '.'"
  | emptyBrackets => "empty brackets '[]'"
  | unterminatedBracket => "unterminated bracket '['"
  | unexpectedInBrackets found => "unexpected " ++ found.describe ++ " in brackets"
  | badUnionMember => "union members are quoted names, integers or '*'"
  | badAfterIndex => "expected ']', ':', or ',' after index"
  | zeroStep => "step value cannot be zero in slice expression"
  | expected wanted found => "expected " ++ wanted.describe ++ ", found " ++ found.describe
  | expectedInFilter wanted =>
      "expected " ++ wanted.describe ++ " in filter, but reached end of input"
  | rootInFilter => "absolute '$' references are not supported inside filters"
  | unterminatedFilter => "unterminated filter expression"
  | unexpectedInFilter found => "unexpected " ++ found.describe ++ " in filter expression"
  | noNameAfterCurrent => "expected property name after '@.'"

end Fault
end Query

/-- Why a query cannot be compiled or used. -/
inductive QueryError where
  /-- The text is no query. -/
  | malformed (expression : String) (fault : Query.Fault) (position : Nat)
  /-- The query yields computed values, which have no place in a document. -/
  | computesValue (expression : String)
  /-- A matched node is not of the kind that the change needs. -/
  | refused (reason : String)
  /-- A matched node was gone when its turn came. -/
  | vanished (location : Location)
  /-- Any other failure while a document was being processed. -/
  | processing (detail : String)
deriving DecidableEq

namespace QueryError

/-- The three kinds of query errors. -/
inductive Kind where
  | invalidPath
  | unsupported
  | processingError
deriving DecidableEq

/-- The kind of an error. -/
def kind :
    QueryError → Kind
  | malformed .. => .invalidPath
  | computesValue _ => .unsupported
  | refused _ => .unsupported
  | vanished _ => .processingError
  | processing _ => .processingError

/-- What an error says, without the heading that all of them share. -/
def detail :
    QueryError → String
  | malformed expression fault position =>
      "Invalid expression '" ++ expression ++ "': " ++ fault.message ++
        " at position " ++ toString position
  | computesValue expression =>
      "'" ++ expression ++ "' computes a value and does not address document nodes"
  | refused reason => reason
  | vanished location => "location " ++ location.text ++ " vanished"
  | processing detail => detail

/-- The wording of an error. -/
def message
    (error : QueryError) :
    String :=
  "JSONPath error: " ++ error.detail

/-- Whether an error was raised while the query was compiled. -/
def isMalformed
    (error : QueryError) :
    Bool :=
  error.kind = .invalidPath

end QueryError
end FieldQuery
