import FieldQuery.Decimal.Layout
import FieldQuery.Text.Quoted

/-!
# Tokens of a query

A query text is a list of tokens: punctuation, comparisons, logical
connectives, literals and names. The end of the input is a token of its own.
-/

namespace FieldQuery
namespace Query

/-- The six comparisons of a filter. -/
inductive Comparison where
  | equal
  | notEqual
  | less
  | lessOrEqual
  | greater
  | greaterOrEqual
deriving DecidableEq

/-- The symbol of a comparison. -/
def Comparison.symbol :
    Comparison → String
  | equal => "=="
  | notEqual => "!="
  | less => "<"
  | lessOrEqual => "<="
  | greater => ">"
  | greaterOrEqual => ">="

/-- One token of a query. -/
inductive Token where
  | root
  | current
  | dot
  | descent
  | openBracket
  | closeBracket
  | openParen
  | closeParen
  | comma
  | colon
  | question
  | star
  | comparison (operator : Comparison)
  | and
  | or
  | null
  | bool (value : Bool)
  | text (value : String)
  | integer (value : Int)
  | float (value : Binary64)
  | name (value : String)
  | endOfInput
deriving DecidableEq

namespace Token

/-- The token of a single punctuation character. -/
def ofPunctuation? :
    Char → Option Token
  | '$' => some root
  | '@' => some current
  | '[' => some openBracket
  | ']' => some closeBracket
  | '(' => some openParen
  | ')' => some closeParen
  | ',' => some comma
  | ':' => some colon
  | '?' => some question
  | '*' => some star
  | _ => none

/-- The token of a word: a keyword or a name. -/
def ofWord
    (word : String) :
    Token :=
  if word = "true" then
    bool true
  else if word = "false" then
    bool false
  else if word = "null" then
    null
  else
    name word

/--
The member name that a token spells after a dot. Keywords are names there, so
that a member called `true` can be addressed.
-/
def memberName? :
    Token → Option String
  | name value => some value
  | bool true => some "true"
  | bool false => some "false"
  | null => some "null"
  | _ => none

/-- A token as messages describe it. -/
def describe :
    Token → String
  | root => "'$'"
  | current => "'@'"
  | dot => "'.'"
  | descent => "'..'"
  | openBracket => "'['"
  | closeBracket => "']'"
  | openParen => "'('"
  | closeParen => "')'"
  | comma => "','"
  | colon => "':'"
  | question => "'?'"
  | star => "'*'"
  | comparison operator => "'" ++ operator.symbol ++ "'"
  | and => "'&&'"
  | or => "'||'"
  | null => "'null'"
  | bool true => "'true'"
  | bool false => "'false'"
  | text value => "string " ++ Text.quoted value
  | integer value => "integer " ++ toString value
  | float value => "number " ++ Decimal.Layout.message.render value
  | name value => "name '" ++ value ++ "'"
  | endOfInput => "end of input"

end Token
end Query
end FieldQuery
