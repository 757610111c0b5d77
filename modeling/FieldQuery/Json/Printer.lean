import FieldQuery.Decimal.Layout
import FieldQuery.Text.Quoted
import FieldQuery.Value.Basic

/-!
# Writing JSON

A value is written without blanks, the members of a map in their order. A
text escapes the quote, the backslash and the control characters, and a float
is written so that it reads back as the same float.
-/

namespace FieldQuery
namespace Json

/-- The way one character is written inside a text. -/
def writtenChar
    (c : Char) :
    List Char :=
  if c = '"' then
    ['\\', '"']
  else if c = '\\' then
    ['\\', '\\']
  else if c.toNat < 0x20 then
    let digits := Text.hexDigits c.toNat
    ['\\', 'u'] ++ List.replicate (4 - digits.length) '0' ++ digits
  else
    [c]

/-- A text between quotes. -/
def writtenText
    (text : String) :
    String :=
  String.ofList ('"' :: text.toList.flatMap writtenChar ++ ['"'])

/-- The decimal text of a number. -/
def writtenNumber :
    Number → String
  | .int value => toString value
  | .float value => Decimal.Layout.document.render value

mutual

/-- The JSON text of a value. -/
def write :
    Value → String
  | .null => "null"
  | .bool value => toString value
  | .number value => writtenNumber value
  | .text value => writtenText value
  | .list items => "[" ++ ",".intercalate (writeItems items) ++ "]"
  | .map members => "\x7b" ++ ",".intercalate (writeMembers members) ++ "\x7d"

/-- The JSON texts of the items of a list. -/
def writeItems :
    List Value → List String
  | [] => []
  | item :: rest => write item :: writeItems rest

/-- The JSON texts of the members of a map. -/
def writeMembers :
    List (String × Value) → List String
  | [] => []
  | (name, value) :: rest => (writtenText name ++ ":" ++ write value) :: writeMembers rest

end
end Json
end FieldQuery
