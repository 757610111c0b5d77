import FieldQuery.Text.Invisible
import FieldQuery.Text.Extending

/-!
# Quoted texts in messages

A message quotes a name between double quotes in such a way that every
character of it can be seen. The quote and the backslash are escaped, the
common controls have a short escape, and a character that is invisible or
joins the one before it is written as its code point.
-/

namespace FieldQuery
namespace Text

/-- A number in lower-case hexadecimal digits, without padding. -/
def hexDigits
    (n : Nat) :
    List Char :=
  Nat.toDigits 16 n

/-- The way one character is written inside a quoted text. -/
def quotedChar
    (c : Char) :
    List Char :=
  if c = '\x00' then
    ['\\', '0']
  else if c = '\t' then
    ['\\', 't']
  else if c = '\r' then
    ['\\', 'r']
  else if c = '\n' then
    ['\\', 'n']
  else if c = '"' then
    ['\\', '"']
  else if c = '\\' then
    ['\\', '\\']
  else if isExtending c || isInvisible c then
    ['\\', 'u', '\x7b'] ++ hexDigits c.toNat ++ ['\x7d']
  else
    [c]

/-- A text between double quotes, with every character visible. -/
def quoted
    (text : String) :
    String :=
  String.ofList ('"' :: text.toList.flatMap quotedChar ++ ['"'])

end Text
end FieldQuery
