import FieldQuery.Text.Blank
import FieldQuery.Text.CodeUnit

/-!
# Lexemes of JSON texts

A JSON text is a list of punctuation marks, texts, numbers and keywords. The
texts are kept as code units here, because an escape may stand for half of a
surrogate pair, and the numbers are kept as their digits; both are given
their meaning later.
-/

namespace FieldQuery
namespace Json

/-- The parts of a number as it is written. -/
structure Numeral where
  negative : Bool
  whole : List Char
  /-- The digits after the point; none if there is no point. -/
  fraction : List Char
  /-- The sign and the digits of the exponent, if there is one. -/
  exponent : Option (Bool × List Char)
deriving DecidableEq

/-- A lexeme of a JSON text. -/
inductive Lexeme where
  | openList
  | closeList
  | openMap
  | closeMap
  | comma
  | colon
  | null
  | bool (value : Bool)
  | numeral (value : Numeral)
  | text (units : List Nat)
deriving DecidableEq

namespace Lexeme

/-- The code unit of an escape with one character. -/
def shortEscape? :
    Char → Option Nat
  | '"' => some 0x22
  | '\\' => some 0x5C
  | '/' => some 0x2F
  | 'b' => some 0x08
  | 'f' => some 0x0C
  | 'n' => some 0x0A
  | 'r' => some 0x0D
  | 't' => some 0x09
  | _ => none

/-- The code unit of the four hexadecimal digits at the front of a text. -/
def codeUnit? :
    List Char → Option Nat
  | a :: b :: c :: d :: _ => Text.hexNumber? 0 [a, b, c, d]
  | _ => none

/--
Reads the rest of a text after its opening quote: the code units, and what is
left after the closing quote. Control characters have to be escaped.
-/
def textUnits?
    (rest : List Char) :
    Option (List Nat × List Char) :=
  match rest with
  | [] => none
  | '"' :: after => some ([], after)
  | '\\' :: 'u' :: after =>
      match codeUnit? after, textUnits? (after.drop 4) with
      | some unit, some (units, left) => some (unit :: units, left)
      | _, _ => none
  | '\\' :: c :: after =>
      match shortEscape? c, textUnits? after with
      | some unit, some (units, left) => some (unit :: units, left)
      | _, _ => none
  | c :: after =>
      if c = '\\' || c.toNat < 0x20 then
        none
      else
        (textUnits? after).map fun (units, left) => (c.toNat :: units, left)
termination_by rest.length
decreasing_by
  all_goals simp only [List.length_cons, List.length_drop]; omega

/-- Reads the digits of a fraction after its point, of which there is at least one. -/
def fraction? :
    List Char → Option (List Char × List Char)
  | '.' :: rest =>
      let digits := rest.takeWhile Char.isDigit
      if digits.isEmpty then
        none
      else
        some (digits, rest.dropWhile Char.isDigit)
  | rest => some ([], rest)

/-- Reads the sign and the digits of an exponent after its mark. -/
def exponentDigits?
    (rest : List Char) :
    Option ((Bool × List Char) × List Char) :=
  let (negative, rest) :=
    match rest with
    | '-' :: after => (true, after)
    | '+' :: after => (false, after)
    | after => (false, after)
  let digits := rest.takeWhile Char.isDigit
  if digits.isEmpty then
    none
  else
    some ((negative, digits), rest.dropWhile Char.isDigit)

/-- Reads an exponent, if one follows. -/
def exponent?
    (rest : List Char) :
    Option (Option (Bool × List Char) × List Char) :=
  match rest with
  | 'e' :: after => (exponentDigits? after).map fun (e, left) => (some e, left)
  | 'E' :: after => (exponentDigits? after).map fun (e, left) => (some e, left)
  | _ => some (none, rest)

/-- Reads a numeral, whose whole part has no superfluous leading zero. -/
def numeral?
    (input : List Char) :
    Option (Numeral × List Char) :=
  let negative := input.head? = some '-'
  let body := if negative then input.drop 1 else input
  let whole := body.takeWhile Char.isDigit
  if whole.isEmpty || (1 < whole.length && whole.head? = some '0') then
    none
  else
    match fraction? (body.dropWhile Char.isDigit) with
    | none => none
    | some (fraction, rest) =>
        (exponent? rest).map fun (exponent, left) =>
          (⟨negative, whole, fraction, exponent⟩, left)

/-- What follows a keyword at the front of a text. -/
def afterWord? :
    List Char → List Char → Option (List Char)
  | [], rest => some rest
  | _ :: _, [] => none
  | w :: word, c :: rest =>
      if w = c then
        afterWord? word rest
      else
        none

/-- Reads the lexeme at the front of a text that does not start with a blank. -/
def read?
    (input : List Char) :
    Option (Lexeme × List Char) :=
  match input with
  | [] => none
  | '[' :: rest => some (openList, rest)
  | ']' :: rest => some (closeList, rest)
  | '\x7b' :: rest => some (openMap, rest)
  | '\x7d' :: rest => some (closeMap, rest)
  | ',' :: rest => some (comma, rest)
  | ':' :: rest => some (colon, rest)
  | '"' :: rest => (textUnits? rest).map fun (units, left) => (.text units, left)
  | 'n' :: rest => (afterWord? ['u', 'l', 'l'] rest).map fun left => (null, left)
  | 't' :: rest => (afterWord? ['r', 'u', 'e'] rest).map fun left => (bool true, left)
  | 'f' :: rest => (afterWord? ['a', 'l', 's', 'e'] rest).map fun left => (bool false, left)
  | _ => (numeral? input).map fun (value, left) => (numeral value, left)

/--
The lexemes of a text. Each lexeme takes at least one character, so as many
steps as there are characters suffice.
-/
def ofText?
    (steps : Nat)
    (input : List Char) :
    Option (List Lexeme) :=
  match input.dropWhile Text.isAsciiBlank with
  | [] => some []
  | c :: rest =>
      match steps, read? (c :: rest) with
      | steps + 1, some (lexeme, left) => (ofText? steps left).map (lexeme :: ·)
      | _, _ => none

end Lexeme
end Json
end FieldQuery
