import FieldQuery.Integer64
import FieldQuery.Query.Fault
import FieldQuery.Text.Alphabetic
import FieldQuery.Text.Blank
import FieldQuery.Text.CodeUnit
import FieldQuery.Text.Numeric

/-!
# Lexemes of a query

A lexeme is a token together with the characters of the text that it was
read from. Reading goes from left to right: the first character decides what
kind of token starts there, and the token says how many of the characters
after it belong to it. Blanks separate lexemes and belong to none.

Positions count characters from the start of the text. Inside a token they
count from its first character.
-/

namespace FieldQuery
namespace Query

/-- A token and the positions where it starts and stops. -/
structure Lexeme where
  token : Token
  start : Nat
  stop : Nat
deriving DecidableEq

namespace Lexeme

/-- A fault and the position where it shows. -/
abbrev Failure :=
  Fault × Nat

/-- Characters that start a word. -/
def startsWord
    (c : Char) :
    Bool :=
  Text.isAlphabetic c || c = '_'

/-- Characters that continue a word. -/
def continuesWord
    (c : Char) :
    Bool :=
  Text.isAlphabetic c || Text.isNumeric c || c = '_' || c = '-'

/--
The number in the four characters after a code escape. A plus sign may stand
in place of the first digit.
-/
def hexQuad? :
    List Char → Option Nat
  | '+' :: b :: c :: d :: _ => Text.hexNumber? 0 [b, c, d]
  | a :: b :: c :: d :: _ => Text.hexNumber? 0 [a, b, c, d]
  | _ => none

/--
Reads a code escape after its `u`: the character, and how many characters of
the text it took.
-/
def codeEscape
    (after : List Char) :
    Except Fault (Char × Nat) :=
  match hexQuad? after with
  | none => .error .badCodeEscape
  | some unit =>
      if Text.isHighSurrogate unit then
        match after.drop 4 with
        | '\\' :: 'u' :: second =>
            match hexQuad? second with
            | some low =>
                if Text.isLowSurrogate low then
                  .ok (Text.pairedSurrogates unit low, 10)
                else
                  .error .loneHighSurrogate
            | none => .error .loneHighSurrogate
        | _ => .error .loneHighSurrogate
      else if Text.isLowSurrogate unit then
        .error .loneLowSurrogate
      else
        .ok (Char.ofNat unit, 4)

/--
Reads an escape whose character after the backslash is `c`: the character it
stands for, and how many characters after `c` it took.
-/
def escape
    (c : Char)
    (after : List Char) :
    Except Fault (Char × Nat) :=
  match c with
  | '"' => .ok ('"', 0)
  | '\'' => .ok ('\'', 0)
  | '\\' => .ok ('\\', 0)
  | '/' => .ok ('/', 0)
  | 'b' => .ok ('\x08', 0)
  | 'f' => .ok ('\x0c', 0)
  | 'n' => .ok ('\n', 0)
  | 'r' => .ok ('\r', 0)
  | 't' => .ok ('\t', 0)
  | 'u' => codeEscape after
  | _ => .error .badEscape

/--
Reads the rest of a text literal after `read` of its characters: the
characters it stands for, and how many were read after its opening quote.
-/
def textLiteral
    (quote : Char)
    (read : Nat)
    (rest : List Char) :
    Except Failure (List Char × Nat) :=
  match rest with
  | [] => .error (.unterminatedText, 1)
  | c :: after =>
      if c = quote then
        .ok ([], read + 1)
      else if c = '\\' then
        match after with
        | [] => .error (.unterminatedText, 1)
        | e :: after =>
            match escape e after with
            | .error fault => .error (fault, read + 2)
            | .ok (value, taken) =>
                match textLiteral quote (read + 2 + taken) (after.drop taken) with
                | .ok (values, total) => .ok (value :: values, total)
                | .error failure => .error failure
      else
        match textLiteral quote (read + 1) after with
        | .ok (values, total) => .ok (c :: values, total)
        | .error failure => .error failure
termination_by rest.length
decreasing_by
  all_goals simp only [List.length_cons, List.length_drop]; omega

/-- The digits after a decimal point; a point without a digit after it is none. -/
def fractionDigits :
    List Char → List Char
  | '.' :: rest => rest.takeWhile Char.isDigit
  | _ => []

/--
Reads a number literal that starts with `c`: its token, and how many
characters after `c` it took.
-/
def numberLiteral
    (c : Char)
    (rest : List Char) :
    Except Failure (Token × Nat) :=
  let negative := c = '-'
  let signLength := if negative then 1 else 0
  let body := if negative then rest else c :: rest
  let whole := body.takeWhile Char.isDigit
  let fraction := fractionDigits (body.dropWhile Char.isDigit)
  if whole.isEmpty then
    .error (.missingDigits, 0)
  else if 1 < whole.length && whole.head? = some '0' then
    .error (.leadingZero, signLength)
  else if negative && whole = ['0'] then
    .error (.negativeZero, 0)
  else if fraction.isEmpty then
    match Integer64.ofSignedDigits? negative whole with
    | some value => .ok (.integer value, signLength + whole.length - 1)
    | none => .error (.integerRange, 0)
  else
    let digits := Integer64.ofDigits (whole ++ fraction)
    let value := Binary64.nearest negative (.decimal digits (-fraction.length))
    .ok (.float value, signLength + whole.length + fraction.length)

/-- Reads a dot or two after one; three in a row are a fault. -/
def dots :
    List Char → Except Failure (Token × Nat)
  | '.' :: '.' :: _ => .error (.dots, 0)
  | '.' :: _ => .ok (.descent, 1)
  | _ => .ok (.dot, 0)

/-- Reads the operator or the dots that start with `c`, if any start with it. -/
def operator?
    (c : Char)
    (rest : List Char) :
    Option (Except Failure (Token × Nat)) :=
  let doubled := rest.head? = some c
  let withEquals := rest.head? = some '='
  match c with
  | '=' =>
      some (if doubled then .ok (.comparison .equal, 1) else .error (.singleEquals, 0))
  | '!' =>
      some (if withEquals then .ok (.comparison .notEqual, 1) else .error (.singleBang, 0))
  | '<' =>
      some (.ok (if withEquals then (.comparison .lessOrEqual, 1) else (.comparison .less, 0)))
  | '>' =>
      some (.ok (if withEquals then (.comparison .greaterOrEqual, 1) else (.comparison .greater, 0)))
  | '&' => some (.ok (.and, if doubled then 1 else 0))
  | '|' => some (.ok (.or, if doubled then 1 else 0))
  | '.' => some (dots rest)
  | _ => none

/-- Reads the word that starts with `c`, if a word can start with it. -/
def word?
    (c : Char)
    (rest : List Char) :
    Option (Token × Nat) :=
  if startsWord c then
    let more := rest.takeWhile continuesWord
    some (.ofWord (String.ofList (c :: more)), more.length)
  else
    none

/--
Reads the token that starts with `c`: the token, and how many characters
after `c` belong to it.
-/
def readToken
    (c : Char)
    (rest : List Char) :
    Except Failure (Token × Nat) :=
  if c = '\'' || c = '"' then
    match textLiteral c 0 rest with
    | .ok (characters, taken) => .ok (.text (String.ofList characters), taken)
    | .error failure => .error failure
  else if c.isDigit || c = '-' then
    numberLiteral c rest
  else
    match operator? c rest, Token.ofPunctuation? c, word? c rest with
    | some result, _, _ => result
    | none, some token, _ => .ok (token, 0)
    | none, none, some result => .ok result
    | none, none, none => .error (.unexpectedCharacter c, 0)

/-- The lexemes of a text that starts at a position. -/
def ofText
    (position : Nat)
    (text : List Char) :
    Except Failure (List Lexeme) :=
  match text with
  | [] => .ok []
  | c :: rest =>
      if Text.isAsciiBlank c then
        ofText (position + 1) rest
      else
        match readToken c rest with
        | .error (fault, offset) => .error (fault, position + offset)
        | .ok (token, taken) =>
            let stop := position + 1 + taken
            match ofText stop (rest.drop taken) with
            | .ok lexemes => .ok (⟨token, position, stop⟩ :: lexemes)
            | .error failure => .error failure
termination_by text.length
decreasing_by
  all_goals simp only [List.length_cons, List.length_drop]; omega

end Lexeme

/-- The tokens of a text, closed by the end of the input. -/
def Token.ofText
    (text : String) :
    Except Lexeme.Failure (List Token) :=
  (Lexeme.ofText 0 text.toList).map fun lexemes =>
    lexemes.map Lexeme.token ++ [.endOfInput]

end Query
end FieldQuery
