import Mathlib.Data.List.Forall2
import FieldQuery.Query.Lexeme

/-!
# Tokens in writing

Most tokens are written in one way. In a literal there is a choice for each
character: as it is, behind a backslash, or by its code in hexadecimal digits,
whose letters may be of either case. The tokens of a text stand one behind the
other with a space in between. Floating-point numbers are not written here, and
neither is the end of the input, for which a text has no characters.
-/

namespace FieldQuery
namespace Query

/-- A hexadecimal digit of either case and its value. -/
inductive HexDigit : Nat → Char → Prop where
  | lower
      {value : Nat}
      (h : value < 16) :
      HexDigit value (Nat.digitChar value)
  | upper
      {value : Nat}
      (h : value < 16) :
      HexDigit value (Nat.digitChar value).toUpper

/-- A code unit in four hexadecimal digits. -/
inductive CodeUnit : Nat → List Char → Prop where
  | digits
      {p q r s : Nat}
      {a b c d : Char}
      (ha : HexDigit p a)
      (hb : HexDigit q b)
      (hc : HexDigit r c)
      (hd : HexDigit s d) :
      CodeUnit (((p * 16 + q) * 16 + r) * 16 + s) [a, b, c, d]

/-- The characters with an escape of one letter, behind their letters. -/
def shortEscapes : List (Char × Char) :=
  [ ('"', '"'), ('\'', '\''), ('\\', '\\'), ('/', '/'), ('b', '\x08'), ('f', '\x0c'),
    ('n', '\n'), ('r', '\r'), ('t', '\t') ]

/-- The ways to write a character between quotes. -/
inductive CharWritten
    (quote : Char) :
    Char → List Char → Prop where
  | raw
      {c : Char}
      (hquote : c ≠ quote)
      (hescape : c ≠ '\\') :
      CharWritten quote c [c]
  | short
      {letter c : Char}
      (h : (letter, c) ∈ shortEscapes) :
      CharWritten quote c ['\\', letter]
  | code
      {c : Char}
      {digits : List Char}
      (h : CodeUnit c.toNat digits) :
      CharWritten quote c ('\\' :: 'u' :: digits)
  | pair
      {c : Char}
      {high low : List Char}
      (hplane : 0x10000 ≤ c.toNat)
      (hhigh : CodeUnit (0xD800 + (c.toNat - 0x10000) / 0x400) high)
      (hlow : CodeUnit (0xDC00 + (c.toNat - 0x10000) % 0x400) low) :
      CharWritten quote c ('\\' :: 'u' :: (high ++ '\\' :: 'u' :: low))

namespace Token

/-- The text of a token that is written in one way only. -/
def fixedText? :
    Token → Option String
  | root => some "$"
  | current => some "@"
  | dot => some "."
  | descent => some ".."
  | openBracket => some "["
  | closeBracket => some "]"
  | openParen => some "("
  | closeParen => some ")"
  | comma => some ","
  | colon => some ":"
  | question => some "?"
  | star => some "*"
  | comparison operator => some operator.symbol
  | and => some "&&"
  | or => some "||"
  | null => some "null"
  | bool true => some "true"
  | bool false => some "false"
  | _ => none

/-- Whether a text is a word that is no keyword. -/
def IsName
    (word : String) : Prop :=
  (∃ first rest,
    word.toList = first :: rest ∧
    Lexeme.startsWord first = true ∧
    ∀ c ∈ rest, Lexeme.continuesWord c = true) ∧
  word ∉ ["true", "false", "null"]

/-- Whether a token can be written: names are words, and integers have 64 bits. -/
def Printable :
    Token → Prop
  | endOfInput => False
  | float _ => False
  | integer value => Integer64.isSigned value = true
  | name word => IsName word
  | _ => True

/-- The ways to write a token. -/
inductive Written : Token → List Char → Prop where
  | fixed
      {token : Token}
      {text : String}
      (h : token.fixedText? = some text) :
      Written token text.toList
  | name
      {word : String} :
      Written (name word) word.toList
  | integer
      {value : Int} :
      Written (integer value) (toString value).toList
  | text
      {quote : Char}
      {value : String}
      {pieces : List (List Char)}
      (hquote : quote = '\'' ∨ quote = '"')
      (hpieces : List.Forall₂ (CharWritten quote) value.toList pieces) :
      Written (text value) (quote :: (pieces.flatten ++ [quote]))

/-- Whether a text is some tokens, each written in one of its ways, with single spaces between. -/
def Printed
    (tokens : List Token)
    (text : String) : Prop :=
  ∃ pieces, List.Forall₂ Written tokens pieces ∧ text.toList = [' '].intercalate pieces

end Token
end Query
end FieldQuery
