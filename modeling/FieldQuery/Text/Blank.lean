import FieldQuery.Text.CodeRange

/-!
# Blank characters

The characters with the property White_Space of the Unicode standard, the
four of them that separate tokens, and the removal of blanks at the ends of a
text.
-/

namespace FieldQuery
namespace Text

/-- The code points with the property White_Space. -/
def blankRanges : List CodeRange :=
  [ ⟨0x9, 0xD⟩, ⟨0x20, 0x20⟩, ⟨0x85, 0x85⟩, ⟨0xA0, 0xA0⟩,
    ⟨0x1680, 0x1680⟩, ⟨0x2000, 0x200A⟩, ⟨0x2028, 0x2029⟩, ⟨0x202F, 0x202F⟩,
    ⟨0x205F, 0x205F⟩, ⟨0x3000, 0x3000⟩ ]

theorem blankRanges_ascending :
    CodeRange.ascending blankRanges = true := by
  decide +kernel

/-- Whether a character is white space. -/
def isBlank
    (c : Char) :
    Bool :=
  CodeRange.covers c.toNat blankRanges

/-- Whether a character is one of the four blanks that separate tokens. -/
def isAsciiBlank
    (c : Char) :
    Bool :=
  c = ' ' || c = '\t' || c = '\n' || c = '\r'

/-- A text without the blanks at its start. -/
def trimStart
    (text : List Char) :
    List Char :=
  text.dropWhile isBlank

/-- A text without the blanks at its end. -/
def trimEnd
    (text : List Char) :
    List Char :=
  (text.reverse.dropWhile isBlank).reverse

/-- A text without the blanks at both ends. -/
def trim
    (text : List Char) :
    List Char :=
  trimEnd (trimStart text)

end Text
end FieldQuery
