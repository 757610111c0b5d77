import FieldQuery.Path.Quotes

/-!
# Quoted byte ranges

Positions in a text can be counted in bytes, too: a character takes between
one and four of them. The search for quotes is the same as that by characters,
but each character moves it on by the bytes that the character takes.
-/

namespace FieldQuery
namespace Path

/-- The bytes that some characters take. -/
def byteLength :
    List Char → Nat
  | [] => 0
  | c :: rest => c.utf8Size + byteLength rest

/-- The bytes that a span of characters takes in a text. -/
def Span.inBytes
    (text : List Char)
    (span : Span) :
    Span :=
  ⟨byteLength (text.take span.start), byteLength (text.take span.stop)⟩

/-- The quoted byte ranges of the rest of a text, which starts at an offset. -/
def byteRangesFrom
    (state : QuoteState)
    (offset : Nat) :
    List Char → List Span
  | [] =>
      match state with
      | .outside => []
      | .inside _ start => [⟨start, offset⟩]
      | .escaped _ start => [⟨start, offset⟩]
  | c :: rest =>
      match state with
      | .outside =>
          if c = '\'' || c = '"' then
            byteRangesFrom (.inside c offset) (offset + c.utf8Size) rest
          else
            byteRangesFrom .outside (offset + c.utf8Size) rest
      | .inside quote start =>
          if c = '\\' then
            byteRangesFrom (.escaped quote start) (offset + c.utf8Size) rest
          else if c = quote then
            ⟨start, offset + c.utf8Size⟩ :: byteRangesFrom .outside (offset + c.utf8Size) rest
          else
            byteRangesFrom (.inside quote start) (offset + c.utf8Size) rest
      | .escaped quote start =>
          byteRangesFrom (.inside quote start) (offset + c.utf8Size) rest

/-- The quoted byte ranges of a text, quotes included, in order. -/
def quotedRanges
    (text : String) :
    List Span :=
  byteRangesFrom .outside 0 text.toList

end Path
end FieldQuery
