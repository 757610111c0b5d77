import FieldQuery.Query.LeadingRun
import FieldQuery.Proofs.Brackets

/-!
# Segments of a well-spelled path

Behind the root sign, a well-spelled path is a run of segments that name one
child each, written without blanks between them, and an ending: nothing, a
final star, or the start of an advanced part. This module gives these texts
as relations. A run holds nothing that is cut from quotes, so it ends outside
them.
-/

namespace FieldQuery
namespace Path

open Query (Chain Token Lexeme)
open Query.Lexeme (isCut signText startsWord continuesWord Unplain)

/-- Whether a list of characters is made of blanks that separate tokens. -/
def Blank
    (text : List Char) : Prop :=
  ∀ c ∈ text, Text.isAsciiBlank c = true

/-- What stands in a bracket that names one child: a quoted key or an index. -/
inductive PlainContent : List Char → Accessor → Prop where
  | quoted
      {body : List Char}
      {quote : Char}
      (hquote : quote = '\'' ∨ quote = '"')
      (hbody : QuotedBody quote body) :
      PlainContent (quote :: (body ++ [quote])) (.key (String.ofList (Step.unescaped body)))
  | indexed
      {digits : List Char}
      {negative : Bool}
      {value : Int}
      (hdigits : ∀ d ∈ digits, d.isDigit = true)
      (hvalue : Integer64.ofSignedDigits? negative digits = some value) :
      PlainContent (signText negative ++ digits) (.index value)

/-- The texts of segments that name one child, and the children they name. -/
inductive PlainSegment : List Char → Accessor → Prop where
  | dotted
      {c : Char}
      {more : List Char}
      (hstart : startsWord c = true)
      (hmore : ∀ d ∈ more, continuesWord d = true) :
      PlainSegment ('.' :: c :: more) (.key (String.ofList (c :: more)))
  | bracketed
      {before content after : List Char}
      {accessor : Accessor}
      (hbefore : Blank before)
      (hafter : Blank after)
      (hcontent : PlainContent content accessor) :
      PlainSegment ('[' :: (before ++ content ++ after ++ [']'])) accessor

/-- A bracket needs no blanks around its content. -/
theorem PlainContent.bracketed
    {content : List Char}
    {accessor : Accessor}
    (h : PlainContent content accessor) :
    PlainSegment ('[' :: (content ++ [']'])) accessor := by
  have hblank : Blank [] := fun _ hc => nomatch hc
  simpa using PlainSegment.bracketed hblank hblank h

/-- The texts of runs of such segments. -/
inductive Spelled : List Char → List Accessor → Prop where
  | nil :
      Spelled [] []
  | cons
      {segment rest : List Char}
      {accessor : Accessor}
      {accessors : List Accessor}
      (hsegment : PlainSegment segment accessor)
      (hrest : Spelled rest accessors) :
      Spelled (segment ++ rest) (accessor :: accessors)

/-- How the text of an advanced part starts. -/
inductive AdvancedStart : List Char → Prop where
  | descent
      {rest : List Char} :
      AdvancedStart ('.' :: '.' :: rest)
  | star
      {c : Char}
      {rest : List Char}
      (hnext : c = '.' ∨ c = '[') :
      AdvancedStart ('.' :: '*' :: c :: rest)
  | length
      {rest : List Char} :
      AdvancedStart (".length()".toList ++ rest)
  | bracket
      {content rest : List Char}
      (hclear : clear (· == ']') .outside content = true)
      (hunplain : Unplain content) :
      AdvancedStart ('[' :: (content ++ ']' :: rest))

theorem AdvancedStart.two_le_length
    {text : List Char}
    (h : AdvancedStart text) :
    2 ≤ text.length := by
  cases h with
  | descent => simp
  | star => simp
  | length =>
      rw [List.length_append]
      exact Nat.le_add_right_of_le (by decide)
  | bracket =>
      simp only [List.length_cons, List.length_append]
      omega

/-- What may follow the leading run of a path, and the chain that it compiles to. -/
inductive Ending : List Char → Chain → Prop where
  | nothing :
      Ending [] ⟨[], none⟩
  | star :
      Ending ['.', '*'] ⟨[.choose .every], none⟩
  | advanced
      {text : List Char}
      {chain : Chain}
      (hstart : AdvancedStart text)
      (hrun : Query.leadingAccessors chain.selectors = [])
      (hchain : chain ≠ ⟨[], none⟩)
      (hstar : chain = ⟨[.choose .every], none⟩ → ¬ ['.', '*'] <:+ text) :
      Ending text chain

/-- Neither a quoted key nor an index is cut. -/
theorem PlainContent.clear_isCut
    {content : List Char}
    {accessor : Accessor}
    (h : PlainContent content accessor) :
    clear isCut .outside content = true := by
  cases h with
  | quoted hquote hbody => exact clear_quoted _ hquote hbody
  | indexed hdigits _ =>
      exact Lexeme.clear_of_ordinary fun _ => Lexeme.ordinary_of_mem_integer hdigits

theorem clear_of_blank
    {blanks : List Char}
    (h : Blank blanks) :
    clear isCut .outside blanks = true :=
  Lexeme.clear_of_ordinary fun c hc => Lexeme.ordinary_of_isAsciiBlank (h c hc)

/-- Nothing in a bracket that names one child is cut. -/
theorem clear_padded
    {before content after : List Char}
    {accessor : Accessor}
    (hbefore : Blank before)
    (hafter : Blank after)
    (hcontent : PlainContent content accessor) :
    clear isCut .outside (before ++ content ++ after) = true :=
  clear_append (clear_append (clear_of_blank hbefore) hcontent.clear_isCut) (clear_of_blank hafter)

/-- A segment that names one child ends outside quotes. -/
theorem PlainSegment.after_eq
    {segment : List Char}
    {accessor : Accessor}
    (h : PlainSegment segment accessor) :
    Quoting.outside.after segment = .outside := by
  cases h with
  | dotted hstart hmore =>
      rw [Quoting.after_cons]
      exact after_of_clear (Lexeme.clear_of_ordinary fun _ => Lexeme.ordinary_of_mem_word hstart hmore)
  | bracketed hbefore hafter hcontent =>
      have hclear := clear_padded hbefore hafter hcontent
      rw [Quoting.after_cons, Quoting.after_append]
      change (Quoting.outside.after _).after [']'] = .outside
      rw [after_of_clear hclear]
      rfl

end Path
end FieldQuery
