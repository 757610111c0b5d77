import FieldQuery.Proofs.Escapes
import FieldQuery.Proofs.Numerals
import FieldQuery.Query.Grammar

/-!
# Segments that name one child

A segment that names one child is a dot and a word, or a bracket with a quoted
body or an integer in it, with blanks in front of each of its tokens. A word may
be a keyword, and what stands in a bracket need not be something that can be
read. So a segment is either read as the tokens that it is made of, whatever
segments or brackets follow it, or it is not read at all.
-/

namespace FieldQuery
namespace Query

open Lexeme (startsWord continuesWord readToken)

/-- Blanks that separate tokens. -/
abbrev Blanks :=
  { text : List Char // Path.Blank text }

/-- A name or a keyword in writing. -/
structure Word where
  first : Char
  rest : List Char
  startsWord_first : startsWord first = true
  continuesWord_of_mem_rest : ∀ c ∈ rest, continuesWord c = true

/-- A quoted body between two quotes of one kind. Its escapes may be none that can be read. -/
structure Quotation where
  quote : Char
  body : List Char
  isQuote : quote = '\'' ∨ quote = '"'
  isQuotedBody : Path.QuotedBody quote body

/-- What stands in the bracket of a child. The number may be none that can be read. -/
inductive ChildLabel where
  | quotation (quotation : Quotation)
  | numeral (numeral : Numeral) (hfraction : numeral.fraction = [])

/-- A segment that names one child, with the blanks in front of its tokens. -/
inductive ChildSegment where
  | dotted (lead gap : Blanks) (word : Word)
  | bracketed (lead before : Blanks) (label : ChildLabel) (after : Blanks)

/-- What the tokens of such a segment are: a dot and a word, or an accessor in a bracket. -/
inductive ChildStep where
  | word (name : String)
  | label (accessor : Accessor)

/-- Whether a word is a keyword. -/
def isKeyword
    (word : String) :
    Bool :=
  word ∈ ["true", "false", "null"]

/-- The name that a word spells. -/
def Word.name
    (word : Word) :
    String :=
  String.ofList (word.first :: word.rest)

/-- The characters of a label. -/
def ChildLabel.text :
    ChildLabel → List Char
  | quotation q => q.quote :: (q.body ++ [q.quote])
  | numeral n _ => n.text

namespace ChildSegment

/-- The characters of a segment. -/
def text :
    ChildSegment → List Char
  | dotted lead gap word => lead.val ++ '.' :: (gap.val ++ word.first :: word.rest)
  | bracketed lead before label after =>
      lead.val ++ '[' :: (before.val ++ (label.text ++ (after.val ++ [']'])))

/-- Whether a segment is a dot and a keyword. -/
def isDottedKeyword :
    ChildSegment → Bool
  | dotted _ _ word => isKeyword word.name
  | bracketed .. => false

end ChildSegment

namespace ChildStep

/-- The tokens of a step. -/
def tokens :
    ChildStep → List Token
  | word name => [.dot, .ofWord name]
  | label accessor => [.openBracket, (Choice.access accessor).token, .closeBracket]

/-- The child that a step names. -/
def accessor :
    ChildStep → Accessor
  | word name => .key name
  | label accessor => accessor

/-- Whether a step is a dot and a keyword. -/
def isDottedKeyword :
    ChildStep → Bool
  | word name => isKeyword name
  | label _ => false

end ChildStep

section Reading

variable {c : Char}
variable {rest more : List Char}
variable {token : Token}
variable {taken : Nat}

/-- The tokens of a text, if it is read. -/
def tokens?
    (text : List Char) :
    Option (List Token) :=
  match Lexeme.ofText 0 text with
  | .ok lexemes => some (lexemes.map Lexeme.token)
  | .error _ => none

/-- The tokens of a text do not depend on the position that it starts from. -/
theorem tokens?_eq
    (position : Nat)
    (text : List Char) :
    tokens? text =
      match Lexeme.ofText position text with
      | .ok lexemes => some (lexemes.map Lexeme.token)
      | .error _ => none := by
  rw [tokens?]
  cases hzero : Lexeme.ofText 0 text with
  | ok lexemes =>
      obtain ⟨moved, hmoved, htokens⟩ := Lexeme.ofText_tokens position hzero
      rw [hmoved]
      exact congrArg some htokens.symm
  | error failure =>
      cases hmoved : Lexeme.ofText position text with
      | error _ => rfl
      | ok lexemes =>
          obtain ⟨back, hback, -⟩ := Lexeme.ofText_tokens 0 hmoved
          rw [hzero] at hback
          cases hback

theorem tokens?_blanks
    {blanks : List Char}
    (hblanks : Path.Blank blanks)
    (rest : List Char) :
    tokens? (blanks ++ rest) = tokens? rest := by
  rw [tokens?, Lexeme.ofText_blanks 0 rest hblanks, ← tokens?_eq]

theorem tokens?_token
    (hblank : Text.isAsciiBlank c = false)
    (hread : readToken c rest = .ok (token, taken)) :
    tokens? (c :: rest) = (tokens? (rest.drop taken)).map (token :: ·) := by
  rw [tokens?, Lexeme.ofText_token hblank hread, tokens?_eq (0 + 1 + taken) (rest.drop taken)]
  cases Lexeme.ofText (0 + 1 + taken) (rest.drop taken) <;> rfl

theorem tokens?_fault
    {failure : Lexeme.Failure}
    (hblank : Text.isAsciiBlank c = false)
    (hread : readToken c rest = .error failure) :
    tokens? (c :: rest) = none := by
  rw [tokens?, Lexeme.ofText, hblank, hread]
  rfl

theorem tokens?_closeBracket
    {after : List Char}
    (hafter : Path.Blank after)
    (more : List Char) :
    tokens? (after ++ ']' :: more) = (tokens? more).map (.closeBracket :: ·) := by
  rw [tokens?_blanks hafter, tokens?_token rfl rfl]
  rfl

end Reading

/-- A number ends in front of the blanks and the bracket behind it. -/
theorem Numeral.endsBefore_closeBracket
    {numeral : Numeral}
    {after : List Char}
    (hafter : Path.Blank after)
    (more : List Char) :
    numeral.EndsBefore (after ++ ']' :: more) := by
  have hhead : ∀ c ∈ (after ++ ']' :: more).head?, Text.isAsciiBlank c = true ∨ c = ']' := by
    intro c hc
    cases after with
    | nil => exact Or.inr (Option.some.inj hc).symm
    | cons d after =>
        obtain rfl := Option.some.inj hc
        exact Or.inl (hafter d List.mem_cons_self)
  refine ⟨?_, ?_⟩
  · intro c hc
    rcases hhead c hc with hblank | rfl
    · simp only [Text.isAsciiBlank, Bool.or_eq_true, decide_eq_true_eq] at hblank
      rcases hblank with ((rfl | rfl) | rfl) | rfl <;> rfl
    · rfl
  · intro _ c rest hpoint
    rw [hpoint] at hhead
    rcases hhead '.' rfl with hblank | hbracket
    · exact absurd hblank (by decide)
    · exact absurd hbracket (by decide)

namespace ChildLabel

/-- A label in a bracket is either read as an accessor or not at all, whatever follows. -/
theorem tokens?_text
    (label : ChildLabel) :
    (∃ accessor, ∀ after more, Path.Blank after →
        tokens? (label.text ++ (after ++ ']' :: more)) =
          (tokens? more).map ((Choice.access accessor).token :: .closeBracket :: ·)) ∨
      ∀ after more, Path.Blank after → tokens? (label.text ++ (after ++ ']' :: more)) = none := by
  cases label with
  | quotation q =>
      obtain ⟨quote, body, hquote, hbody⟩ := q
      have hblank := Lexeme.isAsciiBlank_of_quote hquote
      have htext (behind : List Char) : text (.quotation ⟨quote, body, hquote, hbody⟩) ++ behind =
          quote :: (body ++ quote :: behind) := by
        simp [text]
      by_cases h : ∃ more values total,
          Lexeme.textLiteral quote 0 (body ++ quote :: more) = .ok (values, total)
      · obtain ⟨other, values, total, hread⟩ := h
        refine Or.inl ⟨.key (String.ofList values), ?_⟩
        intro after more hafter
        rw [htext, tokens?_token hblank (readToken_quotedBody hquote hbody hread _),
          Lexeme.drop_behind, tokens?_closeBracket hafter, Option.map_map]
        rfl
      · refine Or.inr ?_
        intro after more _
        rw [htext]
        cases hread : Lexeme.textLiteral quote 0 (body ++ quote :: (after ++ ']' :: more)) with
        | ok result => exact absurd ⟨_, result.1, result.2, hread⟩ h
        | error failure =>
            have hfault : readToken quote (body ++ quote :: (after ++ ']' :: more)) =
                .error failure := by
              rw [Lexeme.readToken, if_pos (by simpa using hquote), hread]
            exact tokens?_fault hblank hfault
  | numeral n hfraction =>
      obtain ⟨c, rest, htext, hc⟩ := n.exists_text_eq_cons
      have hsplit (behind : List Char) : c :: (rest ++ behind) = n.text ++ behind := by
        rw [htext]
        rfl
      have hstart (behind : List Char) := Lexeme.readToken_number (rest ++ behind) hc
      have htoken : n.token = .integer n.integer := by
        rw [Numeral.token, hfraction]
        rfl
      by_cases hnumeral : n.IsGrammatical ∧ n.startsMinusZero = false
      · refine Or.inl ⟨.index n.integer, ?_⟩
        intro after more hafter
        obtain ⟨hblank, hnumber⟩ := hstart (after ++ ']' :: more)
        rcases Numeral.numberLiteral_cases (hsplit _) (Numeral.endsBefore_closeBracket hafter more)
          with ⟨-, hread⟩ | ⟨hnot, -⟩
        · have hdrop : (rest ++ (after ++ ']' :: more)).drop (n.text.length - 1) =
              after ++ ']' :: more := by
            rw [htext]
            exact List.drop_left
          rw [text, ← hsplit, tokens?_token hblank (hnumber.trans hread), hdrop, htoken,
            tokens?_closeBracket hafter, Option.map_map]
          rfl
        · exact absurd hnumeral hnot
      · refine Or.inr ?_
        intro after more hafter
        obtain ⟨hblank, hnumber⟩ := hstart (after ++ ']' :: more)
        rcases Numeral.numberLiteral_cases (hsplit _) (Numeral.endsBefore_closeBracket hafter more)
          with ⟨hyes, -⟩ | ⟨-, fault, offset, hfault, -⟩
        · exact absurd hyes hnumeral
        · rw [text, ← hsplit, tokens?_fault hblank (hnumber.trans hfault)]

end ChildLabel

/-- Whether a text goes on as it does behind a segment: with a blank, a dot or a bracket. -/
def GoesOn
    (more : List Char) : Prop :=
  ∀ c ∈ more.head?, Text.isAsciiBlank c = true ∨ c = '.' ∨ c = '[' ∨ c = ']'

section GoesOn

variable {more : List Char}

theorem GoesOn.stop
    (h : GoesOn more) :
    ∀ c ∈ more.head?, continuesWord c = false := by
  have hblanks : ∀ c, Text.isAsciiBlank c = true → continuesWord c = false := by
    intro c hc
    simp only [Text.isAsciiBlank, Bool.or_eq_true, decide_eq_true_eq] at hc
    rcases hc with ((rfl | rfl) | rfl) | rfl <;> decide +kernel
  intro c hc
  rcases h c hc with hblank | rfl | rfl | rfl
  · exact hblanks c hblank
  · decide +kernel
  · decide +kernel
  · decide +kernel

theorem goesOn_blanks
    (blanks : Blanks)
    (h : GoesOn more) :
    GoesOn (blanks.val ++ more) := by
  obtain ⟨blanks, hblanks⟩ := blanks
  cases blanks with
  | nil => exact h
  | cons d blanks =>
      intro c hc
      obtain rfl := Option.some.inj hc
      exact Or.inl (hblanks d List.mem_cons_self)

end GoesOn

/-- Whether a text is read as some tokens, whatever follows it. -/
def IsReadAs
    (text : List Char)
    (tokens : List Token) : Prop :=
  ∀ more, GoesOn more → tokens? (text ++ more) = (tokens? more).map (tokens ++ ·)

/-- Whether a text is not read, whatever follows it. -/
def IsUnread
    (text : List Char) : Prop :=
  ∀ more, GoesOn more → tokens? (text ++ more) = none

section Append

variable {front back : List Char}
variable {first second : List Token}

theorem IsReadAs.append
    (h : IsReadAs front first)
    (hback : IsReadAs back second)
    (hnext : ∀ more, GoesOn more → GoesOn (back ++ more)) :
    IsReadAs (front ++ back) (first ++ second) := by
  intro more hmore
  rw [List.append_assoc, h _ (hnext more hmore), hback more hmore, Option.map_map]
  congr 1
  funext tokens
  exact (List.append_assoc ..).symm

theorem IsReadAs.append_unread
    (h : IsReadAs front first)
    (hback : IsUnread back)
    (hnext : ∀ more, GoesOn more → GoesOn (back ++ more)) :
    IsUnread (front ++ back) := by
  intro more hmore
  rw [List.append_assoc, h _ (hnext more hmore), hback more hmore]
  rfl

theorem IsUnread.append
    (h : IsUnread front)
    (hnext : ∀ more, GoesOn more → GoesOn (back ++ more)) :
    IsUnread (front ++ back) := by
  intro more hmore
  rw [List.append_assoc, h _ (hnext more hmore)]

end Append

namespace ChildSegment

theorem goesOn_text
    (segment : ChildSegment)
    (more : List Char) :
    GoesOn (segment.text ++ more) := by
  cases segment with
  | dotted lead gap word =>
      rw [text, List.append_assoc]
      exact goesOn_blanks lead fun c hc => Or.inr (Or.inl (Option.some.inj hc).symm)
  | bracketed lead before label after =>
      rw [text, List.append_assoc]
      exact goesOn_blanks lead fun c hc => Or.inr (Or.inr (Or.inl (Option.some.inj hc).symm))

theorem goesOn_flatMap
    (segments : List ChildSegment)
    (more : List Char)
    (h : GoesOn more) :
    GoesOn (segments.flatMap text ++ more) := by
  cases segments with
  | nil => exact h
  | cons segment segments =>
      rw [List.flatMap_cons, List.append_assoc]
      exact segment.goesOn_text _

/-- A dot and a word are read as such, whatever word it is. -/
theorem isReadAs_dotted
    (lead gap : Blanks)
    (word : Word) :
    IsReadAs (dotted lead gap word).text [.dot, .ofWord word.name] := by
  intro more hmore
  obtain ⟨first, rest, hfirst, hrest⟩ := word
  obtain ⟨hblank, hread⟩ := Lexeme.readToken_word hfirst hrest hmore.stop
  have htext : (dotted lead gap ⟨first, rest, hfirst, hrest⟩).text ++ more =
      lead.val ++ '.' :: (gap.val ++ first :: (rest ++ more)) := by
    simp [text]
  have hdot : readToken '.' (gap.val ++ first :: (rest ++ more)) = .ok (.dot, 0) := by
    have hsingle {d : Char} (hd : d ≠ '.') (behind : List Char) :
        readToken '.' (d :: behind) = .ok (.dot, 0) := by
      simp [readToken, Lexeme.operator?, Lexeme.dots, hd]
    obtain ⟨gap, hgap⟩ := gap
    cases gap with
    | nil =>
        refine hsingle ?_ _
        rintro rfl
        exact absurd hfirst (by decide +kernel)
    | cons d gap =>
        refine hsingle ?_ _
        rintro rfl
        exact absurd (hgap '.' List.mem_cons_self) (by decide)
  rw [htext, tokens?_blanks lead.property, tokens?_token rfl hdot, List.drop_zero,
    tokens?_blanks gap.property, tokens?_token hblank hread, List.drop_left, Option.map_map]
  rfl

/-- A segment is either read as a step or not at all. -/
theorem isReadAs_text
    (segment : ChildSegment) :
    (∃ step : ChildStep,
      step.isDottedKeyword = segment.isDottedKeyword ∧ IsReadAs segment.text step.tokens) ∨
      IsUnread segment.text := by
  cases segment with
  | dotted lead gap word => exact Or.inl ⟨.word word.name, rfl, isReadAs_dotted lead gap word⟩
  | bracketed lead before label after =>
      have hopening (more : List Char) :
          tokens? ((bracketed lead before label after).text ++ more) =
            (tokens? (label.text ++ (after.val ++ ']' :: more))).map (.openBracket :: ·) := by
        have htext : (bracketed lead before label after).text ++ more =
            lead.val ++ '[' :: (before.val ++ (label.text ++ (after.val ++ ']' :: more))) := by
          simp [text]
        rw [htext, tokens?_blanks lead.property, tokens?_token rfl rfl, List.drop_zero,
          tokens?_blanks before.property]
      rcases label.tokens?_text with ⟨accessor, hread⟩ | hnone
      · refine Or.inl ⟨.label accessor, rfl, ?_⟩
        intro more _
        rw [hopening, hread _ _ after.property, Option.map_map]
        rfl
      · refine Or.inr ?_
        intro more _
        rw [hopening, hnone _ _ after.property]
        rfl

/-- Segments are either read as steps, one after another, or not at all. -/
theorem isReadAs_flatMap
    (segments : List ChildSegment) :
    (∃ steps : List ChildStep,
      steps.any ChildStep.isDottedKeyword = segments.any isDottedKeyword ∧
      IsReadAs (segments.flatMap text) (steps.flatMap ChildStep.tokens)) ∨
      IsUnread (segments.flatMap text) := by
  induction segments with
  | nil => exact Or.inl ⟨[], rfl, fun more _ => by simp⟩
  | cons segment segments ih =>
      have hnext := goesOn_flatMap segments
      rw [List.flatMap_cons, List.any_cons]
      rcases segment.isReadAs_text with ⟨step, hstep, hread⟩ | hunread
      · rcases ih with ⟨steps, hsteps, hothers⟩ | hunread
        · refine Or.inl ⟨step :: steps, by rw [List.any_cons, hstep, hsteps], ?_⟩
          exact hread.append hothers hnext
        · exact Or.inr (hread.append_unread hunread hnext)
      · exact Or.inr (hunread.append hnext)

end ChildSegment

end Query
end FieldQuery
