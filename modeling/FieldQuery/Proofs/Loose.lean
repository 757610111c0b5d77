import FieldQuery.Path.Spacing
import FieldQuery.Proofs.AdvancedParts

/-!
# Paths with blanks in them

A path whose blanks may stand anywhere between its tokens is followed segment
by segment, along with its pieces, up to where it is divided. A dot there may be
followed by a star or by a call of `length()` as well, if there is a blank where
an operator would have none.
-/

namespace FieldQuery

namespace Query
namespace Selector

/-- The only token in a bracket that is marked is a mark. -/
theorem mem_marks_of_marked
    {first : Token}
    {rest : List Token}
    (h : Marked (first :: .closeBracket :: rest)) :
    first ∈ marks := by
  obtain ⟨front, mark, behind, hsplit, hmark, hfront, -⟩ := h
  rcases front with - | ⟨second, front⟩
  · rw [(List.cons.inj hsplit).1]
    exact hmark
  · obtain ⟨-, hrest⟩ := List.cons.inj hsplit
    rcases front with - | ⟨third, front⟩
    · rw [← (List.cons.inj hrest).1] at hmark
      exact absurd hmark (by simp [marks])
    · rw [← (List.cons.inj hrest).1] at hfront
      exact absurd (by simp) hfront

end Selector
end Query

namespace Path

open Query (Chain Token Lexeme)
open Query.Chain (Reads)
open Query.Lexeme (startsWord continuesWord)
open Query.Selector (marks)

/-- The characters of a quoted key without its quotes and with its backslashes resolved. -/
def writtenKey
    (written : List Char) :
    String :=
  String.ofList (Step.unescaped written.tail.dropLast)

/--
The children that are named one by one in front of some pieces, their keys as
they are written, and the pieces behind them.
-/
def writtenRun :
    List Piece → List Accessor × List Piece
  | first :: second :: rest =>
      match first.token, second.token, rest with
      | .openBracket, .text _, closing :: rest =>
          if closing.token = .closeBracket then
            (.key (writtenKey second.written) :: (writtenRun rest).1, (writtenRun rest).2)
          else
            ([], first :: second :: closing :: rest)
      | .openBracket, .integer index, closing :: rest =>
          if closing.token = .closeBracket then
            (.index index :: (writtenRun rest).1, (writtenRun rest).2)
          else
            ([], first :: second :: closing :: rest)
      | .dot, name, rest =>
          match name.memberName?, rest.head?.map Piece.token with
          | none, _ => ([], first :: second :: rest)
          | some _, some .openParen => ([], first :: second :: rest)
          | some name, _ => (.key name :: (writtenRun rest).1, (writtenRun rest).2)
      | _, _, rest => ([], first :: second :: rest)
  | pieces => ([], pieces)

section WrittenRun

variable {first second third : Piece}
variable {rest : List Piece}

theorem writtenRun_quoted
    {name : String}
    (hfirst : first.token = .openBracket)
    (hsecond : second.token = .text name)
    (hthird : third.token = .closeBracket) :
    writtenRun (first :: second :: third :: rest) =
      (.key (writtenKey second.written) :: (writtenRun rest).1, (writtenRun rest).2) := by
  simp [writtenRun, hfirst, hsecond, hthird]

theorem writtenRun_indexed
    {index : Int}
    (hfirst : first.token = .openBracket)
    (hsecond : second.token = .integer index)
    (hthird : third.token = .closeBracket) :
    writtenRun (first :: second :: third :: rest) =
      (.index index :: (writtenRun rest).1, (writtenRun rest).2) := by
  simp [writtenRun, hfirst, hsecond, hthird]

theorem writtenRun_member
    {name : String}
    (hfirst : first.token = .dot)
    (hsecond : second.token.memberName? = some name)
    (hrest : rest.head?.map Piece.token ≠ some .openParen) :
    writtenRun (first :: second :: rest) =
      (.key name :: (writtenRun rest).1, (writtenRun rest).2) := by
  simp [writtenRun, hfirst, hsecond]

theorem writtenRun_star
    (hfirst : first.token = .dot)
    (hsecond : second.token = .star) :
    writtenRun (first :: second :: rest) = ([], first :: second :: rest) := by
  simp [writtenRun, hfirst, hsecond, Token.memberName?]

theorem writtenRun_call
    (hfirst : first.token = .dot)
    (hthird : third.token = .openParen) :
    writtenRun (first :: second :: third :: rest) = ([], first :: second :: third :: rest) := by
  cases hname : second.token.memberName? <;> simp [writtenRun, hfirst, hthird, hname]

theorem writtenRun_descent
    (hfirst : first.token = .descent) :
    writtenRun (first :: rest) = ([], first :: rest) := by
  cases rest with
  | nil => rfl
  | cons second rest =>
      unfold writtenRun
      simp only [hfirst]

/-- A bracket with a mark in it names no child. -/
theorem writtenRun_marked
    (hfirst : first.token = .openBracket)
    (hmarked : Query.Selector.Marked (rest.map Piece.token ++ [.endOfInput])) :
    writtenRun (first :: rest) = ([], first :: rest) := by
  cases rest with
  | nil => rfl
  | cons second rest =>
      unfold writtenRun
      simp only [hfirst]
      split
      · next hsecond =>
          split
          · next hclosing =>
              rw [List.map_cons, List.map_cons, hsecond, hclosing] at hmarked
              exact absurd (Query.Selector.mem_marks_of_marked hmarked) (by simp [marks])
          · rfl
      · next hsecond =>
          split
          · next hclosing =>
              rw [List.map_cons, List.map_cons, hsecond, hclosing] at hmarked
              exact absurd (Query.Selector.mem_marks_of_marked hmarked) (by simp [marks])
          · rfl
      · next hdot => cases hdot
      · rfl

end WrittenRun

/-- The characters between a dot and the next segment, and the tokens that they are read to. -/
inductive AfterDot : List Char → List Token → Prop where
  | member
      {blanks more : List Char}
      {c : Char}
      {token : Token}
      (hblanks : Blank blanks)
      (hstart : startsWord c = true)
      (hmore : ∀ d ∈ more, continuesWord d = true)
      (hname : token.memberName? = some (String.ofList (c :: more))) :
      AfterDot (blanks ++ c :: more) [token]
  | star
      {blanks : List Char}
      (hblanks : Blank blanks) :
      AfterDot (blanks ++ ['*']) [.star]
  | length
      {first second third : List Char}
      (hfirst : Blank first)
      (hsecond : Blank second)
      (hthird : Blank third) :
      AfterDot (first ++ ("length".toList ++ (second ++ '(' :: (third ++ [')']))))
        [.name "length", .openParen, .closeParen]

/--
The text behind a root sign up to where it is divided, with the pieces of all
that stands behind the root sign.
-/
inductive Loose
    (ending : List Char) :
    List Char → List Piece → Prop where
  | whole
      {blanks : List Char}
      (hblanks : Blank blanks)
      (hending : ending = []) :
      Loose ending blanks []
  | advanced
      {blanks : List Char}
      {pieces : List Piece}
      {chain : Chain}
      (hblanks : Blank blanks)
      (hstart : AdvancedStart ending)
      (hne : pieces ≠ [])
      (hrun : writtenRun pieces = ([], pieces))
      (hstar : pieces.map Piece.token ≠ [.dot, .star])
      (hread : Chain.read (pieces.map Piece.token ++ [.endOfInput]) = .ok chain)
      (hcompile : Query.compile (String.ofList ('$' :: ending)) =
        .ok ⟨chain, String.ofList ('$' :: ending)⟩) :
      Loose ending blanks pieces
  | dotted
      {blanks stretch front : List Char}
      {dot : Piece}
      {inner rest : List Piece}
      (hblanks : Blank blanks)
      (hdot : dot.token = .dot)
      (hinner : AfterDot stretch (inner.map Piece.token))
      (hfree : ¬ AdvancedStart ('.' :: (stretch ++ (front ++ ending))))
      (hnext : rest.head?.map Piece.token ≠ some .openParen)
      (hrest : Loose ending front rest) :
      Loose ending (blanks ++ ('.' :: stretch ++ front)) (dot :: (inner ++ rest))
  | bracketed
      {blanks before content after front : List Char}
      {accessor : Accessor}
      {bracket rest : List Piece}
      (hblanks : Blank blanks)
      (hbefore : Blank before)
      (hafter : Blank after)
      (hcontent : PlainContent content accessor)
      (hrun : writtenRun (bracket ++ rest) = (accessor :: (writtenRun rest).1, (writtenRun rest).2))
      (hrest : Loose ending front rest) :
      Loose ending (blanks ++ ('[' :: (before ++ content ++ after ++ [']']) ++ front))
        (bracket ++ rest)

theorem token_ofLexeme
    (text : List Char)
    (lexemes : List Lexeme) :
    (lexemes.map (Piece.ofLexeme text)).map Piece.token = lexemes.map Lexeme.token := by
  rw [List.map_map]
  rfl

/-- What stands behind a dot that an operator starts with. -/
theorem AdvancedStart.behind_dot
    {after : List Char}
    (h : AdvancedStart ('.' :: after)) :
    (∃ more, after = '.' :: more) ∨
      (∃ d more, after = '*' :: d :: more ∧ (d = '.' ∨ d = '[')) ∨
      ∃ more, after = 'l' :: ("ength".toList ++ '(' :: ')' :: more) := by
  generalize htext : '.' :: after = text at h
  cases h with
  | @descent more => exact Or.inl ⟨more, (List.cons.inj htext).2⟩
  | @star d more hd => exact Or.inr (Or.inl ⟨d, more, (List.cons.inj htext).2, hd⟩)
  | @length more => exact Or.inr (Or.inr ⟨more, (List.cons.inj htext).2⟩)
  | bracket => cases htext

/-- Behind blanks, a text that starts with another character starts with it at once. -/
theorem eq_nil_of_not_blank
    {blanks behind rest : List Char}
    {c d : Char}
    (hblanks : Blank blanks)
    (h : blanks ++ c :: behind = d :: rest)
    (hd : Text.isAsciiBlank d = false) :
    blanks = [] := by
  cases blanks with
  | nil =>
      rfl
  | cons b blanks =>
      have hb := hblanks b List.mem_cons_self
      rw [(List.cons.inj h).1, hd] at hb
      cases hb

section Operator

variable {position : Nat}
variable {after : List Char}
variable {lexemes : List Lexeme}
variable {rest : List Token}

/-- A star is not the last token if an operator starts with the dot before it. -/
theorem ne_end_of_advancedStart
    (hlex : Lexeme.ofText position after = .ok lexemes)
    (htokens : lexemes.map Lexeme.token ++ [.endOfInput] = .star :: rest)
    (hstart : AdvancedStart ('.' :: after)) :
    rest ≠ [.endOfInput] := by
  obtain ⟨blanks, c, behind, taken, star, more, rfl, -, -, -, hblanks, hafter, hread, hmore,
    hrest⟩ := Lexeme.exists_first_token hlex htokens (by simp)
  obtain ⟨rfl, rfl⟩ := Lexeme.readToken_punctuation (d := '*') rfl hread
  rcases hstart.behind_dot with ⟨_, rfl⟩ | ⟨d, others, rfl, hd⟩ | ⟨_, rfl⟩
  · obtain rfl := eq_nil_of_not_blank hblanks hafter.symm (by decide)
    exact absurd (List.cons.inj hafter).1 (by decide)
  · obtain rfl := eq_nil_of_not_blank hblanks hafter.symm (by decide)
    obtain ⟨-, rfl⟩ := List.cons.inj hafter
    rintro rfl
    have hnil : more = [] := by simpa using hrest
    rw [hnil] at hmore
    have hblank := Lexeme.blank_of_ofText_nil hmore d List.mem_cons_self
    rcases hd with rfl | rfl <;> exact absurd hblank (by decide)
  · obtain rfl := eq_nil_of_not_blank hblanks hafter.symm (by decide)
    exact absurd (List.cons.inj hafter).1 (by decide)

/-- A name is called if an operator starts with the dot before it. -/
theorem called_of_advancedStart
    {token : Token}
    {name : String}
    (hlex : Lexeme.ofText position after = .ok lexemes)
    (htokens : lexemes.map Lexeme.token ++ [.endOfInput] = token :: rest)
    (hname : token.memberName? = some name)
    (hstart : AdvancedStart ('.' :: after)) :
    ∃ more, rest = .openParen :: more := by
  have hne : token ≠ .endOfInput := by
    rintro rfl
    cases hname
  obtain ⟨blanks, c, behind, taken, word, more, rfl, -, -, -, hblanks, hafter, hread, hmore,
    hrest⟩ := Lexeme.exists_first_token hlex htokens hne
  obtain ⟨hc, -, htaken⟩ := Lexeme.readToken_memberName hname hread
  rcases hstart.behind_dot with ⟨_, rfl⟩ | ⟨d, others, rfl, hd⟩ | ⟨others, rfl⟩
  · obtain rfl := eq_nil_of_not_blank hblanks hafter.symm (by decide)
    rw [← (List.cons.inj hafter).1] at hc
    exact absurd hc (by decide +kernel)
  · obtain rfl := eq_nil_of_not_blank hblanks hafter.symm (by decide)
    rw [← (List.cons.inj hafter).1] at hc
    exact absurd hc (by decide +kernel)
  · obtain rfl := eq_nil_of_not_blank hblanks hafter.symm (by decide)
    obtain ⟨-, rfl⟩ := List.cons.inj hafter
    have hword : ∀ d ∈ "ength".toList, continuesWord d = true :=
      List.all_eq_true.1 (by decide +kernel)
    have hparen : continuesWord '(' = false := by
      decide +kernel
    rw [htaken, Lexeme.drop_length_takeWhile, List.dropWhile_append_of_pos hword,
      List.dropWhile_cons_of_neg (by simp [hparen]), Lexeme.ofText_token (by decide) rfl] at hmore
    cases hlast : Lexeme.ofText (word.stop + 1 + 0) (List.drop 0 (')' :: others)) with
    | error failure =>
        rw [hlast] at hmore
        cases hmore
    | ok last =>
        rw [hlast] at hmore
        rw [← Except.ok.inj hmore] at hrest
        exact ⟨_, hrest.symm⟩

end Operator

/--
Reading of a text has come to a position, from where the body with the given
lexemes and tokens is still to be read.
-/
structure Placed
    (text : List Char)
    (position : Nat)
    (body : List Char)
    (lexemes : List Lexeme)
    (tokens : List Token) : Prop where
  drop : text.drop position = body
  lex : Lexeme.ofText position body = .ok lexemes
  tokens : lexemes.map Lexeme.token ++ [.endOfInput] = tokens

/-- The body of a text is followed along with its lexemes up to where it is divided. -/
def Followed
    (text body : List Char)
    (lexemes : List Lexeme) : Prop :=
  ∃ front ending,
    body = front ++ ending ∧
    Loose ending front (lexemes.map (Piece.ofLexeme text))

/-- A bracket that names one child, behind which the rest of the body is followed. -/
theorem Followed.bracketed
    {text blanks before content after behind : List Char}
    {accessor : Accessor}
    {bracket lexemes : List Lexeme}
    (h : Followed text behind lexemes)
    (hblanks : Blank blanks)
    (hbefore : Blank before)
    (hafter : Blank after)
    (hcontent : PlainContent content accessor)
    (hrun : writtenRun ((bracket ++ lexemes).map (Piece.ofLexeme text)) =
      (accessor :: (writtenRun (lexemes.map (Piece.ofLexeme text))).1,
        (writtenRun (lexemes.map (Piece.ofLexeme text))).2)) :
    Followed text (blanks ++ '[' :: (before ++ content ++ after ++ [']']) ++ behind)
      (bracket ++ lexemes) := by
  obtain ⟨front, ending, rfl, hloose⟩ := h
  refine ⟨blanks ++ ('[' :: (before ++ content ++ after ++ [']']) ++ front), ending, by simp, ?_⟩
  rw [List.map_append] at hrun ⊢
  exact .bracketed hblanks hbefore hafter hcontent hrun hloose

namespace Placed

variable {text body : List Char}
variable {position : Nat}
variable {lexemes : List Lexeme}
variable {first : Token}
variable {tokens rest : List Token}
variable {chain : Chain}

/-- The first token of the body. -/
theorem next
    (h : Placed text position body lexemes (first :: rest))
    (hfirst : first ≠ .endOfInput) :
    ∃ blanks c after taken lexeme more,
      lexemes = lexeme :: more ∧
      lexeme.token = first ∧
      Blank blanks ∧
      body = blanks ++ c :: after ∧
      Lexeme.readToken c after = .ok (first, taken) ∧
      Placed text lexeme.stop (after.drop taken) more rest := by
  obtain ⟨blanks, c, after, taken, lexeme, more, hlexemes, htoken, hstart, hstop, hblanks, hbody,
    hread, hmore, hrest⟩ := Lexeme.exists_first_token h.lex h.tokens hfirst
  refine ⟨blanks, c, after, taken, lexeme, more, hlexemes, htoken, hblanks, hbody, hread, ?_,
    hmore, hrest⟩
  have hafter : text.drop (lexeme.start + 1) = after := by
    refine @drop_add_of_drop text (blanks ++ [c]) after position _ ?_ ?_
    · rw [h.drop, hbody, List.append_assoc]
      rfl
    · rw [hstart, List.length_append, List.length_singleton, Nat.add_assoc]
  rw [hstop, ← List.drop_drop, hafter]

/-- A sign of punctuation behind blanks. -/
theorem sign
    {c : Char}
    (h : Placed text position body lexemes (first :: rest))
    (hc : Token.ofPunctuation? c = some first) :
    ∃ blanks after lexeme more,
      lexemes = lexeme :: more ∧
      lexeme.token = first ∧
      Blank blanks ∧
      body = blanks ++ c :: after ∧
      Placed text lexeme.stop after more rest := by
  have hfirst : first ≠ .endOfInput := by
    rintro rfl
    exact absurd (Lexeme.mem_punctuation hc) (by simp [Lexeme.punctuation])
  obtain ⟨blanks, d, after, taken, lexeme, more, hlexemes, htoken, hblanks, hbody, hread, hmore⟩ :=
    h.next hfirst
  obtain ⟨rfl, rfl⟩ := Lexeme.readToken_punctuation hc hread
  exact ⟨blanks, after, lexeme, more, hlexemes, htoken, hblanks, hbody, hmore⟩

/-- A dot behind blanks. -/
theorem dot
    (h : Placed text position body lexemes (.dot :: rest)) :
    ∃ blanks after lexeme more,
      lexemes = lexeme :: more ∧
      lexeme.token = .dot ∧
      Blank blanks ∧
      body = blanks ++ '.' :: after ∧
      Placed text lexeme.stop after more rest := by
  obtain ⟨blanks, c, after, taken, lexeme, more, hlexemes, htoken, hblanks, hbody, hread, hmore⟩ :=
    h.next (by simp)
  obtain ⟨rfl, rfl, -⟩ := Lexeme.readToken_dot hread
  exact ⟨blanks, after, lexeme, more, hlexemes, htoken, hblanks, hbody, hmore⟩

/-- A member name behind blanks: the longest run of word characters. -/
theorem word
    {name : String}
    (h : Placed text position body lexemes (first :: rest))
    (hname : first.memberName? = some name) :
    ∃ blanks c run after lexeme more,
      lexemes = lexeme :: more ∧
      lexeme.token = first ∧
      Blank blanks ∧
      body = blanks ++ c :: run ++ after ∧
      startsWord c = true ∧
      (∀ d ∈ run, continuesWord d = true) ∧
      name = String.ofList (c :: run) ∧
      Placed text lexeme.stop after more rest := by
  have hfirst : first ≠ .endOfInput := by
    rintro rfl
    cases hname
  obtain ⟨blanks, c, after, taken, lexeme, more, hlexemes, htoken, hblanks, hbody, hread, hmore⟩ :=
    h.next hfirst
  obtain ⟨hstart, hspelled, htaken⟩ := Lexeme.readToken_memberName hname hread
  rw [htaken, Lexeme.drop_length_takeWhile] at hmore
  refine ⟨blanks, c, after.takeWhile continuesWord, after.dropWhile continuesWord, lexeme, more,
    hlexemes, htoken, hblanks, ?_, hstart, List.all_eq_true.1 List.all_takeWhile, hspelled, hmore⟩
  rw [hbody, List.append_assoc, List.cons_append, List.takeWhile_append_dropWhile]

/-- The tokens of the pieces of the body. -/
theorem tokens_pieces
    (h : Placed text position body lexemes tokens) :
    (lexemes.map (Piece.ofLexeme text)).map Piece.token ++ [.endOfInput] = tokens := by
  rw [token_ofLexeme]
  exact h.tokens

/-- Behind blanks, an advanced part that all of the chain is read from. -/
theorem advanced
    {blanks ending : List Char}
    (h : Placed text position (blanks ++ ending) lexemes tokens)
    (hblanks : Blank blanks)
    (hreads : Reads tokens chain)
    (hstart : AdvancedStart ending)
    (hne : lexemes ≠ [])
    (hrun : writtenRun (lexemes.map (Piece.ofLexeme text)) =
      ([], lexemes.map (Piece.ofLexeme text)))
    (hstar : tokens ≠ [.dot, .star, .endOfInput]) :
    Followed text (blanks ++ ending) lexemes := by
  have hlex := h.lex
  rw [Lexeme.ofText_blanks position ending hblanks] at hlex
  refine ⟨blanks, ending, rfl, .advanced hblanks hstart (by simpa using hne) hrun ?_ ?_
    (compile_of_reads hlex (h.tokens ▸ hreads))⟩
  · intro htokens
    apply hstar
    rw [← h.tokens_pieces, htokens]
    rfl
  · rw [h.tokens_pieces]
    exact Chain.read_of_reads hreads

/-- A dot and the tokens after it, behind which the rest of the body is followed. -/
theorem followed_dotted
    {inner : List Token}
    (h : Placed text position body lexemes (.dot :: (inner ++ rest)))
    (hreads : Reads (.dot :: (inner ++ rest)) chain)
    (hnext : rest.head? ≠ some .openParen)
    (hoperator : ∀ {start after others dot},
      Placed text start after others (inner ++ rest) →
      AdvancedStart ('.' :: after) →
      dot.token = .dot →
      inner ++ rest ≠ [.star, .endOfInput] ∧
        writtenRun (dot :: others.map (Piece.ofLexeme text)) =
          ([], dot :: others.map (Piece.ofLexeme text)))
    (hinner : ∀ {start after others},
      Placed text start after others (inner ++ rest) →
      ∃ stretch behind front more stop,
        after = stretch ++ behind ∧
        AfterDot stretch inner ∧
        others = front ++ more ∧
        front.map Lexeme.token = inner ∧
        Placed text stop behind more rest)
    (hrest : ∀ {start behind more},
      Placed text start behind more rest → Followed text behind more) :
    Followed text body lexemes := by
  obtain ⟨blanks, after, dot, others, rfl, hdot, hblanks, rfl, hothers⟩ := h.dot
  -- what looks like an operator is one, whichever segment it belongs to
  by_cases hstart : AdvancedStart ('.' :: after)
  · obtain ⟨hstar, hrun⟩ := @hoperator _ _ _ (Piece.ofLexeme text dot) hothers hstart hdot
    exact h.advanced hblanks hreads hstart (by simp) hrun (by simpa using hstar)
  · obtain ⟨stretch, behind, front, more, stop, rfl, hstretch, rfl, hfront, hmore⟩ :=
      hinner hothers
    obtain ⟨middle, ending, rfl, hloose⟩ := hrest hmore
    refine ⟨blanks ++ ('.' :: stretch ++ middle), ending, by simp, ?_⟩
    rw [List.map_cons, List.map_append]
    refine .dotted hblanks hdot ?_ hstart ?_ hloose
    · rwa [token_ofLexeme, hfront]
    · intro hhead
      apply hnext
      rw [← hmore.tokens_pieces, List.head?_append, List.head?_map, hhead]
      rfl

end Placed

/-- No parenthesis is opened where a segment could start. -/
theorem head?_ne_openParen_of_reads
    {tokens : List Token}
    {chain : Chain}
    (h : Reads tokens chain) :
    tokens.head? ≠ some .openParen := by
  cases h with
  | atEnd hend =>
      rintro hhead
      obtain ⟨rest, rfl⟩ := List.head?_eq_some_iff.1 hhead
      cases hend
  | _ => simp

namespace Placed

variable {text body : List Char}
variable {position : Nat}
variable {lexemes : List Lexeme}
variable {tokens rest : List Token}
variable {chain : Chain}

/-- Where no tokens are left, the rest of the text is blank. -/
theorem followed_end
    (h : Placed text position body lexemes tokens)
    (hend : Chain.isAtEnd tokens = true) :
    Followed text body lexemes := by
  rw [← h.tokens] at hend
  obtain rfl := Lexeme.nil_of_isAtEnd h.lex hend
  exact ⟨body, [], by simp, .whole (Lexeme.blank_of_ofText_nil h.lex) rfl⟩

theorem followed_length
    (h : Placed text position body lexemes
      (.dot :: .name "length" :: .openParen :: .closeParen :: rest))
    (hend : Chain.isAtEnd rest = true) :
    Followed text body lexemes := by
  refine @followed_dotted text body position lexemes rest _
    [.name "length", .openParen, .closeParen] h (.length hend) ?_ ?_ ?_ ?_
  · exact head?_ne_openParen_of_reads (.atEnd hend)
  · intro start after others dot hothers _ hdot
    refine ⟨by simp, ?_⟩
    obtain ⟨_, _, _, _, name, others, rfl, -, -, -, -, -, -, hcall⟩ := hothers.word rfl
    obtain ⟨_, _, opening, others, rfl, hopening, -, -, -⟩ := hcall.sign (c := '(') rfl
    exact writtenRun_call hdot hopening
  · intro start after others hothers
    obtain ⟨first, c, run, _, name, others, rfl, hname, hfirst, rfl, -, -, hspelled, hcall⟩ :=
      hothers.word rfl
    obtain ⟨second, _, opening, others, rfl, hopening, hsecond, rfl, hopened⟩ :=
      hcall.sign (c := '(') rfl
    obtain ⟨third, behind, closing, others, rfl, hclosing, hthird, rfl, hclosed⟩ :=
      hopened.sign (c := ')') rfl
    have hword : c :: run = "length".toList := by
      rw [hspelled, String.toList_ofList]
    refine ⟨_, behind, [name, opening, closing], others, closing.stop, ?_,
      .length hfirst hsecond hthird, rfl, ?_, hclosed⟩
    · rw [List.append_assoc, hword]
      simp
    · rw [List.map_cons, List.map_cons, List.map_singleton, hname, hopening, hclosing]
  · exact fun hmore => hmore.followed_end hend

section Segment

variable (hrest : ∀ {start behind more},
  Placed text start behind more rest → Followed text behind more)

include hrest

theorem followed_star
    (h : Placed text position body lexemes (.dot :: .star :: rest))
    (hreads : Reads rest chain) :
    Followed text body lexemes := by
  refine @followed_dotted text body position lexemes rest _ [.star] h
    (.star hreads) (head?_ne_openParen_of_reads hreads) ?_ ?_ hrest
  · intro start after others dot hothers hoperator hdot
    have hend := ne_end_of_advancedStart hothers.lex hothers.tokens hoperator
    obtain ⟨_, _, star, others, rfl, hstar, -, -, -⟩ := hothers.sign (c := '*') rfl
    exact ⟨by simpa using hend, writtenRun_star hdot hstar⟩
  · intro start after others hothers
    obtain ⟨blanks, behind, star, others, rfl, hstar, hblanks, rfl, hmore⟩ :=
      hothers.sign (c := '*') rfl
    exact ⟨blanks ++ ['*'], behind, [star], others, star.stop, by simp, .star hblanks, rfl,
      by rw [List.map_singleton, hstar], hmore⟩

theorem followed_member
    {token : Token}
    {name : String}
    (h : Placed text position body lexemes (.dot :: token :: rest))
    (hname : token.memberName? = some name)
    (hreads : Reads rest chain) :
    Followed text body lexemes := by
  refine @followed_dotted text body position lexemes rest _ [token] h
    (.member hname hreads) (head?_ne_openParen_of_reads hreads) ?_ ?_ hrest
  · intro start after others dot hothers hoperator hdot
    obtain ⟨more, rfl⟩ := called_of_advancedStart hothers.lex hothers.tokens hname hoperator
    exact absurd rfl (head?_ne_openParen_of_reads hreads)
  · intro start after others hothers
    obtain ⟨blanks, c, run, behind, word, others, rfl, hword, hblanks, rfl, hstart, hrun, rfl,
      hmore⟩ := hothers.word hname
    exact ⟨blanks ++ c :: run, behind, [word], others, word.stop, rfl,
      .member hblanks hstart hrun hname, rfl, by rw [List.map_singleton, hword], hmore⟩

theorem followed_quoted
    {name : String}
    (h : Placed text position body lexemes (.openBracket :: .text name :: .closeBracket :: rest)) :
    Followed text body lexemes := by
  obtain ⟨blanks, before, quote, content, after, behind, opening, key, closing, others, rfl,
    hopening, hkey, hclosing, hstart, hstop, hclosed, hblanks, hbefore, hafter, hquote,
    hcontent, -, rfl, hmore, hlast⟩ := exists_quoted_bracket h.lex h.tokens
  have hplaced : Placed text closing.stop behind others rest := by
    refine ⟨drop_add_of_drop h.drop ?_, hmore, hlast⟩
    simp only [List.length_cons, List.length_append, List.length_nil]
    omega
  have hwritten : writtenKey (Piece.ofLexeme text key).written =
      String.ofList (Step.unescaped content) := by
    rw [writtenKey, Piece.ofLexeme, between_quoted_key h.drop hstart hstop, List.tail_cons,
      List.dropLast_concat]
  have hkeyed := @writtenRun_quoted (Piece.ofLexeme text opening) (Piece.ofLexeme text key)
    (Piece.ofLexeme text closing) (others.map (Piece.ofLexeme text)) name hopening hkey hclosing
  rw [hwritten] at hkeyed
  exact @Followed.bracketed _ _ _ _ _ _ _ [opening, key, closing] _ (hrest hplaced) hblanks
    hbefore hafter (.quoted hquote hcontent) hkeyed

theorem followed_indexed
    {index : Int}
    (h : Placed text position body lexemes
      (.openBracket :: .integer index :: .closeBracket :: rest)) :
    Followed text body lexemes := by
  obtain ⟨blanks, before, negative, digits, after, behind, opening, inner, closing, others,
    rfl, hopening, hinner, hclosing, hclosed, hblanks, hbefore, hafter, hdigits, hvalue, rfl,
    hmore, hlast⟩ := exists_indexed_bracket h.lex h.tokens
  exact @Followed.bracketed _ _ _ _ _ _ _ [opening, inner, closing] _
    (hrest ⟨drop_add_of_drop h.drop hclosed, hmore, hlast⟩) hblanks hbefore hafter
    (.indexed hdigits hvalue) (writtenRun_indexed hopening hinner hclosing)

end Segment

theorem followed_descent
    (h : Placed text position body lexemes (.descent :: rest))
    (hreads : Reads (.descent :: rest) chain) :
    Followed text body lexemes := by
  obtain ⟨blanks, c, after, taken, lexeme, more, rfl, htoken, hblanks, rfl, hread, -⟩ :=
    h.next (by simp)
  obtain ⟨rfl, -, behind, rfl⟩ := Lexeme.readToken_descent hread
  exact h.advanced hblanks hreads .descent (by simp) (writtenRun_descent htoken) (by simp)

/-- A bracket that does not name one child starts an advanced part. -/
theorem followed_marked
    (h : Placed text position body lexemes (.openBracket :: rest))
    (hreads : Reads (.openBracket :: rest) chain)
    (hmarked : Query.Selector.Marked rest) :
    Followed text body lexemes := by
  obtain ⟨blanks, ending, rfl, hblanks, hstart⟩ :=
    exists_advancedStart_of_marked h.lex h.tokens hmarked
  obtain ⟨_, _, opening, others, rfl, hopening, -, -, hothers⟩ := h.sign (c := '[') rfl
  rw [← hothers.tokens_pieces] at hmarked
  exact h.advanced hblanks hreads hstart (by simp) (writtenRun_marked hopening hmarked) (by simp)

end Placed

/-- A text that can be read is followed to its end or to an advanced part. -/
theorem followed_of_reads
    {text body : List Char}
    {position : Nat}
    {lexemes : List Lexeme}
    {tokens : List Token}
    {chain : Chain}
    (hreads : Reads tokens chain)
    (h : Placed text position body lexemes tokens) :
    Followed text body lexemes := by
  induction hreads generalizing position body lexemes with
  | atEnd hend => exact h.followed_end hend
  | length hend => exact h.followed_length hend
  | star hrest ih => exact Placed.followed_star ih h hrest
  | member hname hrest ih => exact Placed.followed_member ih h hname hrest
  | descent htarget hrest _ => exact h.followed_descent (.descent htarget hrest)
  | @bracket rest selector taken chain hselector hrest ih =>
      have hreads := Reads.bracket hselector hrest
      have htaken : taken = (Query.Selector.bracket rest).taken := by
        rw [hselector]
      rw [htaken] at ih
      rcases Query.Selector.bracket_outcome (by rw [hselector]) with
        ⟨name, more, rfl, -⟩ | ⟨index, more, rfl, -⟩ | ⟨more, rfl, -⟩ | ⟨-, hmarked⟩
      · exact Placed.followed_quoted ih h
      · exact Placed.followed_indexed ih h
      · exact h.followed_marked hreads (Query.Selector.marked_star more)
      · exact h.followed_marked hreads hmarked

/-- Between a dot and the next segment there are no quotes and no brackets. -/
theorem AfterDot.ordinary
    {stretch : List Char}
    {tokens : List Token}
    (h : AfterDot stretch tokens) :
    ∀ c ∈ stretch, Lexeme.Ordinary c := by
  have blank {blanks : List Char} (hblanks : Blank blanks) : ∀ c ∈ blanks, Lexeme.Ordinary c :=
    fun c hc => Lexeme.ordinary_of_isAsciiBlank (hblanks c hc)
  have sign {c : Char} (hc : Lexeme.Ordinary c) : ∀ d ∈ [c], Lexeme.Ordinary d := by
    simpa using hc
  cases h with
  | member hblanks hstart hmore hname =>
      exact List.forall_mem_append.2
        ⟨blank hblanks, fun _ => Lexeme.ordinary_of_mem_word hstart hmore⟩
  | star hblanks =>
      exact List.forall_mem_append.2 ⟨blank hblanks, sign (by constructor <;> decide)⟩
  | length hfirst hsecond hthird =>
      have hcontinues : "length".toList.all continuesWord = true := by
        decide +kernel
      have hword : ∀ c ∈ "length".toList, Lexeme.Ordinary c := fun c hc =>
        Lexeme.ordinary_of_continuesWord (List.all_eq_true.1 hcontinues c hc)
      have hopening := sign (c := '(') (by constructor <;> decide)
      have hclosing := sign (c := ')') (by constructor <;> decide)
      exact List.forall_mem_append.2 ⟨blank hfirst, List.forall_mem_append.2 ⟨hword,
        List.forall_mem_append.2 ⟨blank hsecond, List.forall_mem_append.2 ⟨hopening,
          List.forall_mem_append.2 ⟨blank hthird, hclosing⟩⟩⟩⟩⟩

namespace Loose

open Division (Overlooked)

variable {ending front : List Char}
variable {pieces : List Piece}

/-- Behind what is followed, the text is at its end or an advanced part starts. -/
theorem ends
    (h : Loose ending front pieces) :
    ending = [] ∨ AdvancedStart ending := by
  induction h with
  | whole _ hending => exact Or.inl hending
  | advanced _ hstart => exact Or.inr hstart
  | dotted _ _ _ _ _ _ ih => exact ih
  | bracketed _ _ _ _ _ _ ih => exact ih

/-- What is followed is overlooked. -/
theorem overlooked
    (h : Loose ending front pieces) :
    Overlooked front ending := by
  induction h with
  | whole hblanks => exact .of_blank hblanks
  | advanced hblanks => exact .of_blank hblanks
  | dotted hblanks _ hinner hfree _ _ ih =>
      refine .append (.of_blank hblanks) (.append (.of_dotted hinner.ordinary ?_) ih)
      intro pattern hpattern
      rw [← Bool.not_eq_true]
      intro hoccurs
      exact hfree (Division.advancedStart_of_startsWith hpattern hoccurs)
  | bracketed hblanks hbefore hafter hcontent _ _ ih =>
      exact .append (.of_blank hblanks) (.append (.of_bracketed hbefore hafter hcontent) ih)

/-- A path is divided where it is no longer followed. -/
theorem division
    {path : String}
    (h : Loose ending front pieces)
    (hpath : path.toList = '$' :: (front ++ ending)) :
    (Division.ofText path).plain.toList = '$' :: front ∧
      (Division.ofText path).advanced =
        if ending = [] then
          none
        else
          some (String.ofList ('$' :: ending)) := by
  rcases h.ends with rfl | hstart
  · rw [List.append_nil] at hpath
    rw [Division.ofText, hpath, Division.start?_eq_none h.overlooked]
    exact ⟨hpath, rfl⟩
  · have hsplit : path.toList = '$' :: front ++ ending := hpath
    have hne : ending ≠ [] := List.ne_nil_of_length_pos (by have := hstart.two_le_length; omega)
    rw [Division.ofText, hsplit, Division.start?_advanced h.overlooked hstart, if_neg hne]
    simp only [List.take_left, List.drop_left, String.toList_ofList, and_self]

end Loose

/-- A path that compiles is followed along with its pieces. -/
theorem exists_loose
    {path : String}
    {query : Query}
    (h : Query.compile path = .ok query) :
    ∃ front ending pieces,
      path.toList = '$' :: (front ++ ending) ∧
      pieces? path = some (⟨.root, ['$']⟩ :: pieces) ∧
      Loose ending front pieces := by
  obtain ⟨body, lexemes, hbody, -, hlexemes, hlex, hreads⟩ := reads_of_compile h
  have hplaced : Placed path.toList 1 body lexemes (lexemes.map Lexeme.token ++ [.endOfInput]) :=
    ⟨by rw [hbody]; rfl, hlex, rfl⟩
  obtain ⟨front, ending, rfl, hloose⟩ := followed_of_reads hreads hplaced
  refine ⟨front, ending, _, hbody, ?_, hloose⟩
  have hroot : Piece.ofLexeme path.toList ⟨.root, 0, 1⟩ = ⟨.root, ['$']⟩ := by
    rw [Piece.ofLexeme, hbody]
    rfl
  rw [pieces?, hlexemes]
  simp only [List.map_cons, hroot]

end Path
end FieldQuery
