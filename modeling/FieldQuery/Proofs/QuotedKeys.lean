import Mathlib.Control.Monad.Basic
import FieldQuery.Proofs.AdvancedParts
import FieldQuery.Proofs.Parting
import FieldQuery.Proofs.Steps

/-!
# Quoted keys of paths and of queries

A quoted key between brackets is read twice: as a step of a plain path and as
a selector of a query. The two readings name the same child exactly if every
backslash stands before a backslash, a quote or a slash. A path takes the
character behind a backslash as it is, while a query also knows the escapes
that stand for other characters.

A literal is read from its own characters alone. So one that is read by
itself is read the same between brackets.
-/

namespace FieldQuery

namespace Query
namespace Lexeme

open FieldQuery.Path (QuotedBody plainlyEscaped)

section Append

variable {text : List Char}
variable {taken : Nat}
variable {value : Char}

/-- A code unit is read from the characters in front, whatever follows. -/
theorem hexQuad?_append
    {unit : Nat}
    (h : hexQuad? text = some unit)
    (more : List Char) :
    hexQuad? (text ++ more) = some unit := by
  unfold hexQuad? at h
  split at h
  · exact h
  · next a b c d tail hplus =>
      rw [← h]
      simp only [List.cons_append, hexQuad?]
  · cases h

theorem codeEscape_append
    (h : codeEscape text = .ok (value, taken))
    (more : List Char) :
    codeEscape (text ++ more) = .ok (value, taken) := by
  unfold codeEscape at h
  split at h
  · cases h
  · next unit hunit =>
      rw [codeEscape, hexQuad?_append hunit]
      dsimp only
      split at h
      · next hhigh =>
          rw [if_pos hhigh]
          split at h
          · next second hsecond =>
              have hlength := congrArg List.length hsecond
              rw [List.length_drop, List.length_cons, List.length_cons] at hlength
              rw [List.drop_append_of_le_length (by omega), hsecond]
              simp only [List.cons_append]
              split at h
              · next low hlow =>
                  simp only [hexQuad?_append hlow]
                  exact h
              · cases h
          · cases h
      · next hhigh =>
          rw [if_neg hhigh]
          exact h

theorem escape_append
    {c : Char}
    (h : escape c text = .ok (value, taken))
    (more : List Char) :
    escape c (text ++ more) = .ok (value, taken) := by
  unfold escape at h ⊢
  split at h
  case h_10 => exact codeEscape_append h more
  all_goals exact h

/-- A text literal is read from the characters up to its closing quote. -/
theorem textLiteral_append
    {quote : Char}
    (hquote : quote = '\'' ∨ quote = '"')
    {read total : Nat}
    {rest characters : List Char}
    (h : textLiteral quote read rest = .ok (characters, total))
    (more : List Char) :
    textLiteral quote read (rest ++ more) = .ok (characters, total) := by
  fun_induction textLiteral quote read rest generalizing characters total with
  | case2 read after =>
      unfold textLiteral
      simpa only [List.cons_append, if_true] using h
  | case5 read e after value taken hvalue values length hrest hne ih =>
      have hmore := ih hrest
      rw [← List.drop_append_of_le_length (quotedBody_of_escape hquote hvalue).2] at hmore
      unfold textLiteral
      simpa only [List.cons_append, if_neg hne, if_true, escape_append hvalue, hmore] using h
  | case7 read c after hother hplain values length hrest ih =>
      unfold textLiteral
      simpa only [List.cons_append, if_neg hother, if_neg hplain, ih hrest] using h
  | _ => cases h

end Append

/-- A token of text is read as a text literal. -/
theorem textLiteral_of_readToken
    {c : Char}
    {rest : List Char}
    {value : String}
    {taken : Nat}
    (h : readToken c rest = .ok (.text value, taken)) :
    (c = '\'' ∨ c = '"') ∧
      ∃ characters,
        textLiteral c 0 rest = .ok (characters, taken) ∧
        value = String.ofList characters := by
  obtain ⟨-, -, hquote, -⟩ := readToken_text h
  refine ⟨hquote, ?_⟩
  rw [readToken, if_pos (by simpa using hquote)] at h
  split at h
  · next characters total hliteral =>
      simp only [Except.ok.injEq, Prod.mk.injEq, Token.text.injEq] at h
      obtain ⟨rfl, rfl⟩ := h
      exact ⟨characters, hliteral, rfl⟩
  · cases h

theorem readToken_of_textLiteral
    {quote : Char}
    {rest characters : List Char}
    {taken : Nat}
    (hquote : quote = '\'' ∨ quote = '"')
    (h : textLiteral quote 0 rest = .ok (characters, taken)) :
    readToken quote rest = .ok (.text (String.ofList characters), taken) := by
  rw [readToken, if_pos (by simpa using hquote), h]

/--
The parts of a text that is one literal: blanks around a quoted body. The
literal stands for the body without its backslashes exactly if its escapes
are plain.
-/
theorem exists_literal
    {literal name : String}
    (h : Token.ofText literal = .ok [.text name, .endOfInput]) :
    ∃ before quote body after characters,
      literal.toList = before ++ quote :: (body ++ quote :: after) ∧
      Path.Blank before ∧
      Path.Blank after ∧
      (quote = '\'' ∨ quote = '"') ∧
      QuotedBody quote body ∧
      name = String.ofList characters ∧
      textLiteral quote 0 (body ++ quote :: after) = .ok (characters, body.length + 1) ∧
      (Path.Step.unescaped body = characters ↔ plainlyEscaped body = true) := by
  obtain ⟨lexemes, hlex, htokens⟩ : ∃ lexemes, ofText 0 literal.toList = .ok lexemes ∧
      lexemes.map token ++ [.endOfInput] = [.text name, .endOfInput] := by
    rw [Token.ofText] at h
    cases hlex : ofText 0 literal.toList with
    | error failure =>
        rw [hlex] at h
        cases h
    | ok lexemes =>
        rw [hlex] at h
        exact ⟨lexemes, rfl, Except.ok.inj h⟩
  obtain ⟨before, quote, rest, taken, _, more, -, -, -, -, hbefore, hsplit, hread, hmore, hend⟩ :=
    exists_first_token hlex htokens (by simp)
  have hblank := blank_of_isAtEnd hmore (by rw [hend]; rfl)
  obtain ⟨hquote, characters, hliteral, hname⟩ := textLiteral_of_readToken hread
  obtain ⟨body, after, rfl, htaken, hbody, -, hplain⟩ := textLiteral_eq_ok hquote hliteral
  rw [Nat.zero_add] at htaken
  subst htaken
  rw [← List.drop_drop, List.drop_left] at hblank
  exact ⟨before, quote, body, after, characters, hsplit, hbefore, hblank, hquote, hbody, hname,
    hliteral, hplain⟩

/-- Blanks in front do not change how a text is escaped. -/
theorem plainlyEscaped_blanks
    {blanks : List Char}
    (hblanks : Path.Blank blanks)
    (rest : List Char) :
    plainlyEscaped (blanks ++ rest) = plainlyEscaped rest := by
  induction blanks with
  | nil => rfl
  | cons c blanks ih =>
      have hc : c ≠ '\\' := by
        rintro rfl
        exact absurd (hblanks _ List.mem_cons_self) (by decide)
      rw [List.cons_append, plainlyEscaped_cons _ hc]
      exact ih fun d hd => hblanks d (List.mem_cons_of_mem _ hd)

/-- Blanks and quotes around a body do not change how it is escaped. -/
theorem plainlyEscaped_literal
    {quote : Char}
    {before body after : List Char}
    (hquote : quote = '\'' ∨ quote = '"')
    (hbefore : Path.Blank before)
    (hbody : QuotedBody quote body)
    (hafter : Path.Blank after) :
    plainlyEscaped (before ++ quote :: (body ++ quote :: after)) = plainlyEscaped body := by
  have hescape := Path.ne_backslash_of_quote hquote
  have hrest := plainlyEscaped_blanks hafter []
  rw [List.append_nil] at hrest
  rw [plainlyEscaped_blanks hbefore, plainlyEscaped_cons _ hescape, plainlyEscaped_append hbody,
    plainlyEscaped_cons _ hescape, hrest]
  exact Bool.and_true _

/-- A literal between brackets has the tokens of a quoted key. -/
theorem ofText_bracketed
    {quote : Char}
    {before body after characters : List Char}
    (hquote : quote = '\'' ∨ quote = '"')
    (hbefore : Path.Blank before)
    (hafter : Path.Blank after)
    (hliteral : textLiteral quote 0 (body ++ quote :: after) =
      .ok (characters, body.length + 1)) :
    ∃ lexemes,
      ofText 1 ('[' :: (before ++ quote :: (body ++ quote :: after) ++ [']'])) = .ok lexemes ∧
      lexemes.map token = [.openBracket, .text (String.ofList characters), .closeBracket] := by
  have hopening : ∀ rest, readToken '[' rest = .ok (.openBracket, 0) := fun _ => rfl
  have hkey := readToken_of_textLiteral hquote (textLiteral_append hquote hliteral [']'])
  have hclosing : readToken ']' [] = .ok (.closeBracket, 0) := rfl
  have hstart := isAsciiBlank_of_quote hquote
  have hdrop : (body ++ quote :: after ++ [']']).drop (body.length + 1) = after ++ [']'] := by
    rw [List.append_assoc]
    exact drop_behind body quote (after ++ [']'])
  rw [ofText_token rfl (hopening _), List.drop_zero, List.append_assoc, ofText_blanks _ _ hbefore,
    List.cons_append, ofText_token hstart hkey, hdrop, ofText_blanks _ _ hafter,
    ofText_token rfl hclosing, List.drop_zero, ofText]
  exact ⟨_, rfl, rfl⟩

end Lexeme
end Query

namespace Path

open Query (Chain Selector Token)
open Query.Lexeme

/--
Every literal that a query can read names a child by a path and by a query.
They name the same child exactly if the literal is plainly escaped.
-/
theorem quotedKey_eq_iff
    {literal name : String}
    (h : Token.ofText literal = .ok [.text name, .endOfInput]) :
    ∃ key,
      Step.ofText? ("$[" ++ literal ++ "]") = some [.root, .access (.key key)] ∧
      Query.compile ("$[" ++ literal ++ "]") =
        .ok ⟨⟨[.named name], none⟩, "$[" ++ literal ++ "]"⟩ ∧
      (key = name ↔ plainlyEscaped literal.toList = true) := by
  obtain ⟨before, quote, body, after, characters, hsplit, hbefore, hafter, hquote, hbody, rfl,
    hliteral, hplain⟩ := exists_literal h
  have hcontent : PlainContent (quote :: (body ++ [quote])) _ := .quoted hquote hbody
  have hpath : ("$[" ++ literal ++ "]").toList =
      '$' :: '[' :: (before ++ quote :: (body ++ quote :: after) ++ [']']) := by
    rw [String.toList_append, String.toList_append, hsplit]
    rfl
  refine ⟨String.ofList (Step.unescaped body), ?_, ?_, ?_⟩
  · have hspelled := Spelled.cons (.bracketed hbefore hafter hcontent) .nil
    have htail : Step.Idle [] := Or.inl rfl
    refine Step.ofText?_spelled ?_ hspelled htail
    rw [hpath]
    simp
  · obtain ⟨lexemes, hlex, htokens⟩ := ofText_bracketed hquote hbefore hafter hliteral
    have hreads : Chain.Reads (lexemes.map token ++ [.endOfInput])
        ⟨[.named (String.ofList characters)], none⟩ := by
      rw [htokens]
      exact .bracket rfl (.atEnd rfl)
    have hcompile := compile_of_reads hlex hreads
    rwa [← hpath, String.ofList_toList] at hcompile
  · rw [hsplit, plainlyEscaped_literal hquote hbefore hbody hafter, ← hplain,
      String.ofList_inj]

/-- An escaped quote stands for itself to a path and to a query. -/
theorem quotedKey_eq_iff_apostrophe :
    Token.ofText "'it\\'s'" = .ok [.text "it's", .endOfInput] ∧
      plainlyEscaped "'it\\'s'".toList = true ∧
      Step.ofText? ("$[" ++ "'it\\'s'" ++ "]") = some [.root, .access (.key "it's")] ∧
      Query.compile ("$[" ++ "'it\\'s'" ++ "]") =
        .ok ⟨⟨[.named "it's"], none⟩, "$[" ++ "'it\\'s'" ++ "]"⟩ := by
  have htoken : Token.ofText "'it\\'s'" = .ok [.text "it's", .endOfInput] := by
    decide +kernel
  have hplain : plainlyEscaped "'it\\'s'".toList = true := by
    decide +kernel
  obtain ⟨key, hsteps, hquery, hkey⟩ := quotedKey_eq_iff htoken
  rw [hkey.2 hplain] at hsteps
  exact ⟨htoken, hplain, hsteps, hquery⟩

/-- A letter behind a backslash is that letter to a path, and may be a line break to a query. -/
theorem quotedKey_ne_newline :
    Token.ofText "'\\n'" = .ok [.text "\n", .endOfInput] ∧
      Step.ofText? "$['\\n']" = some [.root, .access (.key "n")] ∧
      Query.compile "$['\\n']" = .ok ⟨⟨[.named "\n"], none⟩, "$['\\n']"⟩ ∧
      "n" ≠ "\n" :=
  ⟨by decide +kernel, by decide +kernel, by decide +kernel, by decide⟩

end Path
end FieldQuery
