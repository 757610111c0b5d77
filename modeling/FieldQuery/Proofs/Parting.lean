import FieldQuery.Proofs.Chains
import FieldQuery.Proofs.Segments

/-!
# Parting a well-spelled path

The tokens of a well-spelled path are read one segment after another, and
each segment is found again in the text behind the ones before it. So the
text falls apart into a spelled run and an ending, along with the chain that
it compiles to.
-/

namespace FieldQuery

namespace Query
namespace Lexeme

/-- The first token of a text, whose tokens are known. -/
theorem exists_first_token
    {position : Nat}
    {body : List Char}
    {lexemes : List Lexeme}
    {first : Token}
    {rest : List Token}
    (hlex : ofText position body = .ok lexemes)
    (htokens : lexemes.map token ++ [.endOfInput] = first :: rest)
    (hfirst : first ≠ .endOfInput) :
    ∃ blanks c after taken lexeme more,
      lexemes = lexeme :: more ∧
      lexeme.token = first ∧
      lexeme.start = position + blanks.length ∧
      lexeme.stop = lexeme.start + 1 + taken ∧
      Path.Blank blanks ∧
      body = blanks ++ c :: after ∧
      readToken c after = .ok (first, taken) ∧
      ofText lexeme.stop (after.drop taken) = .ok more ∧
      more.map token ++ [.endOfInput] = rest := by
  cases lexemes with
  | nil =>
      exact absurd (List.cons.inj htokens).1.symm hfirst
  | cons lexeme more =>
      obtain ⟨htoken, hrest⟩ := List.cons.inj htokens
      obtain ⟨blanks, c, after, taken, hblanks, hbody, -, hread, hstart, hstop, hmore⟩ :=
        ofText_eq_cons hlex
      rw [htoken] at hread
      exact ⟨blanks, c, after, taken, lexeme, more, rfl, htoken, hstart, hstop, hblanks, hbody,
        hread, hmore, hrest⟩

theorem readToken_ne_endOfInput
    {c : Char}
    {rest : List Char}
    {token : Token}
    {taken : Nat}
    (h : readToken c rest = .ok (token, taken)) :
    token ≠ .endOfInput := by
  rintro rfl
  cases reads_of_readToken h with
  | operator htoken _ => simp at htoken
  | punctuation hc => exact absurd (mem_punctuation hc) (by simp [punctuation])
  | word _ hname => cases hname

/-- A text whose tokens are at their end has no lexemes. -/
theorem nil_of_isAtEnd
    {position : Nat}
    {body : List Char}
    {lexemes : List Lexeme}
    (hlex : ofText position body = .ok lexemes)
    (hend : Chain.isAtEnd (lexemes.map token ++ [.endOfInput]) = true) :
    lexemes = [] := by
  cases lexemes with
  | nil =>
      rfl
  | cons lexeme more =>
      obtain ⟨_, c, after, taken, -, -, -, hread, -, -, -⟩ := ofText_eq_cons hlex
      have hne := readToken_ne_endOfInput hread
      unfold Chain.isAtEnd at hend
      split at hend
      · next hnil => simp at hnil
      · next heq => exact absurd (List.cons.inj heq).1 hne
      · cases hend

/-- A text whose tokens are at their end is blank. -/
theorem blank_of_isAtEnd
    {position : Nat}
    {body : List Char}
    {lexemes : List Lexeme}
    (hlex : ofText position body = .ok lexemes)
    (hend : Chain.isAtEnd (lexemes.map token ++ [.endOfInput]) = true) :
    Path.Blank body := by
  rw [nil_of_isAtEnd hlex hend] at hlex
  exact blank_of_ofText_nil hlex

end Lexeme
end Query

namespace Path

open Query (Chain Token Lexeme)
open Query.Lexeme (isCut signText startsWord continuesWord)
open Query.Chain (Reads)

/-- Blanks that are not enclosed are not there. -/
theorem eq_nil_of_blanksEnclosed
    {blanks rest : List Char}
    (hblanks : Blank blanks)
    (h : blanksEnclosed .outside 0 (blanks ++ rest) = true) :
    blanks = [] := by
  cases blanks with
  | nil =>
      rfl
  | cons c blanks =>
      have hc := hblanks c List.mem_cons_self
      have hcovers := (Query.Lexeme.ordinary_of_isAsciiBlank hc).1
      simp [blanksEnclosed, hcovers, hc] at h

theorem eq_nil_of_blank
    {blanks : List Char}
    (hblanks : Blank blanks)
    (h : blanksEnclosed .outside 0 blanks = true) :
    blanks = [] := by
  rw [← List.append_nil blanks] at h
  exact eq_nil_of_blanksEnclosed hblanks h

theorem blanksEnclosed_tail
    {depth : Nat}
    {c : Char}
    {rest : List Char}
    (hcovers : Quoting.outside.covers c = false)
    (h : blanksEnclosed .outside depth (c :: rest) = true) :
    blanksEnclosed .outside (depthAfter depth c) rest = true := by
  rw [blanksEnclosed, hcovers, (Quoting.eq_outside_of_not_covers hcovers).2] at h
  simp only [Bool.false_eq_true, if_false, Bool.and_eq_true] at h
  exact h.2

/-- Behind a stretch without brackets outside quotes, the depth is as before it. -/
theorem blanksEnclosed_of_clear
    {state : Quoting}
    {depth : Nat}
    {front rest : List Char}
    (hclear : clear (fun c => c == '[' || c == ']') state front = true)
    (h : blanksEnclosed state depth (front ++ rest) = true) :
    blanksEnclosed .outside depth rest = true := by
  induction front generalizing state with
  | nil =>
      have hstate : state = .outside := by simpa [clear] using hclear
      simpa [hstate] using h
  | cons c front ih =>
      simp only [clear, Bool.and_eq_true, Bool.or_eq_true] at hclear
      cases hcovers : state.covers c with
      | true =>
          rw [List.cons_append, blanksEnclosed, if_pos hcovers] at h
          exact ih hclear.2 h
      | false =>
          have hplain := hclear.1.resolve_left (by simp [hcovers])
          simp only [Bool.not_eq_true', Bool.or_eq_false_iff, beq_eq_false_iff_ne] at hplain
          have hdepth : depthAfter depth c = depth := by
            unfold depthAfter
            split
            · exact absurd rfl hplain.1
            · exact absurd rfl hplain.2
            · rfl
          obtain ⟨rfl, hnext⟩ := Quoting.eq_outside_of_not_covers hcovers
          have htail := blanksEnclosed_tail hcovers h
          rw [hdepth, ← hnext] at htail
          exact ih hclear.2 htail

theorem blanksEnclosed_of_clear_isCut
    {depth : Nat}
    {front rest : List Char}
    (hclear : clear isCut .outside front = true)
    (h : blanksEnclosed .outside depth (front ++ rest) = true) :
    blanksEnclosed .outside depth rest = true := by
  refine blanksEnclosed_of_clear (clear_mono ?_ hclear) h
  intro c hc
  simp only [Bool.or_eq_true, beq_iff_eq] at hc
  rcases hc with rfl | rfl <;> rfl

/-- Behind a bracket, the depth is as before it. -/
theorem blanksEnclosed_of_bracket
    {depth : Nat}
    {content rest : List Char}
    (hclear : clear isCut .outside content = true)
    (h : blanksEnclosed .outside depth ('[' :: (content ++ ']' :: rest)) = true) :
    blanksEnclosed .outside depth rest = true := by
  have hinner : blanksEnclosed .outside (depth + 1) (content ++ ']' :: rest) = true :=
    blanksEnclosed_tail (by decide) h
  have hclosing := blanksEnclosed_of_clear_isCut hclear hinner
  exact blanksEnclosed_tail (by decide) hclosing

/-- A plainly escaped quoted text has a plainly escaped body. -/
theorem plainlyEscaped_of_quoted
    {quote : Char}
    {body : List Char}
    (hquote : quote = '\'' ∨ quote = '"')
    (hbody : QuotedBody quote body)
    (h : plainlyEscaped (quote :: (body ++ [quote])) = true) :
    plainlyEscaped body = true := by
  rw [Query.Lexeme.plainlyEscaped_cons _ (ne_backslash_of_quote hquote),
    Query.Lexeme.plainlyEscaped_append hbody, Bool.and_eq_true] at h
  exact h.1

/-- A token outside brackets starts at once. -/
theorem exists_next_token
    {position : Nat}
    {body : List Char}
    {lexemes : List Lexeme}
    {first : Token}
    {rest : List Token}
    (hlex : Lexeme.ofText position body = .ok lexemes)
    (htokens : lexemes.map Lexeme.token ++ [.endOfInput] = first :: rest)
    (hfirst : first ≠ .endOfInput)
    (hblanks : blanksEnclosed .outside 0 body = true) :
    ∃ c after taken lexeme more,
      lexemes = lexeme :: more ∧
      lexeme.token = first ∧
      lexeme.stop = position + 1 + taken ∧
      body = c :: after ∧
      Lexeme.readToken c after = .ok (first, taken) ∧
      Lexeme.ofText lexeme.stop (after.drop taken) = .ok more ∧
      more.map Lexeme.token ++ [.endOfInput] = rest := by
  obtain ⟨blanks, c, after, taken, lexeme, more, hlexemes, htoken, hstart, hstop, hblank, rfl,
    hread, hmore, hrest⟩ := Lexeme.exists_first_token hlex htokens hfirst
  obtain rfl := eq_nil_of_blanksEnclosed hblank hblanks
  rw [hstart] at hstop
  exact ⟨c, after, taken, lexeme, more, hlexemes, htoken, hstop, rfl, hread, hmore, hrest⟩

/-- Outside brackets, a text whose tokens are at their end is empty. -/
theorem eq_nil_of_isAtEnd
    {position : Nat}
    {body : List Char}
    {lexemes : List Lexeme}
    (hlex : Lexeme.ofText position body = .ok lexemes)
    (hend : Chain.isAtEnd (lexemes.map Lexeme.token ++ [.endOfInput]) = true)
    (hblanks : blanksEnclosed .outside 0 body = true) :
    body = [] :=
  eq_nil_of_blank (Lexeme.blank_of_isAtEnd hlex hend) hblanks

/-- A member name outside brackets: the longest run of word characters. -/
theorem exists_next_name
    {position : Nat}
    {body : List Char}
    {lexemes : List Lexeme}
    {first : Token}
    {rest : List Token}
    {name : String}
    (hlex : Lexeme.ofText position body = .ok lexemes)
    (htokens : lexemes.map Lexeme.token ++ [.endOfInput] = first :: rest)
    (hname : first.memberName? = some name)
    (hblanks : blanksEnclosed .outside 0 body = true) :
    ∃ c more after lexeme others,
      lexemes = lexeme :: others ∧
      lexeme.token = first ∧
      lexeme.stop = position + (c :: more).length ∧
      body = c :: more ++ after ∧
      startsWord c = true ∧
      (∀ d ∈ more, continuesWord d = true) ∧
      name = String.ofList (c :: more) ∧
      Lexeme.ofText lexeme.stop after = .ok others ∧
      others.map Lexeme.token ++ [.endOfInput] = rest ∧
      blanksEnclosed .outside 0 after = true := by
  have hfirst : first ≠ .endOfInput := by
    rintro rfl
    cases hname
  obtain ⟨c, after, taken, lexeme, others, hlexemes, htoken, hstop, rfl, hread, hothers, hrest⟩ :=
    exists_next_token hlex htokens hfirst hblanks
  obtain ⟨hstart, hspelled, htaken⟩ := Lexeme.readToken_memberName hname hread
  have hmore : ∀ d ∈ after.takeWhile continuesWord, continuesWord d = true :=
    List.all_eq_true.1 List.all_takeWhile
  have hsplit : c :: after =
      (c :: after.takeWhile continuesWord) ++ after.dropWhile continuesWord := by
    rw [List.cons_append, List.takeWhile_append_dropWhile]
  have hclear : clear isCut .outside (c :: after.takeWhile continuesWord) = true :=
    Lexeme.clear_of_ordinary fun _ => Lexeme.ordinary_of_mem_word hstart hmore
  rw [htaken, Lexeme.drop_length_takeWhile] at hothers
  rw [hsplit] at hblanks
  refine ⟨c, after.takeWhile continuesWord, after.dropWhile continuesWord, lexeme, others,
    hlexemes, htoken, ?_, hsplit, hstart, hmore, hspelled, hothers, hrest,
    blanksEnclosed_of_clear_isCut hclear hblanks⟩
  rw [hstop, htaken, List.length_cons]
  omega

/-- What can be read behind a root sign is a query. -/
theorem compile_of_reads
    {position : Nat}
    {body : List Char}
    {lexemes : List Lexeme}
    {chain : Chain}
    (hlex : Lexeme.ofText position body = .ok lexemes)
    (hreads : Reads (lexemes.map Lexeme.token ++ [.endOfInput]) chain) :
    Query.compile (String.ofList ('$' :: body)) =
      .ok ⟨chain, String.ofList ('$' :: body)⟩ := by
  obtain ⟨moved, hmoved, htokens⟩ := Lexeme.ofText_tokens 1 hlex
  have hroot : Lexeme.readToken '$' body = .ok (.root, 0) := rfl
  have hfirst := @Lexeme.ofText_token 0 _ _ _ _ (by decide) hroot
  rw [List.drop_zero, hmoved] at hfirst
  have htext : Token.ofText (String.ofList ('$' :: body)) =
      .ok (.root :: (lexemes.map Lexeme.token ++ [.endOfInput])) := by
    rw [Token.ofText, String.toList_ofList, hfirst, ← htokens]
    rfl
  have hchain : Query.ofTokens (.root :: (lexemes.map Lexeme.token ++ [.endOfInput])) =
      .ok chain := by
    rw [Query.ofTokens, Chain.read_of_reads hreads]
  simp only [Query.compile, String.toList_ofList, Query.badStart?, htext, hchain]

/--
The text behind the root sign: a run of segments that name one child each,
and an ending that is a query of its own behind another root sign.
-/
def TakenApart
    (body : List Char)
    (chain : Chain) : Prop :=
  ∃ spelled ending accessors rest,
    body = spelled ++ ending ∧
    Spelled spelled accessors ∧
    chain = rest.prepend accessors ∧
    Ending ending rest ∧
    Query.compile (String.ofList ('$' :: ending)) = .ok ⟨rest, String.ofList ('$' :: ending)⟩

theorem TakenApart.cons
    {segment body : List Char}
    {accessor : Accessor}
    {chain : Chain}
    (hsegment : PlainSegment segment accessor)
    (h : TakenApart body chain) :
    TakenApart (segment ++ body) (chain.cons (.choose (.access accessor))) := by
  obtain ⟨spelled, ending, accessors, rest, rfl, hspelled, rfl, hending, hcompile⟩ := h
  exact ⟨segment ++ spelled, ending, accessor :: accessors, rest, by rw [List.append_assoc],
    .cons hsegment hspelled, rfl, hending, hcompile⟩

theorem TakenApart.ending
    {position : Nat}
    {body : List Char}
    {lexemes : List Lexeme}
    {chain : Chain}
    (h : Ending body chain)
    (hlex : Lexeme.ofText position body = .ok lexemes)
    (hreads : Reads (lexemes.map Lexeme.token ++ [.endOfInput]) chain) :
    TakenApart body chain :=
  ⟨[], body, [], chain, rfl, .nil, rfl, h, compile_of_reads hlex hreads⟩

theorem leadingKeys_dotted
    {dot name : Lexeme}
    {more : List Lexeme}
    (hdot : dot.token = .dot)
    (hname : name.token.memberName?.isSome = true) :
    leadingKeys (dot :: name :: more) = leadingKeys more := by
  simp [leadingKeys, hdot, hname]

theorem leadingKeys_quoted
    {opening key closing : Lexeme}
    {more : List Lexeme}
    {value : String}
    (hopening : opening.token = .openBracket)
    (hkey : key.token = .text value)
    (hclosing : closing.token = .closeBracket) :
    leadingKeys (opening :: key :: closing :: more) = key :: leadingKeys more := by
  simp [leadingKeys, hopening, hkey, hclosing]

theorem leadingKeys_indexed
    {opening index closing : Lexeme}
    {more : List Lexeme}
    {value : Int}
    (hopening : opening.token = .openBracket)
    (hindex : index.token = .integer value)
    (hclosing : closing.token = .closeBracket) :
    leadingKeys (opening :: index :: closing :: more) = leadingKeys more := by
  simp [leadingKeys, hopening, hindex, hclosing]

/--
Reading of a well-spelled text has come to a position outside brackets, from
where the body with the given lexemes and tokens is still to be read.
-/
structure Reached
    (text : List Char)
    (position : Nat)
    (body : List Char)
    (lexemes : List Lexeme)
    (tokens : List Token) : Prop where
  drop : text.drop position = body
  lex : Lexeme.ofText position body = .ok lexemes
  tokens : lexemes.map Lexeme.token ++ [.endOfInput] = tokens
  blanks : blanksEnclosed .outside 0 body = true
  keys : ∀ key ∈ leadingKeys lexemes,
    plainlyEscaped (Division.between text key.start key.stop) = true

/-- A closing bracket, from where reading is outside brackets again. -/
theorem exists_closing
    {position : Nat}
    {body : List Char}
    {lexemes : List Lexeme}
    {rest : List Token}
    (hlex : Lexeme.ofText position body = .ok lexemes)
    (htokens : lexemes.map Lexeme.token ++ [.endOfInput] = .closeBracket :: rest) :
    ∃ blanks after lexeme more,
      lexemes = lexeme :: more ∧
      lexeme.token = .closeBracket ∧
      lexeme.stop = position + blanks.length + 1 ∧
      Blank blanks ∧
      body = blanks ++ ']' :: after ∧
      Lexeme.ofText lexeme.stop after = .ok more ∧
      more.map Lexeme.token ++ [.endOfInput] = rest := by
  obtain ⟨blanks, c, after, taken, lexeme, more, hlexemes, htoken, hstart, hstop, hblank, hbody,
    hread, hmore, hrest⟩ := Lexeme.exists_first_token hlex htokens (by simp)
  obtain ⟨rfl, rfl⟩ := Lexeme.readToken_punctuation (d := ']') rfl hread
  rw [List.drop_zero] at hmore
  rw [hstart] at hstop
  exact ⟨blanks, after, lexeme, more, hlexemes, htoken, hstop, hblank, hbody, hmore, hrest⟩

/-- A bracket with one quoted key, behind blanks. -/
theorem exists_quoted_bracket
    {position : Nat}
    {body : List Char}
    {lexemes : List Lexeme}
    {name : String}
    {rest : List Token}
    (hlex : Lexeme.ofText position body = .ok lexemes)
    (htokens : lexemes.map Lexeme.token ++ [.endOfInput] =
      .openBracket :: .text name :: .closeBracket :: rest) :
    ∃ blanks before quote content after behind opening key closing more,
      lexemes = opening :: key :: closing :: more ∧
      opening.token = .openBracket ∧
      key.token = .text name ∧
      closing.token = .closeBracket ∧
      key.start = position + blanks.length + 1 + before.length ∧
      key.stop = key.start + content.length + 2 ∧
      closing.stop = key.stop + after.length + 1 ∧
      Blank blanks ∧
      Blank before ∧
      Blank after ∧
      (quote = '\'' ∨ quote = '"') ∧
      QuotedBody quote content ∧
      (plainlyEscaped content = true → String.ofList (Step.unescaped content) = name) ∧
      body = blanks ++ '[' :: (before ++ (quote :: (content ++ [quote])) ++ after ++ [']']) ++
        behind ∧
      Lexeme.ofText closing.stop behind = .ok more ∧
      more.map Lexeme.token ++ [.endOfInput] = rest := by
  obtain ⟨blanks, c, inner, taken, opening, others, rfl, hopening, hstart, hstop, hblanks, rfl,
    hread, hothers, htokens⟩ := Lexeme.exists_first_token hlex htokens (by simp)
  obtain ⟨rfl, rfl⟩ := Lexeme.readToken_punctuation (d := '[') rfl hread
  rw [List.drop_zero] at hothers
  obtain ⟨before, quote, inner, taken, key, others, rfl, hkey, hkeyStart, hkeyStop, hbefore, rfl,
    hread, hothers, htokens⟩ := Lexeme.exists_first_token hothers htokens (by simp)
  obtain ⟨content, tail, hquote, rfl, rfl, hcontent, hvalue⟩ := Lexeme.readToken_text hread
  rw [Lexeme.drop_behind] at hothers
  obtain ⟨after, behind, closing, more, rfl, hclosing, hclosed, hafter, rfl, hmore, hrest⟩ :=
    exists_closing hothers htokens
  exact ⟨blanks, before, quote, content, after, behind, opening, key, closing, more, rfl, hopening,
    hkey, hclosing, by omega, by omega, by omega, hblanks, hbefore, hafter, hquote, hcontent,
    hvalue, by simp, hmore, hrest⟩

/-- The characters of the key in a bracket, its quotes included. -/
theorem between_quoted_key
    {text blanks before content after behind : List Char}
    {quote : Char}
    {position start stop : Nat}
    (hdrop : text.drop position =
      blanks ++ '[' :: (before ++ (quote :: (content ++ [quote])) ++ after ++ [']']) ++ behind)
    (hstart : start = position + blanks.length + 1 + before.length)
    (hstop : stop = start + content.length + 2) :
    Division.between text start stop = quote :: (content ++ [quote]) := by
  have hkey : text.drop start = (quote :: (content ++ [quote])) ++ (after ++ ']' :: behind) := by
    refine @drop_add_of_drop text (blanks ++ '[' :: before) _ position _ (by rw [hdrop]; simp) ?_
    rw [hstart, List.length_append, List.length_cons]
    omega
  exact between_of_drop hkey (by simp; omega)

/-- A bracket with one index, behind blanks. -/
theorem exists_indexed_bracket
    {position : Nat}
    {body : List Char}
    {lexemes : List Lexeme}
    {index : Int}
    {rest : List Token}
    (hlex : Lexeme.ofText position body = .ok lexemes)
    (htokens : lexemes.map Lexeme.token ++ [.endOfInput] =
      .openBracket :: .integer index :: .closeBracket :: rest) :
    ∃ blanks before negative digits after behind opening inner closing more,
      lexemes = opening :: inner :: closing :: more ∧
      opening.token = .openBracket ∧
      inner.token = .integer index ∧
      closing.token = .closeBracket ∧
      closing.stop = position + (blanks ++ '[' ::
        (before ++ (signText negative ++ digits) ++ after ++ [']'])).length ∧
      Blank blanks ∧
      Blank before ∧
      Blank after ∧
      (∀ d ∈ digits, d.isDigit = true) ∧
      Integer64.ofSignedDigits? negative digits = some index ∧
      body = blanks ++ '[' :: (before ++ (signText negative ++ digits) ++ after ++ [']']) ++
        behind ∧
      Lexeme.ofText closing.stop behind = .ok more ∧
      more.map Lexeme.token ++ [.endOfInput] = rest := by
  obtain ⟨blanks, c, tail, taken, opening, others, rfl, hopening, hstart, hstop, hblanks, rfl,
    hread, hothers, htokens⟩ := Lexeme.exists_first_token hlex htokens (by simp)
  obtain ⟨rfl, rfl⟩ := Lexeme.readToken_punctuation (d := '[') rfl hread
  rw [List.drop_zero] at hothers
  obtain ⟨before, first, tail, taken, inner, others, rfl, hinner, hinnerStart, hinnerStop, hbefore,
    rfl, hread, hothers, htokens⟩ := Lexeme.exists_first_token hothers htokens (by simp)
  obtain ⟨negative, digits, hcontent, hlength, hdigits, hvalue⟩ := Lexeme.readToken_integer hread
  obtain ⟨after, behind, closing, more, rfl, hclosing, hclosed, hafter, hbehind, hmore, hrest⟩ :=
    exists_closing hothers htokens
  rw [hbehind] at hcontent
  refine ⟨blanks, before, negative, digits, after, behind, opening, inner, closing, more, rfl,
    hopening, hinner, hclosing, ?_, hblanks, hbefore, hafter, hdigits, hvalue, ?_, hmore, hrest⟩
  · simp only [List.length_cons, List.length_append, List.length_nil] at hlength ⊢
    omega
  · rw [hcontent]
    simp

/-- A segment that names one child has been read. -/
def Passed
    (text body : List Char)
    (accessor : Accessor)
    (rest : List Token) : Prop :=
  ∃ segment after stop more,
    body = segment ++ after ∧
    PlainSegment segment accessor ∧
    Reached text stop after more rest

namespace Reached

variable {text body : List Char}
variable {position : Nat}
variable {lexemes : List Lexeme}
variable {rest : List Token}

/-- A dot with a member name is a segment. -/
theorem passed_dotted
    {token : Token}
    {name : String}
    (h : Reached text position body lexemes (.dot :: token :: rest))
    (hname : token.memberName? = some name) :
    Passed text body (.key name) rest := by
  obtain ⟨c, after, taken, dot, others, rfl, hdot, hstop, rfl, hread, hothers, htokens⟩ :=
    exists_next_token h.lex h.tokens (by simp) h.blanks
  obtain ⟨rfl, rfl, -⟩ := Lexeme.readToken_dot hread
  rw [List.drop_zero] at hothers
  have hblanks := blanksEnclosed_tail (by decide) h.blanks
  obtain ⟨c, more, behind, lexeme, last, rfl, htoken, hnext, rfl, hstart, hmore, rfl, hlast,
    hrest, hbehind⟩ := exists_next_name hothers htokens hname hblanks
  refine ⟨'.' :: c :: more, behind, lexeme.stop, last, rfl, .dotted hstart hmore, ?_⟩
  have hsome : lexeme.token.memberName?.isSome = true := by
    rw [htoken, hname]
    rfl
  refine ⟨@drop_add_of_drop text ('.' :: c :: more) _ _ _ h.drop ?_, hlast, hrest, hbehind, ?_⟩
  · rw [hnext, hstop]
    simp only [List.length_cons]
    omega
  · intro key hkey
    exact h.keys key (by rwa [leadingKeys_dotted hdot hsome])

/-- A bracket with one quoted key is a segment. -/
theorem passed_quoted
    {name : String}
    (h : Reached text position body lexemes
      (.openBracket :: .text name :: .closeBracket :: rest)) :
    Passed text body (.key name) rest := by
  obtain ⟨blanks, before, quote, content, after, behind, opening, key, closing, more, rfl, hopening,
    hkey, hclosing, hstart, hstop, hclosed, hblank, hbefore, hafter, hquote, hcontent, hvalue, rfl,
    hmore, hrest⟩ := exists_quoted_bracket h.lex h.tokens
  have henclosed := h.blanks
  rw [List.append_assoc] at henclosed
  obtain rfl := eq_nil_of_blanksEnclosed hblank henclosed
  have hkeys := h.keys
  rw [leadingKeys_quoted hopening hkey hclosing] at hkeys
  have hname : String.ofList (Step.unescaped content) = name := by
    have hbetween := between_quoted_key h.drop hstart hstop
    have hplain := hkeys key List.mem_cons_self
    rw [hbetween] at hplain
    exact hvalue (plainlyEscaped_of_quoted hquote hcontent hplain)
  refine ⟨_, behind, closing.stop, more, rfl, ?_, ?_, hmore, hrest, ?_, ?_⟩
  · rw [← hname]
    exact .bracketed hbefore hafter (.quoted hquote hcontent)
  · refine drop_add_of_drop h.drop ?_
    simp only [List.length_cons, List.length_append, List.length_nil] at hstart ⊢
    omega
  · refine blanksEnclosed_of_bracket (clear_padded hbefore hafter (.quoted hquote hcontent)) ?_
    simpa using henclosed
  · intro key hkey
    exact hkeys key (List.mem_cons_of_mem _ hkey)

/-- A bracket with one index is a segment. -/
theorem passed_indexed
    {index : Int}
    (h : Reached text position body lexemes
      (.openBracket :: .integer index :: .closeBracket :: rest)) :
    Passed text body (.index index) rest := by
  obtain ⟨blanks, before, negative, digits, after, behind, opening, inner, closing, more, rfl,
    hopening, hinner, hclosing, hclosed, hblank, hbefore, hafter, hdigits, hvalue, rfl, hmore,
    hrest⟩ := exists_indexed_bracket h.lex h.tokens
  have henclosed := h.blanks
  rw [List.append_assoc] at henclosed
  obtain rfl := eq_nil_of_blanksEnclosed hblank henclosed
  have hkeys := h.keys
  rw [leadingKeys_indexed hopening hinner hclosing] at hkeys
  refine ⟨_, behind, closing.stop, more, rfl,
    .bracketed hbefore hafter (.indexed hdigits hvalue), ?_, hmore, hrest, ?_, hkeys⟩
  · exact drop_add_of_drop h.drop hclosed
  · refine blanksEnclosed_of_bracket (clear_padded hbefore hafter (.indexed hdigits hvalue)) ?_
    simpa using henclosed

end Reached

/-- A star after a dot is final, or an advanced part starts with it. -/
theorem ending_of_star
    {text body : List Char}
    {position : Nat}
    {lexemes : List Lexeme}
    {rest : List Token}
    {chain : Chain}
    (h : Reached text position body lexemes (.dot :: .star :: rest))
    (hreads : Reads rest chain) :
    Ending body (chain.cons (.choose .every)) := by
  obtain ⟨c, after, taken, dot, others, rfl, -, -, rfl, hread, hothers, htokens⟩ :=
    exists_next_token h.lex h.tokens (by simp) h.blanks
  obtain ⟨rfl, rfl, -⟩ := Lexeme.readToken_dot hread
  rw [List.drop_zero] at hothers
  have hblanks := blanksEnclosed_tail (by decide) h.blanks
  obtain ⟨c, after, taken, star, others, rfl, -, -, rfl, hread, hothers, htokens⟩ :=
    exists_next_token hothers htokens (by simp) hblanks
  obtain ⟨rfl, rfl⟩ := Lexeme.readToken_punctuation (d := '*') rfl hread
  rw [List.drop_zero] at hothers
  replace hblanks := blanksEnclosed_tail (by decide) hblanks
  rcases Chain.first_of_reads hreads with ⟨hend, rfl⟩ | ⟨first, more, rfl, hfirst, hne⟩
  · rw [← htokens] at hend
    obtain rfl := eq_nil_of_isAtEnd hothers hend hblanks
    exact .star
  · -- a segment that follows shows by its first character
    obtain ⟨c, after, taken, -, -, -, -, -, rfl, hread, -, -⟩ :=
      exists_next_token hothers htokens (by rcases hfirst with rfl | rfl | rfl <;> simp) hblanks
    have hc : c = '.' ∨ c = '[' := by
      rcases hfirst with rfl | rfl | rfl
      · exact Or.inl (Lexeme.readToken_dot hread).1
      · exact Or.inl (Lexeme.readToken_descent hread).1
      · exact Or.inr (Lexeme.readToken_punctuation (d := '[') rfl hread).1
    refine .advanced (.star hc) rfl (by simp [Chain.cons]) ?_
    intro hchain
    simp only [Chain.cons, Chain.mk.injEq, List.cons.injEq, true_and] at hchain
    exact absurd (Chain.mk.injEq .. ▸ hchain) hne

/-- A call of `length()` is an advanced part of its own. -/
theorem ending_of_length
    {text body : List Char}
    {position : Nat}
    {lexemes : List Lexeme}
    {rest : List Token}
    (h : Reached text position body lexemes
      (.dot :: .name "length" :: .openParen :: .closeParen :: rest))
    (hend : Chain.isAtEnd rest = true) :
    Ending body ⟨[], some .length⟩ := by
  obtain ⟨c, after, taken, dot, others, rfl, -, -, rfl, hread, hothers, htokens⟩ :=
    exists_next_token h.lex h.tokens (by simp) h.blanks
  obtain ⟨rfl, rfl, -⟩ := Lexeme.readToken_dot hread
  rw [List.drop_zero] at hothers
  have hblanks := blanksEnclosed_tail (by decide) h.blanks
  obtain ⟨c, more, after, lexeme, others, rfl, -, -, rfl, -, -, hname, hothers, htokens, hblanks⟩ :=
    exists_next_name hothers htokens rfl hblanks
  obtain ⟨c', after, taken, lexeme, others, rfl, -, -, rfl, hread, hothers, htokens⟩ :=
    exists_next_token hothers htokens (by simp) hblanks
  obtain ⟨rfl, rfl⟩ := Lexeme.readToken_punctuation (d := '(') rfl hread
  rw [List.drop_zero] at hothers
  replace hblanks := blanksEnclosed_tail (by decide) hblanks
  obtain ⟨c', after, taken, lexeme, others, rfl, -, -, rfl, hread, hothers, htokens⟩ :=
    exists_next_token hothers htokens (by simp) hblanks
  obtain ⟨rfl, rfl⟩ := Lexeme.readToken_punctuation (d := ')') rfl hread
  rw [List.drop_zero] at hothers
  replace hblanks := blanksEnclosed_tail (by decide) hblanks
  rw [← htokens] at hend
  obtain rfl := eq_nil_of_isAtEnd hothers hend hblanks
  have hspelled : c :: more = "length".toList := by
    rw [hname, String.toList_ofList]
  have hbody : '.' :: (c :: more ++ ['(', ')']) = ".length()".toList := by
    rw [hspelled]
    rfl
  have hstart := @AdvancedStart.length []
  rw [List.append_nil] at hstart
  rw [hbody]
  exact .advanced hstart rfl (by simp) (by simp)

/-- A double dot starts an advanced part. -/
theorem ending_of_descent
    {text body : List Char}
    {position : Nat}
    {lexemes : List Lexeme}
    {rest : List Token}
    {chain : Chain}
    (h : Reached text position body lexemes (.descent :: rest)) :
    Ending body (chain.cons .descent) := by
  obtain ⟨c, after, taken, -, -, -, -, -, rfl, hread, -, -⟩ :=
    exists_next_token h.lex h.tokens (by simp) h.blanks
  obtain ⟨rfl, -, more, rfl⟩ := Lexeme.readToken_descent hread
  exact .advanced .descent rfl (by simp [Chain.cons]) (by simp [Chain.cons])

/-- A bracket whose tokens are marked starts an advanced part behind blanks. -/
theorem exists_advancedStart_of_marked
    {position : Nat}
    {body : List Char}
    {lexemes : List Lexeme}
    {rest : List Token}
    (hlex : Lexeme.ofText position body = .ok lexemes)
    (htokens : lexemes.map Lexeme.token ++ [.endOfInput] = .openBracket :: rest)
    (hmarked : Query.Selector.Marked rest) :
    ∃ blanks ending,
      body = blanks ++ ending ∧
      Blank blanks ∧
      AdvancedStart ending := by
  obtain ⟨blanks, c, after, taken, opening, others, rfl, -, -, -, hblanks, rfl, hread, hothers,
    htokens⟩ := Lexeme.exists_first_token hlex htokens (by simp)
  obtain ⟨rfl, rfl⟩ := Lexeme.readToken_punctuation (d := '[') rfl hread
  rw [List.drop_zero] at hothers
  rw [← htokens] at hmarked
  obtain ⟨content, behind, rfl, hclear, hunplain⟩ :=
    Lexeme.exists_unplain_content hothers hmarked
  exact ⟨blanks, _, rfl, hblanks, .bracket hclear hunplain⟩

theorem advancedStart_of_marked
    {text body : List Char}
    {position : Nat}
    {lexemes : List Lexeme}
    {rest : List Token}
    (h : Reached text position body lexemes (.openBracket :: rest))
    (hmarked : Query.Selector.Marked rest) :
    AdvancedStart body := by
  obtain ⟨blanks, ending, rfl, hblanks, hstart⟩ :=
    exists_advancedStart_of_marked h.lex h.tokens hmarked
  obtain rfl := eq_nil_of_blanksEnclosed hblanks h.blanks
  exact hstart

/-- A path that ends with a star in a bracket does not end with a star after a dot. -/
theorem not_suffix_of_bracketed_star
    {text body : List Char}
    {position : Nat}
    {lexemes : List Lexeme}
    {rest : List Token}
    (h : Reached text position body lexemes (.openBracket :: .star :: .closeBracket :: rest))
    (hend : Chain.isAtEnd rest = true) :
    ¬ ['.', '*'] <:+ body := by
  obtain ⟨c, after, taken, opening, others, rfl, -, -, rfl, -, hothers, htokens⟩ :=
    exists_next_token h.lex h.tokens (by simp) h.blanks
  obtain ⟨_, c', after', taken', star, others, rfl, -, -, -, -, hafter, -, hothers, htokens⟩ :=
    Lexeme.exists_first_token hothers htokens (by simp)
  obtain ⟨blanks, behind, closing, others, rfl, -, -, -, hbehind, hothers, htokens⟩ :=
    exists_closing hothers htokens
  rw [← htokens] at hend
  have hblank := Lexeme.blank_of_isAtEnd hothers hend
  -- the last character of the text is the closing bracket or a blank after it
  have hsuffix : ']' :: behind <:+ c :: after := by
    have hinner : ']' :: behind <:+ after' := by
      refine List.IsSuffix.trans ?_ (List.drop_suffix taken' after')
      rw [hbehind]
      exact List.suffix_append blanks _
    have houter : c' :: after' <:+ after := by
      refine List.IsSuffix.trans ?_ (List.drop_suffix taken after)
      rw [hafter]
      exact List.suffix_append _ _
    exact hinner.trans ((List.suffix_cons c' after').trans (houter.trans (List.suffix_cons c after)))
  obtain ⟨front, hfront⟩ := hsuffix
  rintro ⟨before, hbefore⟩
  have hlast : (']' :: behind).getLast? = some '*' := by
    have heq := congrArg List.getLast? (hbefore.trans hfront.symm)
    rw [List.getLast?_append, List.getLast?_append] at heq
    simpa [List.getLast?_cons] using heq.symm
  rcases List.mem_cons.1 (List.mem_of_getLast? hlast) with hclosing | hmem
  · exact absurd hclosing (by decide)
  · exact absurd (hblank _ hmem) (by decide)

/-- A bracket that does not name one child starts an advanced part. -/
theorem ending_of_bracket
    {text body : List Char}
    {position taken : Nat}
    {lexemes : List Lexeme}
    {rest : List Token}
    {selector : Query.Selector}
    {chain : Chain}
    (h : Reached text position body lexemes (.openBracket :: rest))
    (hselector : Query.Selector.bracket rest = ⟨.ok selector, taken⟩)
    (hreads : Reads (rest.drop taken) chain)
    (hplural : selector.isSingular = false) :
    Ending body (chain.cons selector) := by
  rcases Query.Selector.bracket_outcome (by rw [hselector]) with
    ⟨_, _, -, rfl⟩ | ⟨_, _, -, rfl⟩ | ⟨more, rfl, rfl⟩ | ⟨hplural, hmarked⟩
  · cases hplural
  · cases hplural
  · have htaken : taken = 2 := (congrArg Query.Reading.taken hselector).symm
    refine .advanced (advancedStart_of_marked h (Query.Selector.marked_star more)) rfl
      (by simp [Chain.cons]) ?_
    intro hchain
    rw [htaken] at hreads
    rcases Chain.first_of_reads hreads with ⟨hend, -⟩ | ⟨_, _, -, -, hne⟩
    · exact not_suffix_of_bracketed_star h hend
    · simp only [Chain.cons, Chain.mk.injEq, List.cons.injEq, true_and] at hchain
      exact absurd (Chain.mk.injEq .. ▸ hchain) hne
  · have hrun : Query.leadingAccessors (chain.cons selector).selectors = [] := by
      unfold Query.leadingAccessors
      split
      · next accessor rest heq =>
          exact absurd (List.cons.inj heq).1 (hplural.1 _)
      · rfl
    refine .advanced (advancedStart_of_marked h hmarked) hrun (by simp [Chain.cons]) ?_
    intro hchain
    simp only [Chain.cons, Chain.mk.injEq, List.cons.injEq] at hchain
    exact absurd hchain.1.1 (hplural.1 _)

/-- A well-spelled text that can be read can be taken apart. -/
theorem takenApart_of_reads
    {text body : List Char}
    {position : Nat}
    {lexemes : List Lexeme}
    {tokens : List Token}
    {chain : Chain}
    (hreads : Reads tokens chain)
    (h : Reached text position body lexemes tokens) :
    TakenApart body chain := by
  have ending {tokens : List Token} {chain : Chain} {body : List Char} {position : Nat}
      {lexemes : List Lexeme} (hreads : Reads tokens chain)
      (h : Reached text position body lexemes tokens) (hending : Ending body chain) :
      TakenApart body chain :=
    .ending hending h.lex (by rw [h.tokens]; exact hreads)
  induction hreads generalizing position body lexemes with
  | atEnd hend =>
      refine ending (.atEnd hend) h ?_
      rw [← h.tokens] at hend
      rw [eq_nil_of_isAtEnd h.lex hend h.blanks]
      exact .nothing
  | length hend =>
      exact ending (.length hend) h (ending_of_length h hend)
  | star hrest ih =>
      exact ending (.star hrest) h (ending_of_star h hrest)
  | member hname hrest ih =>
      obtain ⟨segment, after, stop, more, rfl, hsegment, hreached⟩ := h.passed_dotted hname
      exact (ih hreached).cons hsegment
  | descent htarget hrest ih =>
      exact ending (.descent htarget hrest) h (ending_of_descent h)
  | @bracket rest selector taken chain hselector hrest ih =>
      rcases Query.Selector.bracket_outcome (by rw [hselector]) with
        ⟨name, more, rfl, rfl⟩ | ⟨index, more, rfl, rfl⟩ | hother
      · have htaken : taken = 2 := (congrArg Query.Reading.taken hselector).symm
        obtain ⟨segment, after, stop, others, rfl, hsegment, hreached⟩ := h.passed_quoted
        rw [htaken] at ih
        exact (ih hreached).cons hsegment
      · have htaken : taken = 2 := (congrArg Query.Reading.taken hselector).symm
        obtain ⟨segment, after, stop, others, rfl, hsegment, hreached⟩ := h.passed_indexed
        rw [htaken] at ih
        exact (ih hreached).cons hsegment
      · refine ending (.bracket hselector hrest) h (ending_of_bracket h hselector hrest ?_)
        rcases hother with ⟨_, -, rfl⟩ | ⟨hplural, -⟩
        · rfl
        · unfold Query.Selector.isSingular
          split
          · next accessor => exact absurd rfl (hplural.1 (.access accessor))
          · rfl

/-- A text that compiles is a root sign and segments that can be read. -/
theorem reads_of_compile
    {path : String}
    {query : Query}
    (h : Query.compile path = .ok query) :
    ∃ body more,
      path.toList = '$' :: body ∧
      query.source = path ∧
      Lexeme.ofText 0 path.toList = .ok (⟨.root, 0, 1⟩ :: more) ∧
      Lexeme.ofText 1 body = .ok more ∧
      Reads (more.map Lexeme.token ++ [.endOfInput]) query.chain := by
  unfold Query.compile at h
  split at h
  · cases h
  · next hstart =>
      obtain ⟨body, hbody⟩ : ∃ body, path.toList = '$' :: body := by
        unfold Query.badStart? at hstart
        split at hstart
        · cases hstart
        · next body hbody => exact ⟨body, hbody⟩
        · cases hstart
        · cases hstart
      have hroot : Lexeme.readToken '$' body = .ok (.root, 0) := rfl
      have hfirst := @Lexeme.ofText_token 0 _ _ _ _ (by decide) hroot
      rw [List.drop_zero, ← hbody] at hfirst
      rw [Token.ofText, hfirst] at h
      cases hmore : Lexeme.ofText (0 + 1 + 0) body with
      | error failure =>
          rw [hmore] at h
          cases h
      | ok more =>
          rw [hmore] at h hfirst
          simp only [Except.map, List.map_cons, List.cons_append, Query.ofTokens] at h
          split at h
          · cases h
          · next chain hchain =>
              rw [← Except.ok.inj h]
              exact ⟨body, more, hbody, rfl, hfirst, hmore, Chain.reads_of_read hchain⟩

/-- A well-spelled path behind its root sign. -/
theorem WellSpelled.takenApart
    {path : String}
    {query : Query}
    (h : WellSpelled path query) :
    ∃ body,
      path.toList = '$' :: body ∧
      query.source = path ∧
      TakenApart body query.chain := by
  obtain ⟨body, more, hbody, hsource, hlexemes, hmore, hreads⟩ := reads_of_compile h.compiles
  have hblanks := h.blanks
  have hkeys := h.escapes
  rw [hbody] at hblanks
  rw [keysPlainlyEscaped, hlexemes] at hkeys
  have hreached : Reached path.toList 1 body more (more.map Lexeme.token ++ [.endOfInput]) :=
    { drop := by rw [hbody]; rfl
      lex := hmore
      tokens := rfl
      blanks := blanksEnclosed_tail (by decide) hblanks
      keys := List.all_eq_true.1 hkeys }
  exact ⟨body, hbody, hsource, takenApart_of_reads hreads hreached⟩

end Path
end FieldQuery
