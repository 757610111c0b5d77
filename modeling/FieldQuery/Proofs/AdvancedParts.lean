import FieldQuery.Proofs.Division
import FieldQuery.Proofs.Parting

/-!
# Advanced parts of any path

However a path is spelled, its advanced part is a query of its own. Blanks may
stand between all tokens, and a key may be escaped in any way: what the two
searches of a division overlook still ends where a segment of the path ends.
So the advanced part, behind a root sign, is read to the segments that are left
of the path, and to nothing else.
-/

namespace FieldQuery

namespace Query
namespace Lexeme

/-- Blanks in front of a text are passed over. -/
theorem ofText_blanks
    (position : Nat)
    {blanks : List Char}
    (rest : List Char)
    (hblanks : Path.Blank blanks) :
    ofText position (blanks ++ rest) = ofText (position + blanks.length) rest := by
  induction blanks generalizing position with
  | nil =>
      rfl
  | cons c blanks ih =>
      have hc := hblanks c List.mem_cons_self
      have htail := ih (position + 1) fun d hd => hblanks d (List.mem_cons_of_mem _ hd)
      rw [List.cons_append, ofText, if_pos hc, htail, List.length_cons]
      congr 1
      omega

/-- Whether a token follows a dot: a star, a member name, or a sign of a call. -/
def FollowsDot
    (token : Token) : Prop :=
  token = .star ∨ token = .openParen ∨ token = .closeParen ∨ token.memberName?.isSome = true

/-- A token that follows a dot is read from ordinary characters. -/
theorem ordinary_of_followsDot
    {c : Char}
    {rest : List Char}
    {token : Token}
    {taken : Nat}
    (htoken : FollowsDot token)
    (h : readToken c rest = .ok (token, taken)) :
    ∀ d ∈ c :: rest.take taken, Ordinary d := by
  have alone {sign : Char} (hsign : Ordinary sign) (hread : c = sign ∧ taken = 0) :
      ∀ d ∈ c :: rest.take taken, Ordinary d := by
    obtain ⟨rfl, rfl⟩ := hread
    intro d hd
    rw [List.take_zero, List.mem_singleton] at hd
    rwa [hd]
  rcases htoken with rfl | rfl | rfl | hname
  · exact @alone '*' (by constructor <;> decide) (readToken_punctuation rfl h)
  · exact @alone '(' (by constructor <;> decide) (readToken_punctuation rfl h)
  · exact @alone ')' (by constructor <;> decide) (readToken_punctuation rfl h)
  · obtain ⟨name, hname⟩ := Option.isSome_iff_exists.1 hname
    obtain ⟨hstart, -, htaken⟩ := readToken_memberName hname h
    have htake : rest.take taken = rest.takeWhile continuesWord := by
      rw [htaken]
      exact (List.prefix_iff_eq_take.1 (List.takeWhile_prefix _)).symm
    rw [htake]
    exact fun d => ordinary_of_mem_word hstart (List.all_eq_true.1 List.all_takeWhile)

theorem ne_endOfInput_of_followsDot
    {token : Token}
    (h : FollowsDot token) :
    token ≠ .endOfInput := by
  rintro rfl
  simp [FollowsDot, Token.memberName?] at h

/-- The stretch of a text that some tokens after a dot are read from. -/
theorem exists_ordinary_front
    {position : Nat}
    {body : List Char}
    {lexemes : List Lexeme}
    {tokens rest : List Token}
    (htokens : ∀ token ∈ tokens, FollowsDot token)
    (hlex : ofText position body = .ok lexemes)
    (hread : lexemes.map token ++ [.endOfInput] = tokens ++ rest) :
    ∃ front behind next more,
      body = front ++ behind ∧
      (∀ c ∈ front, Ordinary c) ∧
      ofText next behind = .ok more ∧
      more.map token ++ [.endOfInput] = rest := by
  induction tokens generalizing position body lexemes with
  | nil =>
      exact ⟨[], body, position, lexemes, rfl, by simp, hlex, hread⟩
  | cons first tokens ih =>
      have hfirst := htokens first List.mem_cons_self
      obtain ⟨blanks, c, after, taken, lexeme, others, rfl, -, -, -, hblanks, rfl, htoken, hothers,
        hmore⟩ := exists_first_token hlex hread (ne_endOfInput_of_followsDot hfirst)
      obtain ⟨front, behind, next, more, hsplit, hfront, hnext, hrest⟩ :=
        ih (fun token hmem => htokens token (List.mem_cons_of_mem _ hmem)) hothers hmore
      refine ⟨blanks ++ (c :: after.take taken ++ front), behind, next, more, ?_, ?_, hnext, hrest⟩
      · rw [List.append_assoc, List.append_assoc, ← hsplit, List.cons_append,
          List.take_append_drop]
      · intro d hd
        rcases List.mem_append.1 hd with hd | hd
        · exact ordinary_of_isAsciiBlank (hblanks d hd)
        · rcases List.mem_append.1 hd with hd | hd
          · exact ordinary_of_followsDot hfirst htoken d hd
          · exact hfront d hd

end Lexeme
end Query

namespace Path

open Query (Chain Token Lexeme)
open Query.Chain (Reads)

namespace Division

/-- A pattern with one character at each place is a word in front of the text. -/
theorem exists_of_startsWith_word
    {word : List Char}
    {more : Pattern}
    {text : List Char}
    (h : startsWith (word.map (fun c => [c]) ++ more) text = true) :
    ∃ rest, text = word ++ rest ∧ startsWith more rest = true := by
  induction word generalizing text with
  | nil =>
      exact ⟨text, rfl, h⟩
  | cons c word ih =>
      cases text with
      | nil =>
          cases h
      | cons d text =>
          simp only [List.map_cons, List.cons_append, startsWith, Bool.and_eq_true,
            List.contains_iff_mem, List.mem_singleton] at h
          obtain ⟨rest, rfl, hrest⟩ := ih h.2
          exact ⟨rest, by rw [h.1]; rfl, hrest⟩

/-- Where an operator stands, an advanced part starts. -/
theorem advancedStart_of_startsWith
    {pattern : Pattern}
    {text : List Char}
    (hpattern : pattern ∈ operators)
    (h : startsWith pattern text = true) :
    AdvancedStart text := by
  simp only [operators, List.mem_cons, List.not_mem_nil, or_false] at hpattern
  rcases hpattern with rfl | rfl | rfl
  · obtain ⟨rest, rfl, -⟩ := @exists_of_startsWith_word ['.', '.'] [] _ h
    exact .descent
  · obtain ⟨rest, rfl, hrest⟩ := @exists_of_startsWith_word ['.', '*'] [['.', '[']] _ h
    cases rest with
    | nil =>
        cases hrest
    | cons c rest =>
        simp only [startsWith, Bool.and_true, List.contains_iff_mem, List.mem_cons,
          List.not_mem_nil, or_false] at hrest
        exact .star hrest
  · obtain ⟨rest, rfl, -⟩ := @exists_of_startsWith_word ".length()".toList [] _ h
    exact .length

end Division

open Division (Overlooked)

/--
The text behind a root sign, which comes to a chain: it is overlooked to its
end, or up to an advanced part that comes to what is left of the chain.
-/
inductive Parted
    (body : List Char)
    (chain : Chain) : Prop where
  | whole
      (h : Overlooked body [])
  | advanced
      {front ending : List Char}
      {rest : Chain}
      (hbody : body = front ++ ending)
      (hfront : Overlooked front ending)
      (hstart : AdvancedStart ending)
      (hcompile : Query.compile (String.ofList ('$' :: ending)) =
        .ok ⟨rest, String.ofList ('$' :: ending)⟩)
      (hfunction : rest.function = chain.function)
      (hselectors : rest.selectors <:+ chain.selectors)

namespace Parted

variable {front body : List Char}
variable {chain : Chain}

theorem of_blank
    (h : Blank body)
    (chain : Chain) :
    Parted body chain :=
  .whole (.of_blank h)

/-- With another selector in front, less of the chain is left. -/
theorem cons
    (h : Parted body chain)
    (selector : Query.Selector) :
    Parted body (chain.cons selector) := by
  cases h with
  | whole h => exact .whole h
  | advanced hbody hfront hstart hcompile hfunction hselectors =>
      exact .advanced hbody hfront hstart hcompile hfunction
        (hselectors.trans (List.suffix_cons selector chain.selectors))

/-- A stretch in front that is overlooked, too. -/
theorem append
    (hfront : Overlooked front body)
    (h : Parted body chain) :
    Parted (front ++ body) chain := by
  cases h with
  | whole h =>
      rw [← List.append_nil body] at hfront
      exact .whole (hfront.append h)
  | @advanced middle ending rest hbody hmiddle hstart hcompile hfunction hselectors =>
      rw [hbody] at hfront
      refine .advanced ?_ (hfront.append hmiddle) hstart hcompile hfunction hselectors
      rw [hbody, List.append_assoc]

/-- Behind blanks, an advanced part that all of the chain is read from. -/
theorem of_start
    {position : Nat}
    {blanks ending : List Char}
    {lexemes : List Lexeme}
    (hblanks : Blank blanks)
    (hlex : Lexeme.ofText position (blanks ++ ending) = .ok lexemes)
    (hreads : Reads (lexemes.map Lexeme.token ++ [.endOfInput]) chain)
    (hstart : AdvancedStart ending) :
    Parted (blanks ++ ending) chain := by
  rw [Lexeme.ofText_blanks position ending hblanks] at hlex
  exact .advanced rfl (.of_blank hblanks) hstart (compile_of_reads hlex hreads) rfl
    List.suffix_rfl

/-- A dot and the tokens after it, behind which the rest of the text is parted. -/
theorem of_dotted
    {position : Nat}
    {lexemes : List Lexeme}
    {inner rest : List Token}
    (hinner : ∀ token ∈ inner, Query.Lexeme.FollowsDot token)
    (hlex : Lexeme.ofText position body = .ok lexemes)
    (htokens : lexemes.map Lexeme.token ++ [.endOfInput] = .dot :: (inner ++ rest))
    (hreads : Reads (lexemes.map Lexeme.token ++ [.endOfInput]) chain)
    (hrest : ∀ {next behind more},
      Lexeme.ofText next behind = .ok more →
      more.map Lexeme.token ++ [.endOfInput] = rest →
      Parted behind chain) :
    Parted body chain := by
  obtain ⟨blanks, c, after, taken, dot, others, rfl, -, -, -, hblanks, rfl, hdot, hothers, hmore⟩ :=
    Lexeme.exists_first_token hlex htokens (by simp)
  obtain ⟨rfl, rfl, -⟩ := Lexeme.readToken_dot hdot
  -- what looks like an operator is one, whichever segment it belongs to
  by_cases hstart : AdvancedStart ('.' :: after)
  · exact of_start hblanks hlex hreads hstart
  · rw [List.drop_zero] at hothers
    obtain ⟨front, behind, next, more, rfl, hfront, hnext, hlast⟩ :=
      Lexeme.exists_ordinary_front hinner hothers hmore
    have hdotted : Overlooked ('.' :: front) behind := by
      refine .of_dotted hfront ?_
      intro pattern hpattern
      rw [← Bool.not_eq_true]
      intro hoccurs
      exact hstart (Division.advancedStart_of_startsWith hpattern hoccurs)
    exact append (.of_blank hblanks) (append hdotted (hrest hnext hlast))

/-- A bracket that names one child, behind which the rest of the text is parted. -/
theorem of_bracketed
    {blanks before content after behind : List Char}
    {accessor : Accessor}
    (hblanks : Blank blanks)
    (hbefore : Blank before)
    (hafter : Blank after)
    (hcontent : PlainContent content accessor)
    (hrest : Parted behind chain) :
    Parted (blanks ++ '[' :: (before ++ content ++ after ++ [']']) ++ behind) chain := by
  rw [List.append_assoc]
  exact append (.of_blank hblanks) (append (.of_bracketed hbefore hafter hcontent) hrest)

end Parted

/-- A text that can be read behind a root sign is parted at the end of a segment. -/
theorem parted_of_reads
    {position : Nat}
    {body : List Char}
    {lexemes : List Lexeme}
    {tokens : List Token}
    {chain : Chain}
    (hreads : Reads tokens chain)
    (hlex : Lexeme.ofText position body = .ok lexemes)
    (htokens : lexemes.map Lexeme.token ++ [.endOfInput] = tokens) :
    Parted body chain := by
  induction hreads generalizing position body lexemes with
  | atEnd hend =>
      rw [← htokens] at hend
      exact .of_blank (Lexeme.blank_of_isAtEnd hlex hend) _
  | @length rest hend =>
      have hall : Reads (lexemes.map Lexeme.token ++ [.endOfInput]) ⟨[], some .length⟩ := by
        rw [htokens]
        exact .length hend
      refine @Parted.of_dotted _ _ _ _ [.name "length", .openParen, .closeParen] rest ?_ hlex
        htokens hall ?_
      · simp [Query.Lexeme.FollowsDot, Token.memberName?]
      · intro next behind more hmore hrest
        rw [← hrest] at hend
        exact .of_blank (Lexeme.blank_of_isAtEnd hmore hend) _
  | @star rest chain hrest ih =>
      have hall : Reads (lexemes.map Lexeme.token ++ [.endOfInput])
          (chain.cons (.choose .every)) := by
        rw [htokens]
        exact .star hrest
      refine @Parted.of_dotted _ _ _ _ [.star] rest ?_ hlex htokens hall ?_
      · simp [Query.Lexeme.FollowsDot]
      · exact fun hmore hlast => (ih hmore hlast).cons _
  | @member token name rest chain hname hrest ih =>
      have hall : Reads (lexemes.map Lexeme.token ++ [.endOfInput]) (chain.cons (.named name)) := by
        rw [htokens]
        exact .member hname hrest
      refine @Parted.of_dotted _ _ _ _ [token] rest ?_ hlex htokens hall ?_
      · simp [Query.Lexeme.FollowsDot, hname]
      · exact fun hmore hlast => (ih hmore hlast).cons _
  | descent htarget hrest ih =>
      obtain ⟨blanks, c, after, taken, -, -, -, -, -, -, hblanks, rfl, hread, -, -⟩ :=
        Lexeme.exists_first_token hlex htokens (by simp)
      obtain ⟨rfl, -, more, rfl⟩ := Lexeme.readToken_descent hread
      refine .of_start hblanks hlex ?_ .descent
      rw [htokens]
      exact .descent htarget hrest
  | @bracket rest selector taken chain hselector hrest ih =>
      have marked (hmarked : Query.Selector.Marked rest) : Parted body (chain.cons selector) := by
        obtain ⟨blanks, ending, rfl, hblanks, hstart⟩ :=
          exists_advancedStart_of_marked hlex htokens hmarked
        refine .of_start hblanks hlex ?_ hstart
        rw [htokens]
        exact .bracket hselector hrest
      have htaken : taken = (Query.Selector.bracket rest).taken := by
        rw [hselector]
      rcases Query.Selector.bracket_outcome (by rw [hselector]) with
        ⟨name, more, rfl, rfl⟩ | ⟨index, more, rfl, rfl⟩ | ⟨more, rfl, rfl⟩ | ⟨-, hmarked⟩
      · obtain ⟨blanks, before, quote, content, after, behind, _, _, _, _, -, -, -, -, -, -, -,
          hblanks, hbefore, hafter, hquote, hcontent, -, rfl, hmore, hlast⟩ :=
          exists_quoted_bracket hlex htokens
        refine .of_bracketed hblanks hbefore hafter (.quoted hquote hcontent) (.cons ?_ _)
        rw [htaken] at ih
        exact ih hmore hlast
      · obtain ⟨blanks, before, negative, digits, after, behind, _, _, _, _, -, -, -, -, -,
          hblanks, hbefore, hafter, hdigits, hvalue, rfl, hmore, hlast⟩ :=
          exists_indexed_bracket hlex htokens
        refine .of_bracketed hblanks hbefore hafter (.indexed hdigits hvalue) (.cons ?_ _)
        rw [htaken] at ih
        exact ih hmore hlast
      · exact marked (Query.Selector.marked_star more)
      · exact marked hmarked

/--
The advanced part of a path is a root sign and the start of an advanced part,
and compiles to what is left of the query behind the plain part.
-/
theorem exists_ending_of_advanced
    {path advanced : String}
    {query : Query}
    (hcompile : Query.compile path = .ok query)
    (hadvanced : (Division.ofText path).advanced = some advanced) :
    ∃ ending suffix,
      advanced = String.ofList ('$' :: ending) ∧
      AdvancedStart ending ∧
      Query.compile advanced = .ok suffix ∧
      suffix.function = query.function ∧
      suffix.selectors <:+ query.selectors := by
  obtain ⟨body, more, hpath, -, -, hlex, hreads⟩ := reads_of_compile hcompile
  rw [Division.ofText, hpath] at hadvanced
  cases parted_of_reads hreads hlex rfl with
  | whole h =>
      rw [Division.start?_eq_none h] at hadvanced
      cases hadvanced
  | @advanced front ending rest hbody hfront hstart hending hfunction hselectors =>
      have hsplit : '$' :: body = '$' :: front ++ ending := by
        rw [hbody]
        rfl
      rw [hsplit, Division.start?_advanced hfront hstart] at hadvanced
      simp only [List.drop_left, Option.some.injEq] at hadvanced
      rw [← hadvanced]
      exact ⟨ending, _, rfl, hstart, hending, hfunction, hselectors⟩

/--
The advanced part of a path compiles to a query with the function of the path,
whose selectors are the last ones of the path.
-/
theorem compile_advanced
    {path advanced : String}
    {query : Query}
    (hcompile : Query.compile path = .ok query)
    (hadvanced : (Division.ofText path).advanced = some advanced) :
    ∃ suffix,
      Query.compile advanced = .ok suffix ∧
      suffix.function = query.function ∧
      suffix.selectors <:+ query.selectors := by
  obtain ⟨_, suffix, -, -, hsuffix, hfunction, hselectors⟩ :=
    exists_ending_of_advanced hcompile hadvanced
  exact ⟨suffix, hsuffix, hfunction, hselectors⟩

end Path
end FieldQuery
