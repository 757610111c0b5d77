import Mathlib.Data.List.Pairwise
import FieldQuery.Path.ByteRanges
import FieldQuery.Proofs.Brackets
import FieldQuery.Proofs.Joining

/-!
# Quoted ranges and text literals

A text that can be read as tokens is scanned for quotes without reading it:
the ranges that are found are the text literals, one for each, quotes
included. So a position lies in a quoted range exactly if it belongs to a
literal, and then it belongs to one only. The argument goes along the tokens by
positions of characters; the bytes follow from it, since a byte range is a span
of characters counted in bytes.
-/

namespace FieldQuery

namespace Path

/-- The bytes that characters take are those of their encoding. -/
theorem byteLength_eq_size
    (text : List Char) :
    byteLength text = text.utf8Encode.size := by
  induction text with
  | nil => rfl
  | cons c rest ih =>
      rw [List.utf8Encode_cons, ByteArray.size_append, ← ih]
      simp [byteLength, List.utf8Encode_singleton]

theorem byteLength_append
    (front rest : List Char) :
    byteLength (front ++ rest) = byteLength front + byteLength rest := by
  simp only [byteLength_eq_size, List.utf8Encode_append, ByteArray.size_append]

/-- Positions are in the same order as their offsets in bytes. -/
theorem byteLength_take_le
    (text : List Char)
    {i j : Nat}
    (h : i ≤ j) :
    byteLength (text.take i) ≤ byteLength (text.take j) := by
  have hprefix : text.take i <+: text.take j := List.take_prefix_take_left h
  obtain ⟨rest, hrest⟩ := hprefix
  rw [← hrest, byteLength_append]
  exact Nat.le_add_right _ _

/-- A state of the search by characters, as the search by bytes is in. -/
def QuoteState.inBytes
    (text : List Char) :
    QuoteState → QuoteState
  | outside => outside
  | inside quote start => inside quote (byteLength (text.take start))
  | escaped quote start => escaped quote (byteLength (text.take start))

/-- The two searches go side by side. -/
theorem byteRangesFrom_eq
    {text front rest : List Char}
    (h : text = front ++ rest)
    (state : QuoteState) :
    byteRangesFrom (state.inBytes text) (byteLength front) rest =
      (spansFrom state front.length rest).map (Span.inBytes text) := by
  induction rest generalizing front state with
  | nil =>
      have hfront : text.take front.length = front := by
        rw [h, List.take_left]
      cases state <;> simp [byteRangesFrom, spansFrom, QuoteState.inBytes, Span.inBytes, hfront]
  | cons c rest ih =>
      have hfront : text.take front.length = front := by
        rw [h, List.take_left]
      have hsplit : text = (front ++ [c]) ++ rest := by
        rw [h, List.append_assoc]
        rfl
      have hlength : (front ++ [c]).length = front.length + 1 := by
        simp
      have hoffset : byteLength (front ++ [c]) = byteLength front + c.utf8Size := by
        rw [byteLength_append]
        rfl
      have hnext : text.take (front.length + 1) = front ++ [c] := by
        rw [hsplit, ← hlength, List.take_left]
      have hstep (state : QuoteState) :
          byteRangesFrom (state.inBytes text) (byteLength front + c.utf8Size) rest =
            (spansFrom state (front.length + 1) rest).map (Span.inBytes text) := by
        rw [← hoffset, ← hlength]
        exact ih hsplit state
      cases state with
      | outside =>
          rw [QuoteState.inBytes, byteRangesFrom, spansFrom]
          split
          · rw [← hstep (.inside c front.length), QuoteState.inBytes, hfront]
          · exact hstep .outside
      | inside quote start =>
          rw [QuoteState.inBytes, byteRangesFrom, spansFrom]
          split
          · exact hstep (.escaped quote start)
          · split
            · rw [List.map_cons, ← hstep .outside, Span.inBytes, hnext, hoffset]
              rfl
            · exact hstep (.inside quote start)
      | escaped quote start => exact hstep (.inside quote start)

/-- A byte range is a span of characters, counted in bytes. -/
theorem quotedRanges_eq
    (text : String) :
    quotedRanges text = (quotedSpans text.toList).map (Span.inBytes text.toList) :=
  byteRangesFrom_eq (List.nil_append _).symm .outside

end Path

namespace Query
namespace Lexeme

open FieldQuery.Path (Span QuotedBody spansFrom quotedSpans quotedRanges)

/-- The span of the characters that a lexeme was read from. -/
def span
    (lexeme : Lexeme) :
    Span :=
  ⟨lexeme.start, lexeme.stop⟩

/-- Whether a lexeme is a text literal. -/
def isLiteral
    (lexeme : Lexeme) :
    Bool :=
  match lexeme.token with
  | .text _ => true
  | _ => false

/-- The bytes of a text that a lexeme was read from. -/
def range
    (text : String)
    (lexeme : Lexeme) :
    Span :=
  lexeme.span.inBytes text.toList

/-- Without a quote among them, characters are passed over. -/
theorem spansFrom_of_unquoted
    {stretch rest : List Char}
    (position : Nat)
    (h : ∀ c ∈ stretch, Path.Quoting.outside.covers c = false) :
    spansFrom .outside position (stretch ++ rest) =
      spansFrom .outside (position + stretch.length) rest := by
  induction stretch generalizing position with
  | nil => rfl
  | cons c stretch ih =>
      have hc : ¬ (c = '\'' || c = '"') = true := by
        simpa [Path.Quoting.covers] using h c List.mem_cons_self
      rw [List.cons_append, spansFrom, if_neg hc,
        ih (position + 1) fun d hd => h d (List.mem_cons_of_mem c hd), List.length_cons]
      congr 1
      omega

/-- A token that is no text literal has no quotes. -/
theorem unquoted_of_reads
    {c : Char}
    {rest : List Char}
    {token : Token}
    {taken : Nat}
    (h : Reads c rest token taken)
    (hliteral : ∀ value, token ≠ .text value) :
    ∀ d ∈ c :: rest.take taken, Path.Quoting.outside.covers d = false := by
  intro d hd
  cases h with
  | text => exact absurd rfl (hliteral _)
  | integer hsplit hlength hdigits _ =>
      rw [take_of_cons_eq_append hsplit hlength] at hd
      exact (ordinary_of_mem_integer hdigits hd).1
  | float hcharacters =>
      rcases hcharacters d hd with hdigit | rfl | rfl
      · exact (ordinary_of_isDigit hdigit).1
      · decide
      · decide
  | dot hc _ =>
      rw [hc, List.take_zero, List.mem_singleton] at hd
      rw [hd]
      decide
  | descent hc hrest =>
      rw [hc, hrest] at hd
      simp only [List.take_succ_cons, List.take_zero, List.mem_cons, List.not_mem_nil, or_false,
        or_self] at hd
      rw [hd]
      decide
  | operator _ hcharacters =>
      have hmem := hcharacters d hd
      simp only [operatorCharacters, List.mem_cons, List.not_mem_nil, or_false] at hmem
      rcases hmem with rfl | rfl | rfl | rfl | rfl | rfl
      all_goals decide
  | punctuation hc =>
      have hsign := eq_sign_of_ofPunctuation? hc
      have hmem := mem_punctuation hc
      rw [List.take_zero, List.mem_singleton, hsign] at hd
      simp only [punctuation, List.mem_cons, List.not_mem_nil, or_false] at hmem
      rw [hd]
      rcases hmem with rfl | rfl | rfl | rfl | rfl | rfl | rfl | rfl | rfl | rfl
      all_goals rfl
  | word hstart _ =>
      rw [(List.prefix_iff_eq_take.1 (List.takeWhile_prefix _)).symm] at hd
      exact (ordinary_of_mem_word hstart (List.all_eq_true.1 List.all_takeWhile) hd).1

/-- A text literal is one quoted span. -/
theorem spansFrom_text
    {c : Char}
    {rest : List Char}
    {value : String}
    {taken : Nat}
    (position : Nat)
    (h : readToken c rest = .ok (.text value, taken)) :
    spansFrom .outside position (c :: rest) =
      ⟨position, position + 1 + taken⟩ ::
        spansFrom .outside (position + 1 + taken) (rest.drop taken) := by
  obtain ⟨body, after, hquote, rfl, rfl, hbody, -⟩ := readToken_text h
  have hsplit : c :: (body ++ c :: after) = (c :: (body ++ [c])) ++ after := by
    simp
  have hlength : (c :: (body ++ [c])).length = body.length + 2 := by
    simp
  have hoffset : position + 1 + (body.length + 1) = position + (body.length + 2) := by
    omega
  have hclear := Path.clear_quoted (fun _ => false) hquote hbody
  rw [hsplit, Path.spansFrom_append after (Path.after_of_clear hclear),
    Path.spansFrom_quoted hquote hbody, hlength, hoffset, drop_behind]
  rfl

/-- Any other token is passed over. -/
theorem spansFrom_other
    {c : Char}
    {rest : List Char}
    {token : Token}
    {taken : Nat}
    (position : Nat)
    (h : readToken c rest = .ok (token, taken))
    (hliteral : ∀ value, token ≠ .text value) :
    spansFrom .outside position (c :: rest) =
      spansFrom .outside (position + 1 + taken) (rest.drop taken) := by
  have hunquoted := unquoted_of_reads (reads_of_readToken h) hliteral
  have hsplit : c :: rest = (c :: rest.take taken) ++ rest.drop taken := by
    rw [List.cons_append, List.take_append_drop]
  have hlength : position + (c :: rest.take taken).length = position + 1 + taken := by
    rw [List.length_cons, List.length_take, Nat.min_eq_left (taken_le_of_readToken h)]
    omega
  rw [hsplit, spansFrom_of_unquoted position hunquoted, hlength]

/-- The quoted spans of a text that is read are its text literals. -/
theorem spansFrom_of_ofText
    {position : Nat}
    {text : List Char}
    {lexemes : List Lexeme}
    (h : ofText position text = .ok lexemes) :
    spansFrom .outside position text = (lexemes.filter isLiteral).map span := by
  have hblank : ∀ blanks : List Char, (∀ c ∈ blanks, Text.isAsciiBlank c = true) →
      ∀ c ∈ blanks, Path.Quoting.outside.covers c = false := fun blanks hblanks c hc =>
    (ordinary_of_isAsciiBlank (hblanks c hc)).1
  induction lexemes generalizing position text with
  | nil =>
      have hpassed := @spansFrom_of_unquoted _ [] position (hblank text (blank_of_ofText_nil h))
      rwa [List.append_nil] at hpassed
  | cons lexeme more ih =>
      obtain ⟨token, start, stop⟩ := lexeme
      obtain ⟨blanks, c, rest, taken, hblanks, rfl, -, htoken, hstart, hstop, hmore⟩ :=
        ofText_eq_cons h
      dsimp only at htoken hstart hstop hmore
      rw [spansFrom_of_unquoted position (hblank blanks hblanks), ← hstart]
      by_cases hliteral : ∃ value, token = .text value
      · obtain ⟨value, rfl⟩ := hliteral
        rw [spansFrom_text start htoken, ← hstop, ih hmore]
        rfl
      · have hnone : isLiteral ⟨token, start, stop⟩ = false := by
          cases token with
          | text value => exact absurd ⟨value, rfl⟩ hliteral
          | _ => rfl
        rw [spansFrom_other start htoken fun value hvalue => hliteral ⟨value, hvalue⟩, ← hstop,
          ih hmore, List.filter_cons_of_neg (by rw [hnone]; exact Bool.false_ne_true)]

/-- Lexemes stand one behind another. -/
theorem pairwise_of_ofText
    {position : Nat}
    {text : List Char}
    {lexemes : List Lexeme}
    (h : ofText position text = .ok lexemes) :
    (∀ lexeme ∈ lexemes, position ≤ lexeme.start) ∧
      lexemes.Pairwise fun first second => first.stop ≤ second.start := by
  induction lexemes generalizing position text with
  | nil => exact ⟨fun lexeme hmem => absurd hmem List.not_mem_nil, .nil⟩
  | cons lexeme more ih =>
      obtain ⟨blanks, c, rest, taken, -, -, -, -, hstart, hstop, hmore⟩ := ofText_eq_cons h
      obtain ⟨hlater, hpairwise⟩ := ih hmore
      refine ⟨?_, .cons hlater hpairwise⟩
      intro other hother
      rcases List.mem_cons.1 hother with rfl | hother
      · omega
      · have hbehind := hlater other hother
        omega

/-- Where a lexeme stands in the text that it was read from. -/
theorem read_of_mem
    {position : Nat}
    {text : List Char}
    {lexemes : List Lexeme}
    {lexeme : Lexeme}
    (h : ofText position text = .ok lexemes)
    (hmem : lexeme ∈ lexemes) :
    ∃ front c rest taken,
      text = front ++ c :: rest ∧
      lexeme.start = position + front.length ∧
      lexeme.stop = lexeme.start + 1 + taken ∧
      readToken c rest = .ok (lexeme.token, taken) := by
  induction lexemes generalizing position text with
  | nil => exact absurd hmem List.not_mem_nil
  | cons first more ih =>
      obtain ⟨blanks, c, rest, taken, -, rfl, -, htoken, hstart, hstop, hmore⟩ := ofText_eq_cons h
      rcases List.mem_cons.1 hmem with rfl | hmem
      · exact ⟨blanks, c, rest, taken, rfl, hstart, hstop, htoken⟩
      · obtain ⟨front, d, after, more, hsplit, hbegin, hend, hread⟩ := ih hmore hmem
        refine ⟨blanks ++ c :: (rest.take taken ++ front), d, after, more, ?_, ?_, hend, hread⟩
        · rw [List.append_assoc, List.cons_append, List.append_assoc, ← hsplit,
            List.take_append_drop]
        · rw [hbegin, hstop, hstart]
          simp only [List.length_append, List.length_cons, List.length_take,
            Nat.min_eq_left (taken_le_of_readToken htoken)]
          omega

section Ranges

variable {text : String}
variable {lexemes : List Lexeme}

/-- The byte ranges of lexemes do not overlap either. -/
theorem pairwise_range
    (h : ofText 0 text.toList = .ok lexemes) :
    lexemes.Pairwise fun first second =>
      (first.range text).stop ≤ (second.range text).start :=
  (pairwise_of_ofText h).2.imp fun hle => Path.byteLength_take_le _ hle

/-- No two lexemes share a byte. -/
theorem eq_of_covers
    (h : ofText 0 text.toList = .ok lexemes)
    {offset : Nat}
    {first second : Lexeme}
    (hfirst : first ∈ lexemes)
    (hsecond : second ∈ lexemes)
    (hcovers : (first.range text).covers offset = true)
    (hcoversToo : (second.range text).covers offset = true) :
    first = second := by
  have hshared : lexemes.Pairwise fun first second =>
      (first.range text).covers offset = true →
      (second.range text).covers offset = true →
      first = second := by
    refine (pairwise_range h).imp ?_
    intro before behind hle hbefore hbehind
    simp only [Span.covers, Bool.and_eq_true, decide_eq_true_eq] at hbefore hbehind
    omega
  have hsymm : Std.Symm fun first second : Lexeme =>
      (first.range text).covers offset = true →
      (second.range text).covers offset = true →
      first = second :=
    ⟨fun _ _ hsame hsecond hfirst => (hsame hfirst hsecond).symm⟩
  exact hshared.forall_of_forall (fun _ _ _ _ => rfl) hfirst hsecond hcovers hcoversToo

/-- A text literal is a quoted body and its quotes. -/
theorem between_of_isLiteral
    (h : ofText 0 text.toList = .ok lexemes)
    {lexeme : Lexeme}
    (hmem : lexeme ∈ lexemes)
    (hliteral : lexeme.isLiteral = true) :
    ∃ quote body,
      (quote = '\'' ∨ quote = '"') ∧
      QuotedBody quote body ∧
      Path.Division.between text.toList lexeme.start lexeme.stop = quote :: (body ++ [quote]) := by
  obtain ⟨front, c, rest, taken, hsplit, hstart, hstop, hread⟩ := read_of_mem h hmem
  rw [isLiteral] at hliteral
  cases htoken : lexeme.token with
  | text value =>
      rw [htoken] at hread
      obtain ⟨body, after, hquote, rfl, rfl, hbody, -⟩ := readToken_text hread
      have hdrop : text.toList.drop lexeme.start = (c :: (body ++ [c])) ++ after := by
        rw [hstart, hsplit, Nat.zero_add, List.drop_left]
        simp
      refine ⟨c, body, hquote, hbody, Path.between_of_drop hdrop ?_⟩
      rw [hstop, List.length_cons, List.length_append, List.length_singleton]
      omega
  | _ =>
      rw [htoken] at hliteral
      cases hliteral

/--
The quoted ranges of a text that can be read as tokens are the bytes of its
text literals, in order, without overlap and with their quotes. A byte in one of
them belongs to exactly one literal, and every other byte to none.
-/
theorem quotedRanges_eq_literals
    (h : ofText 0 text.toList = .ok lexemes) :
    quotedRanges text = (lexemes.filter isLiteral).map (range text) ∧
    ((quotedRanges text).Pairwise fun first second => first.stop ≤ second.start) ∧
    (∀ lexeme ∈ lexemes.filter isLiteral, ∃ quote body,
      (quote = '\'' ∨ quote = '"') ∧
      QuotedBody quote body ∧
      Path.Division.between text.toList lexeme.start lexeme.stop = quote :: (body ++ [quote])) ∧
    ∀ offset,
      (Path.isCovered (quotedRanges text) offset = true →
        ∃! lexeme, lexeme ∈ lexemes.filter isLiteral ∧
          (lexeme.range text).covers offset = true) ∧
      (Path.isCovered (quotedRanges text) offset = false →
        ∀ lexeme ∈ lexemes.filter isLiteral, (lexeme.range text).covers offset = false) := by
  have hranges : quotedRanges text = (lexemes.filter isLiteral).map (range text) := by
    rw [Path.quotedRanges_eq, quotedSpans, spansFrom_of_ofText h, List.map_map]
    rfl
  refine ⟨hranges, ?_, ?_, fun offset => ⟨?_, ?_⟩⟩
  · rw [hranges, List.pairwise_map]
    exact (pairwise_range h).filter _
  · intro lexeme hlexeme
    obtain ⟨hmem, hliteral⟩ := List.mem_filter.1 hlexeme
    exact between_of_isLiteral h hmem hliteral
  · intro hcovered
    rw [hranges, Path.isCovered, List.any_map, List.any_eq_true] at hcovered
    obtain ⟨lexeme, hlexeme, hcovers⟩ := hcovered
    refine ⟨lexeme, ⟨hlexeme, hcovers⟩, ?_⟩
    rintro other ⟨hother, hcoversToo⟩
    exact eq_of_covers h (List.mem_of_mem_filter hother) (List.mem_of_mem_filter hlexeme)
      hcoversToo hcovers
  · intro hcovered lexeme hlexeme
    rw [hranges, Path.isCovered, List.any_map, List.any_eq_false] at hcovered
    exact Bool.eq_false_iff.2 (hcovered lexeme hlexeme)

/-- Two literals with characters of two and of four bytes, and with a quote in each. -/
theorem quotedRanges_eq_literals_escaped :
    quotedRanges "$['é\\'😀']..[\"'\\u00fc\"]" = [⟨2, 12⟩, ⟨16, 25⟩] ∧
    ∃! lexeme, lexeme ∈ ([⟨.text "é'😀", 2, 8⟩, ⟨.text "'ü", 12, 21⟩] : List Lexeme) ∧
      (lexeme.range "$['é\\'😀']..[\"'\\u00fc\"]").covers 16 = true := by
  have hlexemes : ofText 0 "$['é\\'😀']..[\"'\\u00fc\"]".toList =
      .ok [⟨.root, 0, 1⟩, ⟨.openBracket, 1, 2⟩, ⟨.text "é'😀", 2, 8⟩, ⟨.closeBracket, 8, 9⟩,
        ⟨.descent, 9, 11⟩, ⟨.openBracket, 11, 12⟩, ⟨.text "'ü", 12, 21⟩,
        ⟨.closeBracket, 21, 22⟩] := by
    decide +kernel
  have hranges : quotedRanges "$['é\\'😀']..[\"'\\u00fc\"]" = [⟨2, 12⟩, ⟨16, 25⟩] := by
    decide +kernel
  obtain ⟨-, -, -, hbytes⟩ := quotedRanges_eq_literals hlexemes
  refine ⟨hranges, (hbytes 16).1 ?_⟩
  rw [hranges]
  decide

end Ranges
end Lexeme
end Query
end FieldQuery
