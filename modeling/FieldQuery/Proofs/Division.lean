import FieldQuery.Proofs.Operators

/-!
# Where a path is divided

The brackets of segments that name one child are all plain, and the bracket
that an advanced part starts with is not. Together with the search for
operators this tells where a path is divided: behind a stretch that both
searches overlook, if an advanced part starts there, and nowhere if they
overlook the whole path.
-/

namespace FieldQuery
namespace Path
namespace Division

open Query.Lexeme (isCut Unplain)

/-- The character that changes whether a bracket is open. -/
def turning
    (opened : Option Nat) :
    Char :=
  if opened.isSome then
    ']'
  else
    '['

/-- The search for a bracket passes over a stretch that neither opens nor closes one. -/
theorem firstBracket?_append
    {spans : List Span}
    {text : List Char}
    {opened : Option Nat}
    {position : Nat}
    {state : Quoting}
    {front rest : List Char}
    (htracks : Tracks spans state position (front ++ rest))
    (hclear : clear (· == turning opened) state front = true) :
    firstBracket? spans text opened position (front ++ rest) =
      firstBracket? spans text opened (position + front.length) rest := by
  induction front generalizing state position with
  | nil =>
      rfl
  | cons c front ih =>
      rw [List.cons_append] at htracks ⊢
      simp only [clear, Bool.and_eq_true] at hclear
      have hrest := ih htracks.tail hclear.2
      have hlength : position + (c :: front).length = position + 1 + front.length := by
        rw [List.length_cons]
        omega
      have hcovered := htracks.head
      rw [hlength, ← hrest]
      cases hcovers : state.covers c with
      | true => simp [firstBracket?, hcovered, hcovers]
      | false =>
          have hturning : c ≠ turning opened := by simpa [hcovers] using hclear.1
          cases opened with
          | none =>
              have hopening : c ≠ '[' := hturning
              simp [firstBracket?, hcovered, hcovers, hopening]
          | some start =>
              have hclosing : c ≠ ']' := hturning
              simp [firstBracket?, hcovered, hcovers, hclosing]

/-- A bracket outside quotes, up to where it is closed. -/
theorem firstBracket?_bracket
    {spans : List Span}
    {text : List Char}
    {position : Nat}
    {content rest : List Char}
    (hposition : 0 < position)
    (hdrop : text.drop position = '[' :: (content ++ ']' :: rest))
    (htracks : Tracks spans .outside position ('[' :: (content ++ ']' :: rest)))
    (hclear : clear (· == ']') .outside content = true) :
    firstBracket? spans text none position ('[' :: (content ++ ']' :: rest)) =
      if isPlainContent spans content (position + 1) then
        firstBracket? spans text none (position + (content.length + 2)) rest
      else
        some position := by
  have hcovered : isCovered spans position = false := htracks.head
  have hinner : Tracks spans .outside (position + 1) (content ++ ']' :: rest) := htracks.tail
  have hclosing := hinner.append_right
  rw [after_of_clear hclear] at hclosing
  have hclosed : isCovered spans (position + 1 + content.length) = false := hclosing.head
  have hpassed : firstBracket? spans text (some position) (position + 1) (content ++ ']' :: rest) =
      firstBracket? spans text (some position) (position + 1 + content.length) (']' :: rest) :=
    firstBracket?_append hinner hclear
  have hbetween : between text (position + 1) (position + 1 + content.length) = content :=
    between_of_drop (@drop_add_of_drop text ['['] _ _ _ hdrop rfl) rfl
  rw [firstBracket?]
  simp only [hcovered, Bool.false_eq_true, if_false, if_pos hposition]
  rw [hpassed, firstBracket?]
  simp only [hclosed, Bool.false_eq_true, if_false, hbetween]
  congr 2
  omega

/-- A bracket that names one child is plain. -/
theorem isPlainContent_padded
    {spans : List Span}
    {position : Nat}
    {before content after : List Char}
    {accessor : Accessor}
    (hbefore : Blank before)
    (hafter : Blank after)
    (hcontent : PlainContent content accessor)
    (hspans : ∀ span ∈ spansFrom .outside (position + before.length) content, span ∈ spans) :
    isPlainContent spans (before ++ content ++ after) position = true := by
  obtain ⟨first, last, hfirst, hlast⟩ := hcontent.ends
  obtain ⟨hstart, hend, htrim⟩ :=
    Text.trim_padded (fun c hc => Text.isBlank_of_isAsciiBlank (hbefore c hc))
      (fun c hc => Text.isBlank_of_isAsciiBlank (hafter c hc)) hfirst hlast
  rw [isPlainContent, hstart, hend, htrim]
  cases hcontent with
  | @quoted body quote hquote hbody =>
      rw [spansFrom_quoted hquote hbody] at hspans
      have hmem := hspans _ List.mem_cons_self
      have hstart : (before ++ quote :: (body ++ [quote]) ++ after).length -
          (quote :: (body ++ [quote]) ++ after).length = before.length := by
        simp only [List.length_append]
        omega
      have hstop : position + (before ++ quote :: (body ++ [quote])).length =
          position + before.length + (body.length + 2) := by
        simp only [List.length_append, List.length_cons, List.length_nil]
        omega
      have hcontains : spans.contains ⟨position + before.length,
          position + before.length + (body.length + 2)⟩ = true :=
        List.contains_iff_mem.2 hmem
      rw [hstart, hstop, hcontains]
      simp
  | indexed hdigits hvalue =>
      rw [read?_signText hdigits hvalue]
      rfl

/-- An integer is read from digits and signs alone. -/
theorem mem_of_read?
    {content : List Char}
    {value : Int}
    (h : Integer64.read? content = some value)
    {c : Char}
    (hc : c ∈ content) :
    c = '+' ∨ c = '-' ∨ c.isDigit = true := by
  have digits {negative : Bool} {digits : List Char}
      (hdigits : Integer64.ofSignedDigits? negative digits = some value) (hmem : c ∈ digits) :
      c.isDigit = true := by
    unfold Integer64.ofSignedDigits? at hdigits
    split at hdigits
    · cases hdigits
    · next hall =>
        simp only [Bool.or_eq_true, not_or, Bool.not_eq_true', Bool.not_eq_false] at hall
        exact List.all_eq_true.1 hall.2 c hmem
  unfold Integer64.read? at h
  split at h
  · rcases List.mem_cons.1 hc with rfl | hmem
    · exact Or.inl rfl
    · exact Or.inr (Or.inr (digits h hmem))
  · rcases List.mem_cons.1 hc with rfl | hmem
    · exact Or.inr (Or.inl rfl)
    · exact Or.inr (Or.inr (digits h hmem))
  · exact Or.inr (Or.inr (digits h hc))

/-- A bracket with a mark outside quotes is not plain. -/
theorem isPlainContent_unplain
    {spans : List Span}
    {position : Nat}
    {content rest : List Char}
    (htracks : Tracks spans .outside position (content ++ rest))
    (h : Unplain content) :
    isPlainContent spans content position = false := by
  obtain ⟨before, mark, after, rfl, hmark, hbefore⟩ := h
  have hkind : Text.isBlank mark = false ∧ ¬ (mark = '+' ∨ mark = '-' ∨ mark.isDigit = true) ∧
      Quoting.outside.covers mark = false := by
    simp only [Query.Lexeme.markSigns, List.mem_cons, List.not_mem_nil, or_false] at hmark
    rcases hmark with rfl | rfl | rfl | rfl <;> exact ⟨by decide +kernel, by decide, by decide⟩
  obtain ⟨hblank, hdigit, hcovers⟩ := hkind
  have hread : Integer64.read? (Text.trim (before ++ mark :: after)) = none := by
    rw [Option.eq_none_iff_forall_ne_some]
    intro value hvalue
    exact hdigit (mem_of_read? hvalue (Text.mem_trim (by simp) hblank))
  -- a span around the content would cover the mark
  have huncovered : isCovered spans (position + before.length) = false := by
    rw [List.append_assoc] at htracks
    have hmarked := htracks.append_right
    rw [hbefore] at hmarked
    exact hmarked.head.trans hcovers
  have hstart := (Text.suffix_trimStart before after hblank).length_le
  have hend := (Text.prefix_trimEnd before after hblank).length_le
  have hspan : spans.contains
      ⟨position + ((before ++ mark :: after).length -
          (Text.trimStart (before ++ mark :: after)).length),
        position + (Text.trimEnd (before ++ mark :: after)).length⟩ = false := by
    rw [← Bool.not_eq_true, List.contains_iff_mem]
    intro hmem
    rw [isCovered, List.any_eq_false] at huncovered
    refine huncovered _ hmem ?_
    simp only [Span.covers, Bool.and_eq_true, decide_eq_true_eq]
    simp only [List.length_append, List.length_cons, List.length_nil] at hstart hend ⊢
    omega
  rw [isPlainContent, hread, hspan]
  simp

/-- A search for brackets that has come to a position of a text outside quotes. -/
structure Scanned
    (spans : List Span)
    (text : List Char)
    (position : Nat)
    (rest : List Char) : Prop where
  drop : text.drop position = rest
  tracks : Tracks spans .outside position rest
  spans : ∀ span ∈ spansFrom .outside position rest, span ∈ spans

theorem scanned_start
    (text : List Char) :
    Scanned (quotedSpans text) text 0 text :=
  ⟨rfl, tracks_quotedSpans text, fun _ h => h⟩

theorem Scanned.append_right
    {spans : List Span}
    {text : List Char}
    {position : Nat}
    {front rest : List Char}
    (h : Scanned spans text position (front ++ rest))
    (hfront : Quoting.outside.after front = .outside) :
    Scanned spans text (position + front.length) rest := by
  refine ⟨drop_add_of_drop h.drop rfl, ?_, ?_⟩
  · have htracks := h.tracks.append_right
    rwa [hfront] at htracks
  · intro span hmem
    have happend := @spansFrom_append .outside position front rest hfront
    exact h.spans span (by rw [happend]; exact List.mem_append_right _ hmem)

/-- In a search that has come to it, a bracket that names one child is plain. -/
theorem Scanned.isPlainContent_bracket
    {spans : List Span}
    {text : List Char}
    {position : Nat}
    {before content after rest : List Char}
    {accessor : Accessor}
    (h : Scanned spans text position ('[' :: (before ++ content ++ after ++ rest)))
    (hbefore : Blank before)
    (hafter : Blank after)
    (hcontent : PlainContent content accessor) :
    isPlainContent spans (before ++ content ++ after) (position + 1) = true := by
  have hsplit : '[' :: (before ++ content ++ after ++ rest) =
      ('[' :: before) ++ (content ++ (after ++ rest)) := by
    simp
  have hbegun : Quoting.outside.after ('[' :: before) = .outside := by
    rw [Quoting.after_cons]
    exact after_of_clear (clear_of_blank hbefore)
  rw [hsplit] at h
  have hinner := (h.append_right hbegun).spans
  have happend := @spansFrom_append .outside (position + ('[' :: before).length) content
    (after ++ rest) (after_of_clear hcontent.clear_isCut)
  have hlength : position + ('[' :: before).length = position + 1 + before.length := by
    rw [List.length_cons]
    omega
  rw [happend, hlength] at hinner
  exact isPlainContent_padded hbefore hafter hcontent fun span hmem =>
    hinner span (List.mem_append_left _ hmem)

theorem opening_isCut
    (c : Char)
    (h : (c == '[') = true) :
    isCut c = true := by
  rw [beq_iff_eq] at h
  rw [h]
  rfl

theorem closing_isCut
    (c : Char)
    (h : (c == ']') = true) :
    isCut c = true := by
  rw [beq_iff_eq] at h
  rw [h]
  rfl

/--
A stretch of a text, and what follows it, where the text is not divided in the
stretch: the searches for operators and for brackets pass over it.
-/
structure Overlooked
    (front rest : List Char) : Prop where
  after_eq : Quoting.outside.after front = .outside
  hides : ∀ pattern ∈ operators, Hides pattern front rest
  firstBracket?_eq :
    ∀ spans text position,
      0 < position →
      Scanned spans text position (front ++ rest) →
      firstBracket? spans text none position (front ++ rest) =
        firstBracket? spans text none (position + front.length) rest

namespace Overlooked

variable {front middle rest : List Char}

theorem nil
    (rest : List Char) :
    Overlooked [] rest :=
  ⟨rfl, fun _ _ i hi => absurd hi (Nat.not_lt_zero i), fun _ _ _ _ _ => rfl⟩

theorem append
    (hfront : Overlooked front (middle ++ rest))
    (hmiddle : Overlooked middle rest) :
    Overlooked (front ++ middle) rest := by
  refine ⟨?_, ?_, ?_⟩
  · rw [Quoting.after_append, hfront.after_eq, hmiddle.after_eq]
  · intro pattern hpattern
    exact (hfront.hides pattern hpattern).append hfront.after_eq (hmiddle.hides pattern hpattern)
  · intro spans text position hposition hscanned
    rw [List.append_assoc] at hscanned ⊢
    rw [hfront.firstBracket?_eq spans text position hposition hscanned,
      hmiddle.firstBracket?_eq spans text _ (Nat.add_pos_left hposition _)
        (hscanned.append_right hfront.after_eq),
      List.length_append, Nat.add_assoc]

/-- A stretch that opens no bracket is overlooked if it hides the operators. -/
theorem of_clear
    (hclear : clear (· == '[') .outside front = true)
    (hhides : ∀ pattern ∈ operators, Hides pattern front rest) :
    Overlooked front rest :=
  ⟨after_of_clear hclear, hhides,
    fun _ _ _ _ hscanned => firstBracket?_append hscanned.tracks hclear⟩

theorem of_ordinary
    (h : ∀ c ∈ front, Query.Lexeme.Ordinary c) :
    Overlooked front rest :=
  of_clear (clear_mono opening_isCut (Query.Lexeme.clear_of_ordinary h))
    fun _ hpattern => hides_of_no_dot hpattern (not_mem_of_ordinary h)

theorem of_blank
    (h : Blank front) :
    Overlooked front rest :=
  of_ordinary fun c hc => Query.Lexeme.ordinary_of_isAsciiBlank (h c hc)

/-- A dot that no operator starts with, and ordinary characters behind it. -/
theorem of_dotted
    (hfront : ∀ c ∈ front, Query.Lexeme.Ordinary c)
    (hstart : ∀ pattern ∈ operators, startsWith pattern ('.' :: (front ++ rest)) = false) :
    Overlooked ('.' :: front) rest := by
  have hdot : clear (· == '[') .outside ['.'] = true := by
    decide
  have hclear := clear_append hdot
    (clear_mono opening_isCut (Query.Lexeme.clear_of_ordinary hfront))
  exact of_clear hclear fun pattern hpattern =>
    hides_dotted hpattern (not_mem_of_ordinary hfront) (hstart pattern hpattern)

theorem of_bracketed
    {before content after : List Char}
    {accessor : Accessor}
    (hbefore : Blank before)
    (hafter : Blank after)
    (hcontent : PlainContent content accessor) :
    Overlooked ('[' :: (before ++ content ++ after ++ [']'])) rest := by
  refine ⟨(PlainSegment.bracketed hbefore hafter hcontent).after_eq, ?_, ?_⟩
  · intro pattern hpattern
    exact hides_bracketed hpattern hbefore hafter hcontent
  · intro spans text position hposition hscanned
    have hsplit : '[' :: (before ++ content ++ after ++ [']']) ++ rest =
        '[' :: (before ++ content ++ after ++ ']' :: rest) := by
      simp
    have hlength : ('[' :: (before ++ content ++ after ++ [']'])).length =
        (before ++ content ++ after).length + 2 := by
      rw [List.length_cons, List.length_append]
      rfl
    rw [hsplit] at hscanned ⊢
    rw [hlength, firstBracket?_bracket hposition hscanned.drop hscanned.tracks
      (clear_mono closing_isCut (clear_padded hbefore hafter hcontent)),
      if_pos (hscanned.isPlainContent_bracket hbefore hafter hcontent)]

/-- A segment that another segment or nothing follows. -/
theorem of_segment
    {accessor : Accessor}
    (h : PlainSegment front accessor)
    (hrest : GoesOn rest) :
    Overlooked front rest := by
  cases h with
  | @dotted c more hstart hmore =>
      exact of_dotted (fun _ => Query.Lexeme.ordinary_of_mem_word hstart hmore)
        fun _ hpattern => startsWith_operator_dotted hpattern hstart hmore hrest
  | bracketed hbefore hafter hcontent => exact of_bracketed hbefore hafter hcontent

/-- A run of segments that another segment or nothing follows. -/
theorem of_spelled
    {accessors : List Accessor}
    (h : Spelled front accessors)
    (hrest : GoesOn rest) :
    Overlooked front rest := by
  induction h with
  | nil => exact nil rest
  | cons hsegment hmore ih => exact (of_segment hsegment (goesOn_spelled hmore hrest)).append ih

/-- A star at the end of a path is no operator. -/
theorem of_idle
    (h : Step.Idle front) :
    Overlooked front [] := by
  rcases h with rfl | rfl
  · exact nil []
  · refine @of_dotted ['*'] [] ?_ ?_
    · simp only [List.mem_singleton, forall_eq]
      constructor <;> decide
    · simp only [operators, List.mem_cons, List.not_mem_nil, or_false]
      rintro pattern (rfl | rfl | rfl) <;> rfl

end Overlooked

/-- What a search for brackets finds does not stand before the text that is searched. -/
theorem le_of_firstBracket?
    {spans : List Span}
    {text : List Char}
    {opened : Option Nat}
    {position p : Nat}
    {rest : List Char}
    (h : firstBracket? spans text opened position rest = some p) :
    position ≤ p ∨ opened = some p := by
  induction rest generalizing opened position with
  | nil =>
      cases h
  | cons c rest ih =>
      unfold firstBracket? at h
      have later {other : Option Nat}
          (hfound : firstBracket? spans text other (position + 1) rest = some p)
          (hother : other = some p → position ≤ p ∨ opened = some p) :
          position ≤ p ∨ opened = some p := by
        rcases ih hfound with hle | heq
        · exact Or.inl (by omega)
        · exact hother heq
      split at h
      · exact later h Or.inr
      · split at h
        · refine later h fun heq => Or.inl ?_
          split at heq
          · exact Nat.le_of_eq (Option.some.inj heq)
          · cases heq
        · dsimp only at h
          split at h
          · exact later h fun heq => nomatch heq
          · exact Or.inr h
        · exact later h Or.inr

/-- The positions of a text that its advanced part may start at. -/
def candidates
    (text : List Char) :
    List Nat :=
  operators.filterMap (firstOperator? (quotedSpans text) text) ++
    (firstBracket? (quotedSpans text) text none 0 text).toList

theorem mem_candidates
    {text : List Char}
    {p : Nat} :
    p ∈ candidates text ↔
      (∃ pattern ∈ operators, firstOperator? (quotedSpans text) text pattern = some p) ∨
        firstBracket? (quotedSpans text) text none 0 text = some p := by
  rw [candidates, List.mem_append, List.mem_filterMap, Option.mem_toList]

/-- A text is divided at the least position that its advanced part may start at. -/
theorem start?_eq_some_iff
    {text : List Char}
    {start : Nat} :
    start? text = some start ↔ start ∈ candidates text ∧ ∀ p ∈ candidates text, start ≤ p := by
  have hmin : start? text = (candidates text).min? := by
    change least? (candidates text) = (candidates text).min?
    cases candidates text <;> rfl
  rw [hmin]
  exact List.min?_eq_some_iff

section Start

variable {front rest : List Char}

/-- A search for an operator in a path passes over what is overlooked behind the root sign. -/
theorem firstOperator?_path
    {pattern : Pattern}
    (hpattern : pattern ∈ operators)
    (h : Overlooked front rest) :
    firstOperator? (quotedSpans ('$' :: front ++ rest)) ('$' :: front ++ rest) pattern =
      (occurrences pattern 0 ('$' :: front).length rest).find?
        (counts (quotedSpans ('$' :: front ++ rest))) := by
  have hroot : Hides pattern ['$'] (front ++ rest) := hides_of_no_dot hpattern (by decide)
  have hfind := find?_occurrences_append (tracks_quotedSpans ('$' :: front ++ rest))
    (hroot.append rfl (h.hides pattern hpattern))
  rw [Nat.zero_add] at hfind
  exact hfind

/-- The search for a bracket in a path comes to the end of what it overlooks. -/
theorem scanned_path
    (h : Overlooked front rest) :
    Scanned (quotedSpans ('$' :: front ++ rest)) ('$' :: front ++ rest)
      ('$' :: front).length rest := by
  have hafter : Quoting.outside.after ('$' :: front) = .outside := by
    rw [Quoting.after_cons]
    exact h.after_eq
  have hscanned := (scanned_start ('$' :: front ++ rest)).append_right hafter
  rwa [Nat.zero_add] at hscanned

theorem firstBracket?_path
    (h : Overlooked front rest) :
    firstBracket? (quotedSpans ('$' :: front ++ rest)) ('$' :: front ++ rest) none 0
        ('$' :: front ++ rest) =
      firstBracket? (quotedSpans ('$' :: front ++ rest)) ('$' :: front ++ rest) none
        ('$' :: front).length rest := by
  have hscanned : Scanned (quotedSpans ('$' :: front ++ rest)) ('$' :: front ++ rest) 0
      (['$'] ++ (front ++ rest)) :=
    scanned_start _
  have hroot := @firstBracket?_append _ ('$' :: front ++ rest) none 0 .outside _ _
    hscanned.tracks (by decide)
  have hbehind := h.firstBracket?_eq _ ('$' :: front ++ rest) _ (Nat.succ_pos 0)
    (hscanned.append_right rfl)
  rw [Nat.add_comm 1] at hbehind
  exact hroot.trans hbehind

/-- A path that is overlooked to its end is not divided. -/
theorem start?_eq_none
    (h : Overlooked front []) :
    start? ('$' :: front) = none := by
  have hpath : '$' :: front = '$' :: front ++ [] := (List.append_nil _).symm
  have hoperators : operators.filterMap
      (firstOperator? (quotedSpans ('$' :: front)) ('$' :: front)) = [] := by
    rw [List.filterMap_eq_nil_iff]
    intro pattern hpattern
    rw [hpath, firstOperator?_path hpattern h]
    rfl
  have hbracket : firstBracket? (quotedSpans ('$' :: front)) ('$' :: front) none 0
      ('$' :: front) = none := by
    rw [hpath, firstBracket?_path h]
    rfl
  rw [start?, hoperators, hbracket]
  rfl

/-- An operator right behind what is overlooked is the first one. -/
theorem firstOperator?_behind
    {pattern : Pattern}
    {c : Char}
    (hpattern : pattern ∈ operators)
    (h : Overlooked front (c :: rest))
    (hc : c = '.')
    (hstart : startsWith pattern (c :: rest) = true) :
    firstOperator? (quotedSpans ('$' :: front ++ c :: rest)) ('$' :: front ++ c :: rest) pattern =
      some ('$' :: front).length := by
  have huncovered := (scanned_path h).tracks.head
  subst hc
  have hcounts : counts (quotedSpans ('$' :: front ++ '.' :: rest)) ('$' :: front).length =
      true := by
    rw [counts, huncovered]
    rfl
  rw [firstOperator?_path hpattern h, occurrences, if_pos hstart,
    List.find?_cons_of_pos hcounts]

/-- The advanced part of a path starts behind what is overlooked. -/
theorem le_of_mem_candidates
    {p : Nat}
    (h : Overlooked front rest)
    (hp : p ∈ candidates ('$' :: front ++ rest)) :
    ('$' :: front).length ≤ p := by
  rcases mem_candidates.1 hp with ⟨pattern, hpattern, hfound⟩ | hfound
  · rw [firstOperator?_path hpattern h] at hfound
    exact le_of_mem_occurrences (List.mem_of_find?_eq_some hfound)
  · rw [firstBracket?_path h] at hfound
    rcases le_of_firstBracket? hfound with hle | hnone
    · exact hle
    · cases hnone

/-- A path with an advanced part is divided where the part starts. -/
theorem start?_advanced
    (h : Overlooked front rest)
    (hrest : AdvancedStart rest) :
    start? ('$' :: front ++ rest) = some ('$' :: front).length := by
  refine start?_eq_some_iff.2 ⟨?_, fun _ => le_of_mem_candidates h⟩
  rw [mem_candidates]
  cases hrest with
  | descent =>
      refine Or.inl ⟨[['.'], ['.']], by decide, ?_⟩
      exact firstOperator?_behind (by decide) h rfl rfl
  | star hnext =>
      refine Or.inl ⟨[['.'], ['*'], ['.', '[']], by decide, ?_⟩
      refine firstOperator?_behind (by decide) h rfl ?_
      rcases hnext with rfl | rfl <;> rfl
  | length =>
      refine Or.inl
        ⟨[['.'], ['l'], ['e'], ['n'], ['g'], ['t'], ['h'], ['('], [')']], by decide, ?_⟩
      exact firstOperator?_behind (by decide) h rfl rfl
  | @bracket content behind hclear hunplain =>
      have hscanned := scanned_path h
      have hplain := isPlainContent_unplain hscanned.tracks.tail hunplain
      have hposition : 0 < ('$' :: front).length := Nat.succ_pos _
      rw [firstBracket?_path h,
        firstBracket?_bracket hposition hscanned.drop hscanned.tracks hclear, hplain]
      exact Or.inr rfl

end Start

end Division
end Path
end FieldQuery
