import Mathlib.Data.List.Find
import FieldQuery.Proofs.AdvancedParts

/-!
# Division is final

The two parts of a divided path are divided no further: the plain part has no
advanced part, and the advanced part starts right behind its root sign. This
holds of any text, also of one that is no path at all. A stretch of a text that
starts and ends outside quotes is quoted in the same places by itself as in the
text, so each search finds in the stretch what it finds there in the text.
-/

namespace FieldQuery
namespace Path

/-- The same span in a text with some more characters in front. -/
def Span.behind
    (count : Nat)
    (span : Span) :
    Span :=
  ⟨count + span.start, count + span.stop⟩

/-- The same state in a text with some more characters in front. -/
def QuoteState.behind
    (count : Nat) :
    QuoteState → QuoteState
  | outside => outside
  | inside quote start => inside quote (count + start)
  | escaped quote start => escaped quote (count + start)

/-- Characters in front of a text move its quoted spans and change nothing else. -/
theorem spansFrom_behind
    (count : Nat)
    (state : QuoteState)
    (position : Nat)
    (text : List Char) :
    spansFrom (state.behind count) (count + position) text =
      (spansFrom state position text).map (Span.behind count) := by
  induction text generalizing state position with
  | nil =>
      cases state <;> rfl
  | cons c rest ih =>
      have hclosed : (state.behind count).closed (count + position) c =
          (state.closed position c).map (Span.behind count) := by
        cases state with
        | inside quote start =>
            simp only [QuoteState.behind, QuoteState.closed]
            split <;> rfl
        | _ => rfl
      have hnext : (state.behind count).next (count + position) c =
          (state.next position c).behind count := by
        cases state with
        | outside =>
            simp only [QuoteState.behind, QuoteState.next]
            split <;> rfl
        | inside quote start =>
            simp only [QuoteState.behind, QuoteState.next]
            split
            · rfl
            · split <;> rfl
        | escaped quote start => rfl
      rw [spansFrom_cons, spansFrom_cons, List.map_append, hclosed, hnext, ← ih, Nat.add_assoc]

/-- A span has a character in it and ends with the text at the latest. -/
theorem bounds_of_mem_spansFrom
    {state : QuoteState}
    {position : Nat}
    {text : List Char}
    {span : Span}
    (hopen : ∀ start, state.opened? = some start → start < position)
    (h : span ∈ spansFrom state position text) :
    span.start < span.stop ∧ span.stop ≤ position + text.length := by
  induction text generalizing state position with
  | nil =>
      cases state with
      | outside => cases h
      | inside quote start =>
          obtain rfl := List.mem_singleton.1 h
          exact ⟨hopen start rfl, Nat.le_refl _⟩
      | escaped quote start =>
          obtain rfl := List.mem_singleton.1 h
          exact ⟨hopen start rfl, Nat.le_refl _⟩
  | cons c rest ih =>
      rw [List.length_cons]
      rw [spansFrom_cons, List.mem_append] at h
      rcases h with h | h
      · obtain ⟨hstart, hstop⟩ := QuoteState.mem_closed h
        have hlt := hopen _ hstart
        omega
      · have hnext : ∀ start, (state.next position c).opened? = some start →
            start < position + 1 := by
          intro start hstart
          rcases QuoteState.opened_of_next hstart with hhere | hbefore
          · omega
          · have hlt := hopen start hbefore
            omega
        have hbounds := ih hnext h
        omega

/-- A stretch of a text, in front of which the text is outside quotes and behind which it is
outside quotes, too, or at its end. -/
structure Stretch
    (before shared rest : List Char) : Prop where
  before_eq : Quoting.outside.after before = .outside
  shared_eq : rest = [] ∨ Quoting.outside.after shared = .outside

namespace Stretch

variable {before shared rest : List Char}

/-- The quoted spans of a text inside a stretch of it are the quoted spans of the stretch. -/
theorem mem_quotedSpans_iff
    (h : Stretch before shared rest)
    {start stop : Nat}
    (hstop : stop ≤ shared.length) :
    ⟨before.length + start, before.length + stop⟩ ∈ quotedSpans (before ++ (shared ++ rest)) ↔
      ⟨start, stop⟩ ∈ quotedSpans shared := by
  have hbehind : (spansFrom .outside (0 + before.length) shared) =
      (quotedSpans shared).map (Span.behind before.length) := by
    rw [Nat.zero_add]
    exact spansFrom_behind before.length .outside 0 shared
  have hmap : ⟨before.length + start, before.length + stop⟩ ∈
      (quotedSpans shared).map (Span.behind before.length) ↔
        ⟨start, stop⟩ ∈ quotedSpans shared := by
    rw [List.mem_map]
    constructor
    · rintro ⟨⟨first, last⟩, hmem, heq⟩
      simp only [Span.behind, Span.mk.injEq, Nat.add_left_cancel_iff] at heq
      rwa [← heq.1, ← heq.2]
    · exact fun hmem => ⟨_, hmem, rfl⟩
  have hfront : ⟨before.length + start, before.length + stop⟩ ∉ spansFrom .outside 0 before := by
    intro hmem
    have hbounds := bounds_of_mem_spansFrom (by simp [QuoteState.opened?]) hmem
    simp only at hbounds
    omega
  have hsplit := @spansFrom_append .outside 0 before (shared ++ rest) h.before_eq
  rw [quotedSpans, hsplit, List.mem_append, or_iff_right hfront, ← hmap, ← hbehind]
  rcases h.shared_eq with rfl | hshared
  · rw [List.append_nil]
  · have hbehind := @spansFrom_append .outside (0 + before.length) shared rest hshared
    rw [hbehind, List.mem_append, or_iff_left]
    intro hmem
    have hbounds := bounds_of_mem_spansFrom (by simp [QuoteState.opened?]) hmem
    have hstart := start_of_mem_spansFrom hmem
    simp [QuoteState.opened?] at hstart hbounds
    omega

/-- The characters of a stretch are quoted in the text as in the stretch. -/
theorem isCovered_eq
    (h : Stretch before shared rest)
    {i : Nat}
    (hi : i < shared.length) :
    isCovered (quotedSpans (before ++ (shared ++ rest))) (before.length + i) =
      coveredAt .outside shared i := by
  have htracks := (tracks_quotedSpans (before ++ (shared ++ rest))).append_right
  rw [h.before_eq, Nat.zero_add] at htracks
  rw [htracks i (by rw [List.length_append]; omega), Division.coveredAt_append_left _ _ _ hi]

/-- In front of a text, the text is quoted as its front is by itself. -/
theorem isCovered_front
    (h : Stretch [] shared rest)
    {i : Nat}
    (hi : i < shared.length) :
    isCovered (quotedSpans (shared ++ rest)) (0 + i) = isCovered (quotedSpans shared) (0 + i) :=
  (h.isCovered_eq hi).trans (tracks_quotedSpans shared i hi).symm

end Stretch

namespace Division

section Occurrences

variable {pattern : Pattern}
variable {front rest : List Char}

/-- A text has a character at each place of a pattern that it starts with. -/
theorem length_le_of_startsWith_text
    (h : startsWith pattern front = true) :
    pattern.length ≤ front.length := by
  induction pattern generalizing front with
  | nil => exact Nat.zero_le _
  | cons allowed pattern ih =>
      cases front with
      | nil => cases h
      | cons c front =>
          rw [startsWith, Bool.and_eq_true] at h
          exact Nat.succ_le_succ (ih h.2)

/-- A pattern that a stretch is long enough for is looked for in the stretch alone. -/
theorem startsWith_append
    (h : pattern.length ≤ front.length) :
    startsWith pattern (front ++ rest) = startsWith pattern front := by
  induction pattern generalizing front with
  | nil => rfl
  | cons allowed pattern ih =>
      cases front with
      | nil => cases h
      | cons c front => rw [List.cons_append, startsWith, startsWith, ih (Nat.le_of_succ_le_succ h)]

theorem occurrences_eq_nil
    {skip position : Nat}
    (h : front.length < pattern.length) :
    occurrences pattern skip position front = [] := by
  induction front generalizing skip position with
  | nil => rfl
  | cons c front ih =>
      have hshort : front.length < pattern.length := by
        rw [List.length_cons] at h
        omega
      cases skip with
      | succ skip => exact ih hshort
      | zero =>
          have hstart : ¬ startsWith pattern (c :: front) = true := fun hstart =>
            absurd (length_le_of_startsWith_text hstart) (Nat.not_le.2 h)
          rw [occurrences, if_neg hstart]
          exact ih hshort

/-- The first occurrences of a pattern in a text are the ones in the front of the text. -/
theorem occurrences_front
    (skip position : Nat) :
    occurrences pattern skip position front <+:
      occurrences pattern skip position (front ++ rest) := by
  induction front generalizing skip position with
  | nil => exact List.nil_prefix
  | cons c front ih =>
      cases skip with
      | succ skip => exact ih skip (position + 1)
      | zero =>
          by_cases hlength : pattern.length ≤ (c :: front).length
          · have hstart := @startsWith_append pattern (c :: front) rest hlength
            rw [List.cons_append] at hstart ⊢
            rw [occurrences, occurrences, hstart]
            split
            · exact List.cons_prefix_cons.2 ⟨rfl, ih _ _⟩
            · exact ih 0 (position + 1)
          · -- what reaches over the end of the front leaves no room for another one in it
            rw [occurrences_eq_nil (Nat.not_le.1 hlength)]
            exact List.nil_prefix

/-- The operator that is found in the front of a text is found in the text. -/
theorem firstOperator?_append
    {p : Nat}
    (hrest : rest = [] ∨ Quoting.outside.after front = .outside)
    (h : firstOperator? (quotedSpans front) front pattern = some p) :
    firstOperator? (quotedSpans (front ++ rest)) (front ++ rest) pattern = some p := by
  have hstretch : Stretch [] front rest := ⟨rfl, hrest⟩
  have hcounts : ∀ q ∈ occurrences pattern 0 0 front,
      counts (quotedSpans (front ++ rest)) q = counts (quotedSpans front) q := by
    intro q hq
    obtain ⟨i, hi, rfl, -⟩ := mem_occurrences hq
    rw [counts, counts, hstretch.isCovered_front hi]
  obtain ⟨more, hmore⟩ := @occurrences_front pattern front rest 0 0
  have hfront : (occurrences pattern 0 0 front).find? (counts (quotedSpans (front ++ rest))) =
      some p :=
    (List.find?_congr hcounts).trans h
  change (occurrences pattern 0 0 (front ++ rest)).find? (counts _) = some p
  rw [← hmore, List.find?_append, hfront]
  rfl

end Occurrences

section Brackets

variable {spans : List Span}
variable {text rest : List Char}
variable {opened : Option Nat}
variable {position p : Nat}

theorem firstBracket?_opening
    (h : isCovered spans position = false) :
    firstBracket? spans text none position ('[' :: rest) =
      firstBracket? spans text (if 0 < position then some position else none) (position + 1)
        rest := by
  simp [firstBracket?, h]

theorem firstBracket?_closing
    {start : Nat}
    (h : isCovered spans position = false) :
    firstBracket? spans text (some start) position (']' :: rest) =
      if isPlainContent spans (between text (start + 1) position) (start + 1) then
        firstBracket? spans text none (position + 1) rest
      else
        some start := by
  simp [firstBracket?, h]

/-- A search passes over what is quoted and what opens or closes nothing. -/
theorem firstBracket?_passed
    {c : Char}
    (h : isCovered spans position = true ∨ c ≠ turning opened) :
    firstBracket? spans text opened position (c :: rest) =
      firstBracket? spans text opened (position + 1) rest := by
  rcases h with hcovered | hturning
  · simp [firstBracket?, hcovered]
  · cases opened with
    | none =>
        have hopening : c ≠ '[' := hturning
        simp [firstBracket?, hopening]
    | some start =>
        have hclosing : c ≠ ']' := hturning
        simp [firstBracket?, hclosing]

/-- What is not passed over stands outside quotes and opens or closes a bracket. -/
theorem turns_of_not_passed
    {c : Char}
    (h : ¬ (isCovered spans position = true ∨ c ≠ turning opened)) :
    isCovered spans position = false ∧ c = turning opened := by
  simpa [not_or] using h

/--
The bracket that a search finds is not the first character and stands outside
quotes, and a search from there finds it.
-/
theorem firstBracket?_self
    (hdrop : text.drop position = rest)
    (hopened : ∀ start, opened = some start →
      (0 < start ∧ isCovered spans start = false) ∧
        firstBracket? spans text none start (text.drop start) =
          firstBracket? spans text opened position rest)
    (h : firstBracket? spans text opened position rest = some p) :
    (0 < p ∧ isCovered spans p = false) ∧
      firstBracket? spans text none p (text.drop p) = some p := by
  induction rest generalizing opened position with
  | nil => cases h
  | cons c rest ih =>
      have hbehind : text.drop (position + 1) = rest := @drop_add_of_drop text [c] _ _ _ hdrop rfl
      by_cases hpassed : isCovered spans position = true ∨ c ≠ turning opened
      · rw [firstBracket?_passed hpassed] at h hopened
        exact ih hbehind hopened h
      · obtain ⟨hcovered, hturning⟩ := turns_of_not_passed hpassed
        cases opened with
        | none =>
            obtain rfl : c = '[' := hturning
            have hstep := @firstBracket?_opening spans text rest position hcovered
            rw [hstep] at h
            refine ih hbehind ?_ h
            intro start hstart
            split at hstart
            · next hposition =>
                obtain rfl := Option.some.inj hstart
                rw [hdrop, hstep]
                exact ⟨⟨hposition, hcovered⟩, rfl⟩
            · cases hstart
        | some start =>
            obtain rfl : c = ']' := hturning
            rw [firstBracket?_closing hcovered] at h
            split at h
            · refine ih hbehind ?_ h
              intro start hstart
              cases hstart
            · next hunplain =>
                obtain rfl := Option.some.inj h
                obtain ⟨hstart, hself⟩ := hopened start rfl
                rw [firstBracket?_closing hcovered, if_neg hunplain] at hself
                exact ⟨hstart, hself⟩

end Brackets

section Shared

variable {before there shared rest : List Char}
variable {position : Nat}

/-- What stands between two positions of a stretch stands there in the text. -/
theorem between_stretch
    {start stop : Nat}
    (hstop : stop ≤ shared.length) :
    between (before ++ (shared ++ rest)) (before.length + start) (before.length + stop) =
      between shared start stop := by
  rw [between, List.take_length_add_append, List.take_append_of_le_length hstop,
    List.drop_length_add_append]
  rfl

theorem length_between_le
    (text : List Char)
    (start stop : Nat) :
    (between text start stop).length ≤ stop - start := by
  rw [between, List.length_drop, List.length_take]
  omega

/-- The content of a bracket in a stretch is plain in the text if it is in the stretch. -/
theorem isPlainContent_stretch
    {content : List Char}
    (h : Stretch before shared rest)
    (hcontent : position + content.length ≤ shared.length) :
    isPlainContent (quotedSpans (before ++ (shared ++ rest))) content (before.length + position) =
      isPlainContent (quotedSpans shared) content position := by
  have htrim : (Text.trimEnd content).length ≤ content.length := by
    have hsuffix := (List.dropWhile_suffix Text.isBlank : _ <:+ content.reverse).length_le
    rwa [List.length_reverse, ← List.length_reverse] at hsuffix
  have hstop : position + (Text.trimEnd content).length ≤ shared.length := by
    omega
  have hmem := @Stretch.mem_quotedSpans_iff _ _ _ h
    (position + (content.length - (Text.trimStart content).length)) _ hstop
  have hcontains : ∀ {spans other : List Span} {span moved : Span},
      (moved ∈ spans ↔ span ∈ other) → spans.contains moved = other.contains span := by
    intro spans other span moved hiff
    rw [Bool.eq_iff_iff, List.contains_iff_mem, List.contains_iff_mem, hiff]
  rw [isPlainContent, isPlainContent]
  simp only [Nat.add_assoc, Nat.add_lt_add_iff_left]
  rw [hcontains hmem]

/-- Two texts that look the same to a search for brackets: one from a first position, the other
from a second one, and so many characters long. -/
structure Alike
    (text : List Char)
    (first : Nat)
    (other : List Char)
    (second length : Nat) : Prop where
  first_eq_zero_iff : first = 0 ↔ second = 0
  isCovered_eq :
    ∀ i < length,
      isCovered (quotedSpans text) (first + i) = isCovered (quotedSpans other) (second + i)
  isPlainContent_eq :
    ∀ start stop, start ≤ stop → stop ≤ length →
      isPlainContent (quotedSpans text) (between text (first + start) (first + stop))
          (first + start) =
        isPlainContent (quotedSpans other) (between other (second + start) (second + stop))
          (second + start)

/-- A stretch looks the same in each text that it is a stretch of, if it is at the front of both or
of none. -/
theorem Alike.of_stretches
    {more : List Char}
    (hfirst : Stretch before shared rest)
    (hsecond : Stretch there shared more)
    (hfront : before = [] ↔ there = []) :
    Alike (before ++ (shared ++ rest)) before.length (there ++ (shared ++ more)) there.length
      shared.length where
  first_eq_zero_iff := by
    rwa [List.length_eq_zero_iff, List.length_eq_zero_iff]
  isCovered_eq i hi := (hfirst.isCovered_eq hi).trans (hsecond.isCovered_eq hi).symm
  isPlainContent_eq start stop hle hstop := by
    have hcontent : start + (between shared start stop).length ≤ shared.length := by
      have hlength := length_between_le shared start stop
      omega
    rw [between_stretch hstop, between_stretch hstop, isPlainContent_stretch hfirst hcontent,
      isPlainContent_stretch hsecond hcontent]

/-- A bracket in front of everything is no start, wherever that front is. -/
theorem opened_map
    {first count : Nat}
    (position : Nat)
    (h : count = 0 ↔ first = 0) :
    (if 0 < count + position then some (count + position) else none) =
      (if 0 < first + position then some position else none).map (count + ·) := by
  by_cases hpositive : 0 < first + position
  · rw [if_pos hpositive, if_pos (by omega), Option.map_some]
  · rw [if_neg hpositive, if_neg (by omega), Option.map_none]

/-- What the search for a bracket finds in one of two texts that are alike, it finds in the other
one, however that goes on. -/
theorem Alike.firstBracket?_eq_some
    {text other todo : List Char}
    {first second found : Nat}
    {opened : Option Nat}
    (halike : Alike text first other second (position + todo.length))
    (hopened : ∀ start, opened = some start → start < position)
    (h : firstBracket? (quotedSpans text) text (opened.map (first + ·)) (first + position) todo =
      some found) :
    ∃ p,
      found = first + p ∧
      firstBracket? (quotedSpans other) other (opened.map (second + ·)) (second + position)
        (todo ++ rest) = some (second + p) := by
  induction todo generalizing position opened with
  | nil => cases h
  | cons c todo ih =>
      rw [List.length_cons, ← Nat.add_assoc, Nat.add_right_comm] at halike
      have hlength : position < position + 1 + todo.length := by
        omega
      have hcovered := halike.isCovered_eq position hlength
      have further {next : Option Nat} := @ih (position + 1) next halike
      have hkept : ∀ start, opened = some start → start < position + 1 :=
        fun start hstart => Nat.lt_succ_of_lt (hopened start hstart)
      have hturns : ∀ count : Nat, turning (opened.map (count + ·)) = turning opened := by
        intro count
        cases opened <;> rfl
      rw [List.cons_append]
      by_cases hpassed : isCovered (quotedSpans text) (first + position) = true ∨ c ≠ turning opened
      · rw [firstBracket?_passed (by rwa [hturns])] at h
        rw [firstBracket?_passed (by rwa [← hcovered, hturns])]
        exact further hkept h
      · obtain ⟨hcover, hturning⟩ := turns_of_not_passed hpassed
        have hother := hcovered ▸ hcover
        cases opened with
        | none =>
            obtain rfl : c = '[' := hturning
            rw [Option.map_none, firstBracket?_opening hcover,
              opened_map position (Iff.refl (first = 0))] at h
            rw [Option.map_none, firstBracket?_opening hother,
              opened_map position halike.first_eq_zero_iff.symm]
            refine further ?_ h
            intro start hstart
            split at hstart
            · exact Option.some.inj hstart ▸ Nat.lt_succ_self _
            · cases hstart
        | some start =>
            obtain rfl : c = ']' := hturning
            have hplain := halike.isPlainContent_eq (start + 1) position (hopened start rfl)
              hlength.le
            rw [Option.map_some, firstBracket?_closing hcover, Nat.add_assoc, hplain] at h
            rw [Option.map_some, firstBracket?_closing hother, Nat.add_assoc second start]
            split at h
            · next hcontent =>
                rw [if_pos hcontent]
                exact @further none (fun _ hnone => nomatch hnone) h
            · next hcontent =>
                rw [if_neg hcontent]
                exact ⟨start, (Option.some.inj h).symm, rfl⟩

end Shared

section Start

variable {text : List Char}
variable {start : Nat}

/-- An advanced part starts at a character outside quotes, which is not the first one. -/
theorem bounds_of_mem_candidates
    (h : start ∈ candidates text) :
    (0 < start ∧ isCovered (quotedSpans text) start = false) ∧ start < text.length := by
  rcases mem_candidates.1 h with ⟨pattern, -, hfound⟩ | hfound
  · obtain ⟨i, hi, rfl, -⟩ := mem_occurrences (List.mem_of_find?_eq_some hfound)
    have hcounts := List.find?_some hfound
    simp only [Bool.and_eq_true, decide_eq_true_eq, Bool.not_eq_true'] at hcounts
    exact ⟨hcounts, by omega⟩
  · obtain ⟨hbounds, hself⟩ := firstBracket?_self rfl (by simp) hfound
    refine ⟨hbounds, ?_⟩
    by_contra hlength
    rw [List.drop_eq_nil_of_le (Nat.le_of_not_lt hlength)] at hself
    cases hself

/-- The plain part of a text ends outside quotes. -/
theorem after_take_start
    (h : start ∈ candidates text) :
    Quoting.outside.after (text.take start) = .outside := by
  obtain ⟨⟨-, hcovered⟩, hlength⟩ := bounds_of_mem_candidates h
  have htracks := tracks_quotedSpans text
  rw [← List.take_append_drop start text] at htracks
  have hrest := htracks.append_right
  rw [List.take_append_drop, List.length_take_of_le hlength.le, Nat.zero_add,
    List.drop_eq_getElem_cons hlength] at hrest
  exact (Quoting.eq_outside_of_not_covers (hrest.head.symm.trans hcovered)).1

/-- Nothing in the front of a text is taken for the start of an advanced part but what is in the
text. -/
theorem candidates_front
    {front rest : List Char}
    {p : Nat}
    (hfront : Quoting.outside.after front = .outside)
    (h : p ∈ candidates front) :
    p ∈ candidates (front ++ rest) := by
  rcases mem_candidates.1 h with ⟨pattern, hpattern, hfound⟩ | hfound
  · refine mem_candidates.2 (Or.inl ⟨pattern, hpattern, ?_⟩)
    exact firstOperator?_append (Or.inr hfront) hfound
  · have hwhole : Stretch [] front [] := ⟨rfl, Or.inl rfl⟩
    have hstretch : Stretch [] front rest := ⟨rfl, Or.inr hfront⟩
    have halike := Alike.of_stretches hwhole hstretch Iff.rfl
    simp only [List.nil_append, List.append_nil, List.length_nil] at halike
    rw [← Nat.zero_add front.length] at halike
    obtain ⟨q, rfl, hlater⟩ := @Alike.firstBracket?_eq_some rest 0 front (front ++ rest) front 0 0 p
      none halike (fun _ hnone => nomatch hnone) hfound
    rw [Nat.zero_add]
    exact mem_candidates.2 (Or.inr (by simpa using hlater))

/-- The plain part of a text has no advanced part. -/
theorem start?_take
    (h : start? text = some start) :
    start? (text.take start) = none := by
  obtain ⟨hstart, hleast⟩ := start?_eq_some_iff.1 h
  cases hplain : start? (text.take start) with
  | none => rfl
  | some p =>
      obtain ⟨hp, -⟩ := start?_eq_some_iff.1 hplain
      have hlt := (bounds_of_mem_candidates hp).2
      have hlater := @candidates_front _ (text.drop start) p (after_take_start hstart) hp
      rw [List.take_append_drop] at hlater
      have hle := hleast p hlater
      rw [List.length_take] at hlt
      omega

/-- The advanced part of a text starts right behind its root sign. -/
theorem start?_drop
    (h : start? text = some start) :
    start? ('$' :: text.drop start) = some 1 := by
  obtain ⟨hstart, -⟩ := start?_eq_some_iff.1 h
  obtain ⟨⟨hpositive, -⟩, hlength⟩ := bounds_of_mem_candidates hstart
  have hnothing : Overlooked [] (text.drop start) := .nil _
  rcases mem_candidates.1 hstart with ⟨pattern, hpattern, hfound⟩ | hfound
  · obtain ⟨i, -, rfl, hoccurs⟩ := mem_occurrences (List.mem_of_find?_eq_some hfound)
    rw [Nat.zero_add]
    exact start?_advanced (.nil _) (advancedStart_of_startsWith hpattern hoccurs)
  · refine start?_eq_some_iff.2
      ⟨mem_candidates.2 (Or.inr ?_), fun _ => le_of_mem_candidates hnothing⟩
    obtain ⟨-, hself⟩ := firstBracket?_self rfl (by simp) hfound
    have htake : (text.take start).length = start := List.length_take_of_le hlength.le
    have hempty : text.take start = [] ↔ ['$'] = [] := by
      simp only [← List.length_eq_zero_iff, htake, List.length_singleton]
      omega
    have hstretch : Stretch (text.take start) (text.drop start) [] :=
      ⟨after_take_start hstart, Or.inl rfl⟩
    have hrooted : Stretch ['$'] (text.drop start) [] := ⟨rfl, Or.inl rfl⟩
    have halike := Alike.of_stretches hstretch hrooted hempty
    rw [List.append_nil, List.take_append_drop, htake, ← Nat.zero_add (text.drop start).length]
      at halike
    obtain ⟨p, hp, hmoved⟩ := @Alike.firstBracket?_eq_some [] 0 text ('$' :: text.drop start)
      (text.drop start) start 1 start none halike (fun _ hnone => nomatch hnone) hself
    obtain rfl : p = 0 := by omega
    rw [List.append_nil] at hmoved
    exact (firstBracket?_path hnothing).trans hmoved

end Start

end Division

/--
The two parts of a divided text put together again are the text, and neither
part is divided any further: the plain part has no advanced part, and nothing
but the root sign stands in front of the advanced part.
-/
theorem division_final
    (text : String) :
    Division.ofText (Division.ofText text).plain = ⟨(Division.ofText text).plain, none⟩ ∧
    match (Division.ofText text).advanced with
    | none => (Division.ofText text).plain = text
    | some advanced =>
        (∃ rest, advanced = "$" ++ rest ∧ (Division.ofText text).plain ++ rest = text) ∧
        Division.ofText advanced = ⟨"$", some advanced⟩ := by
  cases hstart : Division.start? text.toList with
  | none =>
      have hwhole : Division.ofText text = ⟨text, none⟩ := by
        rw [Division.ofText, hstart]
      rw [hwhole]
      exact ⟨hwhole, rfl⟩
  | some start =>
      have hparts : Division.ofText text = ⟨String.ofList (text.toList.take start),
          some (String.ofList ('$' :: text.toList.drop start))⟩ := by
        rw [Division.ofText, hstart]
      rw [hparts]
      refine ⟨?_, ⟨String.ofList (text.toList.drop start), ?_, ?_⟩, ?_⟩
      · rw [Division.ofText, String.toList_ofList, Division.start?_take hstart]
      · rw [← String.toList_inj]
        simp
      · rw [← String.toList_inj]
        simp
      · rw [Division.ofText, String.toList_ofList, Division.start?_drop hstart]
        rfl

/--
The cut is at the first operator outside quotes, here at two dots, and the
advanced part begins with it; the star behind it is left to the advanced part.
-/
example :
    Division.ofText "$.a['x..y']..b[0].*.c" = ⟨"$.a['x..y']", some "$..b[0].*.c"⟩ ∧
      Division.ofText "$.a['x..y']" = ⟨"$.a['x..y']", none⟩ ∧
      Division.ofText "$..b[0].*.c" = ⟨"$", some "$..b[0].*.c"⟩ := by
  decide +kernel

/-- An operator behind a quote that is never closed is no operator. -/
example :
    Division.ofText "a['x..y'].*.*[?@.b]['..c" = ⟨"a['x..y']", some "$.*.*[?@.b]['..c"⟩ := by
  decide +kernel

end Path
end FieldQuery
