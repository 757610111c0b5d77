import Mathlib.Algebra.GroupWithZero.Nat
import Mathlib.Data.List.Basic
import FieldQuery.Proofs.Loose
import FieldQuery.Proofs.Plan

/-!
# Spacing and plans

Two paths with the same pieces are planned alike if neither has blanks between
the tokens of its plain part, except in brackets. Of a path with such blanks
every one ends up in a key of its plan: so it is planned like no path without
them, if it is planned at all.
-/

namespace FieldQuery
namespace Path

open Query (Chain Token Lexeme)
open Query.Lexeme (isCut)
open Division (GoesOn)

/-- What the pieces behind a run leave to be evaluated: nothing, or the query that they make. -/
inductive Left
    (pieces : List Piece) :
    Option String → Prop where
  | nothing
      (hpieces : pieces = [] ∨ pieces.map Piece.token = [.dot, .star]) :
      Left pieces none
  | query
      {source : String}
      {chain : Chain}
      (hne : pieces ≠ [])
      (hstar : pieces.map Piece.token ≠ [.dot, .star])
      (hread : Chain.read (pieces.map Piece.token ++ [.endOfInput]) = .ok chain)
      (hcompile : Query.compile source = .ok ⟨chain, source⟩) :
      Left pieces (some source)

/-- The same pieces leave the same query. -/
theorem Left.sameQuery
    {pieces : List Piece}
    {first second : Option String}
    (hfirst : Left pieces first)
    (hsecond : Left pieces second) :
    SameQuery first second := by
  cases hfirst with
  | nothing hpieces =>
      cases hsecond with
      | nothing => trivial
      | query hne hstar => exact absurd hpieces (not_or_intro hne hstar)
  | query hne hstar hread hcompile =>
      cases hsecond with
      | nothing hpieces => exact absurd hpieces (not_or_intro hne hstar)
      | query _ _ hother hsource =>
          obtain rfl := Except.ok.inj (hread.symm.trans hother)
          exact ⟨_, hcompile, hsource⟩

/-- Plans that leave the same query agree on whether it is a length. -/
theorem isLengthOnly_of_sameQuery
    {plan other : Plan}
    (h : SameQuery plan.advanced other.advanced) :
    plan.isLengthOnly = other.isLengthOnly := by
  have hplan : plan.division.advanced = plan.advanced := rfl
  have hother : other.division.advanced = other.advanced := rfl
  simp only [Plan.isLengthOnly, Division.isLengthOnly, hplan, hother]
  cases hfirst : plan.advanced with
  | none =>
      cases hsecond : other.advanced with
      | none => rfl
      | some source =>
          rw [hfirst, hsecond] at h
          cases h
  | some first =>
      cases hsecond : other.advanced with
      | none =>
          rw [hfirst, hsecond] at h
          cases h
      | some second =>
          rw [hfirst, hsecond] at h
          obtain ⟨chain, hcompile, hsource⟩ := h
          simp only [hcompile, hsource]
          rfl

/-- Without blanks, a member name, a star or a call stands behind a dot. -/
theorem AfterDot.tight
    {stretch rest : List Char}
    {tokens : List Token}
    (h : AfterDot stretch tokens)
    (hblanks : blanksEnclosed .outside 0 (stretch ++ rest) = true) :
    (∃ c more token,
        stretch = c :: more ∧
        tokens = [token] ∧
        token.memberName? = some (String.ofList (c :: more)) ∧
        PlainSegment ('.' :: stretch) (.key (String.ofList (c :: more)))) ∨
      (stretch = ['*'] ∧ tokens = [.star]) ∨
      stretch = "length()".toList := by
  cases h with
  | @member blanks more c token hblank hstart hmore hname =>
      rw [List.append_assoc] at hblanks
      obtain rfl := eq_nil_of_blanksEnclosed hblank hblanks
      exact Or.inl ⟨c, more, token, rfl, rfl, hname, .dotted hstart hmore⟩
  | star hblank =>
      rw [List.append_assoc] at hblanks
      obtain rfl := eq_nil_of_blanksEnclosed hblank hblanks
      exact Or.inr (Or.inl ⟨rfl, rfl⟩)
  | length hfirst hsecond hthird =>
      rw [List.append_assoc] at hblanks
      obtain rfl := eq_nil_of_blanksEnclosed hfirst hblanks
      rw [List.nil_append, List.append_assoc] at hblanks
      have hcalled :=
        @blanksEnclosed_of_clear_isCut _ "length".toList _ (by decide +kernel) hblanks
      rw [List.append_assoc] at hcalled
      obtain rfl := eq_nil_of_blanksEnclosed hsecond hcalled
      rw [List.nil_append, List.cons_append, List.append_assoc] at hcalled
      obtain rfl := eq_nil_of_blanksEnclosed hthird (blanksEnclosed_tail (by decide) hcalled)
      exact Or.inr (Or.inr rfl)

namespace Loose

variable {ending front : List Char}
variable {pieces : List Piece}

/-- Without blanks in front, what is followed goes on with a segment. -/
theorem goesOn
    (h : Loose ending front pieces)
    (hblanks : blanksEnclosed .outside 0 front = true) :
    GoesOn (front ++ ending) := by
  have starts {blanks rest : List Char} {c : Char} (hblank : Blank blanks)
      (hc : c = '.' ∨ c = '[') (henclosed : blanksEnclosed .outside 0 (blanks ++ c :: rest) = true) :
      GoesOn (blanks ++ c :: rest ++ ending) := by
    obtain rfl := eq_nil_of_blanksEnclosed hblank henclosed
    intro d hd
    rwa [← Option.some.inj hd]
  rcases h with ⟨hblank, rfl⟩ | ⟨hblank, hstart⟩ | ⟨hblank⟩ | ⟨hblank⟩
  · obtain rfl := eq_nil_of_blank hblank hblanks
    simp [GoesOn]
  · obtain rfl := eq_nil_of_blank hblank hblanks
    exact Division.goesOn_advancedStart hstart
  · exact starts hblank (Or.inl rfl) hblanks
  · exact starts hblank (Or.inr rfl) hblanks

/-- Behind a star that is no operator, nothing is left if no blank is. -/
theorem nothing_of_star
    (h : Loose ending front pieces)
    (hblanks : blanksEnclosed .outside 0 front = true)
    (hfree : ¬ AdvancedStart ('.' :: '*' :: (front ++ ending))) :
    front = [] ∧ ending = [] ∧ pieces = [] := by
  have hend : front ++ ending = [] := by
    cases hsplit : front ++ ending with
    | nil => rfl
    | cons c more =>
        have hc := h.goesOn hblanks c (by rw [hsplit]; rfl)
        rw [hsplit] at hfree
        exact absurd (.star hc) hfree
  obtain ⟨rfl, rfl⟩ := List.append_eq_nil_iff.1 hend
  refine ⟨rfl, rfl, ?_⟩
  generalize hfront : ([] : List Char) = front at h
  cases h with
  | whole => rfl
  | advanced _ hstart => exact absurd hstart.two_le_length (by simp [← hfront])
  | dotted => simp at hfront
  | bracketed => simp at hfront

/-- Without blanks between tokens, what is followed is spelled. -/
theorem spelled
    (h : Loose ending front pieces)
    (hblanks : blanksEnclosed .outside 0 front = true) :
    ∃ spelled tail,
      front = spelled ++ tail ∧
      Spelled spelled (writtenRun pieces).1 ∧
      Step.Idle tail ∧
      Left (writtenRun pieces).2
        (if ending = [] then none else some (String.ofList ('$' :: ending))) := by
  induction h with
  | whole hblank hending =>
      obtain rfl := eq_nil_of_blank hblank hblanks
      exact ⟨[], [], rfl, .nil, Or.inl rfl, by rw [if_pos hending]; exact .nothing (Or.inl rfl)⟩
  | advanced hblank hstart hne hrun hstar hread hcompile =>
      obtain rfl := eq_nil_of_blank hblank hblanks
      have hending : ending ≠ [] :=
        List.ne_nil_of_length_pos (by have := hstart.two_le_length; omega)
      rw [hrun, if_neg hending]
      exact ⟨[], [], rfl, .nil, Or.inl rfl, .query hne hstar hread hcompile⟩
  | @dotted blanks stretch front dot inner rest hblank hdot hinner hfree hnext hrest ih =>
      obtain rfl := eq_nil_of_blanksEnclosed hblank hblanks
      have hstretch : blanksEnclosed .outside 0 (stretch ++ front) = true :=
        blanksEnclosed_tail (by decide) hblanks
      have hfront := blanksEnclosed_of_clear_isCut (Lexeme.clear_of_ordinary hinner.ordinary)
        hstretch
      rcases hinner.tight hstretch with ⟨c, more, token, rfl, hone, hname, hsegment⟩ |
        ⟨rfl, hone⟩ | rfl
      · obtain ⟨name, rfl, rfl⟩ := List.map_eq_singleton_iff.1 hone
        obtain ⟨spelled, tail, rfl, hspelled, hidle, hleft⟩ := ih hfront
        rw [List.singleton_append, writtenRun_member hdot hname hnext]
        exact ⟨'.' :: c :: more ++ spelled, tail, by simp, .cons hsegment hspelled, hidle, hleft⟩
      · obtain ⟨star, rfl, hstar⟩ := List.map_eq_singleton_iff.1 hone
        obtain ⟨rfl, rfl, rfl⟩ := hrest.nothing_of_star hfront hfree
        rw [List.singleton_append, writtenRun_star hdot hstar]
        exact ⟨[], ['.', '*'], rfl, .nil, Or.inr rfl, .nothing (Or.inr (by simp [hdot, hstar]))⟩
      · exact absurd .length hfree
  | @bracketed blanks before content after front accessor bracket rest hblank hbefore hafter
      hcontent hrun hrest ih =>
      obtain rfl := eq_nil_of_blanksEnclosed hblank hblanks
      have hfront : blanksEnclosed .outside 0 front = true := by
        refine blanksEnclosed_of_bracket (clear_padded hbefore hafter hcontent) ?_
        simpa using hblanks
      obtain ⟨spelled, tail, rfl, hspelled, hidle, hleft⟩ := ih hfront
      rw [hrun]
      exact ⟨'[' :: (before ++ content ++ after ++ [']']) ++ spelled, tail, by simp,
        .cons (.bracketed hbefore hafter hcontent) hspelled, hidle, hleft⟩

end Loose

/-- The number of blanks that separate tokens in the key of an accessor. -/
def keyBlanks :
    Accessor → Nat
  | .key name => name.toList.countP Text.isAsciiBlank
  | .index _ => 0

/-- The number of such blanks in the keys of some accessors. -/
def allKeyBlanks
    (accessors : List Accessor) :
    Nat :=
  (accessors.map keyBlanks).sum

@[simp] theorem allKeyBlanks_nil :
    allKeyBlanks [] = 0 :=
  rfl

@[simp] theorem allKeyBlanks_cons
    (accessor : Accessor)
    (rest : List Accessor) :
    allKeyBlanks (accessor :: rest) = keyBlanks accessor + allKeyBlanks rest :=
  List.sum_cons

@[simp] theorem allKeyBlanks_append
    (front rest : List Accessor) :
    allKeyBlanks (front ++ rest) = allKeyBlanks front + allKeyBlanks rest := by
  simp [allKeyBlanks]

/-- One if there are blanks between tokens outside brackets, and else nothing. -/
def spread
    (text : List Char) :
    Nat :=
  if blanksEnclosed .outside 0 text then
    0
  else
    1

/-- Ordinary characters spread what follows them no further than by their blanks. -/
theorem spread_append
    {front : List Char}
    (rest : List Char)
    (hfront : ∀ c ∈ front, Lexeme.Ordinary c) :
    spread (front ++ rest) ≤ front.countP Text.isAsciiBlank + spread rest := by
  induction front with
  | nil =>
      simp
  | cons c front ih =>
      have hrest := ih fun d hd => hfront d (List.mem_cons_of_mem _ hd)
      obtain ⟨hcovers, hcut⟩ := hfront c List.mem_cons_self
      have hdepth : depthAfter 0 c = 0 := by
        unfold depthAfter
        split <;> simp_all [isCut]
      rw [List.cons_append, List.countP_cons]
      cases hc : Text.isAsciiBlank c with
      | true =>
          have hle : spread (c :: (front ++ rest)) ≤ 1 := by
            rw [spread]
            split <;> omega
          simp only [if_true]
          omega
      | false =>
          have hsame : spread (c :: (front ++ rest)) = spread (front ++ rest) := by
            rw [spread, spread, blanksEnclosed, hcovers, hc,
              (Quoting.eq_outside_of_not_covers hcovers).2, hdepth]
            simp
          rw [hsame]
          simpa using hrest

theorem spread_dot
    (rest : List Char) :
    spread ('.' :: rest) = spread rest := by
  rfl

/-- In a bracket, blanks do not count until it is closed. -/
theorem blanksEnclosed_in_bracket
    {state : Quoting}
    {depth : Nat}
    {content rest : List Char}
    (hclear : clear isCut state content = true) :
    blanksEnclosed state (depth + 1) (content ++ rest) =
      blanksEnclosed .outside (depth + 1) rest := by
  induction content generalizing state with
  | nil =>
      have hstate : state = .outside := by simpa [clear] using hclear
      rw [hstate, List.nil_append]
  | cons c content ih =>
      simp only [clear, Bool.and_eq_true, Bool.or_eq_true] at hclear
      rw [List.cons_append, blanksEnclosed, ← ih hclear.2]
      cases hcovers : state.covers c with
      | true => rfl
      | false =>
          have hcut := hclear.1.resolve_left (by simp [hcovers])
          have hdepth : depthAfter (depth + 1) c = depth + 1 := by
            unfold depthAfter
            split <;> simp_all [isCut]
          simp [hdepth]

/-- A bracket spreads nothing. -/
theorem spread_bracket
    {content : List Char}
    (rest : List Char)
    (hclear : clear isCut .outside content = true) :
    spread ('[' :: (content ++ [']']) ++ rest) = spread rest := by
  have hinner := @blanksEnclosed_in_bracket .outside 0 content (']' :: rest) hclear
  have hopened : blanksEnclosed .outside 0 ('[' :: (content ++ ']' :: rest)) =
      blanksEnclosed .outside 1 (content ++ ']' :: rest) :=
    rfl
  have hclosed : blanksEnclosed .outside 1 (']' :: rest) = blanksEnclosed .outside 0 rest :=
    rfl
  rw [List.cons_append, List.append_assoc, spread, List.singleton_append, hopened, hinner, hclosed,
    spread]

section Parts

variable {accessors : List Accessor}

theorem exists_of_ofParts?_cons
    {part : Step.Part}
    {rest : List Step.Part}
    (h : Step.ofParts? (part :: rest) = some accessors) :
    ∃ accessor others,
      Step.ofPart? part = some accessor ∧
      Step.ofParts? rest = some others ∧
      accessors = accessor :: others := by
  rw [Step.ofParts?] at h
  split at h
  · next accessor others hpart hrest => exact ⟨accessor, others, hpart, hrest, (Option.some.inj h).symm⟩
  · cases h

/-- What was read in front of a part keeps its blanks. -/
theorem exists_of_ofParts?_flush
    {pending : List Char}
    {rest : List Step.Part}
    (h : Step.ofParts? (Step.Part.flush .bare pending ++ rest) = some accessors) :
    ∃ others,
      Step.ofParts? rest = some others ∧
      allKeyBlanks accessors = pending.countP Text.isAsciiBlank + allKeyBlanks others := by
  cases pending with
  | nil => exact ⟨accessors, h, by simp⟩
  | cons c pending =>
      have hflush : Step.Part.flush .bare (c :: pending) = [.bare (c :: pending).reverse] := by
        simp [Step.Part.flush]
      rw [hflush, List.singleton_append] at h
      obtain ⟨accessor, others, hpart, hrest, rfl⟩ := exists_of_ofParts?_cons h
      refine ⟨others, hrest, ?_⟩
      rw [allKeyBlanks_cons, ← Option.some.inj hpart, keyBlanks, String.toList_ofList,
        List.countP_reverse]

theorem ofParts?_concat
    {front : List Step.Part}
    {last : Step.Part}
    {accessor : Accessor}
    (hfront : Step.ofParts? front = some accessors)
    (hlast : Step.ofPart? last = some accessor) :
    Step.ofParts? (front ++ [last]) = some (accessors ++ [accessor]) := by
  induction front generalizing accessors with
  | nil =>
      obtain rfl := Option.some.inj hfront
      simp [Step.ofParts?, hlast]
  | cons part front ih =>
      obtain ⟨first, others, hpart, hrest, rfl⟩ := exists_of_ofParts?_cons hfront
      simp [Step.ofParts?, hpart, ih hrest]

/-- Parts are at most a final star more than they are without it. -/
theorem eq_or_eq_concat_withoutStar
    (all : List Step.Part) :
    all = Step.withoutStar all ∨ all = Step.withoutStar all ++ [.bare ['*']] := by
  rw [Step.withoutStar]
  split
  · next hstar =>
      simp only [Bool.and_eq_true, decide_eq_true_eq] at hstar
      exact Or.inr (List.dropLast_append_getLast? _ hstar.2).symm
  · exact Or.inl rfl

end Parts

/-- The name of a member holds no blanks, so a dot with its tokens adds none to a run. -/
theorem AfterDot.allKeyBlanks_writtenRun
    {stretch : List Char}
    {dot : Piece}
    {inner rest : List Piece}
    (h : AfterDot stretch (inner.map Piece.token))
    (hdot : dot.token = .dot)
    (hnext : rest.head?.map Piece.token ≠ some .openParen) :
    allKeyBlanks (writtenRun (dot :: (inner ++ rest))).1 ≤ allKeyBlanks (writtenRun rest).1 := by
  generalize htokens : inner.map Piece.token = tokens at h
  cases h with
  | @member blanks more c token hblanks hstart hmore hname =>
      obtain ⟨name, rfl, rfl⟩ := List.map_eq_singleton_iff.1 htokens
      have hword : (c :: more).countP Text.isAsciiBlank = 0 := by
        rw [List.countP_eq_zero]
        intro d hd hblank
        have hcontinues : Lexeme.continuesWord d = true := by
          rcases List.mem_cons.1 hd with rfl | hd
          · exact Lexeme.continuesWord_of_startsWord hstart
          · exact hmore d hd
        simp only [Text.isAsciiBlank, Bool.or_eq_true, decide_eq_true_eq] at hblank
        rcases hblank with ((rfl | rfl) | rfl) | rfl <;> exact absurd hcontinues (by decide +kernel)
      refine Nat.le_of_eq ?_
      rw [List.singleton_append, writtenRun_member hdot hname hnext, allKeyBlanks_cons, keyBlanks,
        String.toList_ofList, hword, Nat.zero_add]
  | star =>
      obtain ⟨star, rfl, hstar⟩ := List.map_eq_singleton_iff.1 htokens
      rw [List.singleton_append, writtenRun_star hdot hstar]
      exact Nat.zero_le _
  | length =>
      obtain ⟨name, others, rfl, -, hothers⟩ := List.map_eq_cons_iff.1 htokens
      obtain ⟨opening, others, rfl, hopening, -⟩ := List.map_eq_cons_iff.1 hothers
      rw [List.cons_append, List.cons_append, writtenRun_call hdot hopening]
      exact Nat.zero_le _

section Followed

variable {spans : List Span}
variable {position : Nat}

/-- Blanks become part of what is being read. -/
theorem parts_blanks
    {blanks rest : List Char}
    (pending : List Char)
    (hblanks : Blank blanks)
    (htracks : Tracks spans .outside position (blanks ++ rest)) :
    Step.parts spans false pending position (blanks ++ rest) =
        Step.parts spans false (blanks.reverse ++ pending) (position + blanks.length) rest ∧
      Tracks spans .outside (position + blanks.length) rest := by
  refine ⟨Step.parts_append false pending htracks (clear_of_blank hblanks), ?_⟩
  have hrest := htracks.append_right
  rwa [after_of_clear (clear_of_blank hblanks)] at hrest

/--
Whether the parts of a text, read with some characters pending, keep at least
so many blanks in the keys that they stand for.
-/
def Keeps
    (spans : List Span)
    (pending : List Char)
    (position : Nat)
    (text : List Char)
    (count : Nat) : Prop :=
  ∃ all,
    Step.parts spans false pending position text = some all ∧
    ∀ accessors, Step.ofParts? all = some accessors → count ≤ allKeyBlanks accessors

namespace Keeps

variable {blanks front : List Char}
variable {pending : List Char}
variable {count : Nat}

theorem mono
    {text : List Char}
    {fewer : Nat}
    (h : Keeps spans pending position text count)
    (hle : fewer ≤ count) :
    Keeps spans pending position text fewer := by
  obtain ⟨all, hall, hcount⟩ := h
  exact ⟨all, hall, fun accessors haccessors => Nat.le_trans hle (hcount accessors haccessors)⟩

theorem blank
    (hblanks : Blank blanks)
    (htracks : Tracks spans .outside position blanks) :
    Keeps spans pending position blanks
      (pending.countP Text.isAsciiBlank + spread blanks) := by
  have hspread := spread_append [] fun c hc => Lexeme.ordinary_of_isAsciiBlank (hblanks c hc)
  rw [← List.append_nil blanks] at htracks
  have hparts := (parts_blanks pending hblanks htracks).1
  rw [List.append_nil] at hspread hparts
  refine ⟨Step.Part.flush .bare (blanks.reverse ++ pending) ++ [], ?_, ?_⟩
  · rw [hparts, Step.parts, List.append_nil]
    rfl
  · intro accessors haccessors
    obtain ⟨others, hothers, hcount⟩ := exists_of_ofParts?_flush haccessors
    rw [hcount, List.countP_append, List.countP_reverse]
    have hnil : spread [] = 0 := rfl
    omega

variable (hrest : ∀ {pending position}, Tracks spans .outside position front →
  Keeps spans pending position front (pending.countP Text.isAsciiBlank + spread front + count))

include hrest

/-- Blanks in front of a dot go into the key before it, and those behind it into the next one. -/
theorem dotted
    {stretch : List Char}
    (hblanks : Blank blanks)
    (hstretch : ∀ c ∈ stretch, Lexeme.Ordinary c)
    (htracks : Tracks spans .outside position (blanks ++ ('.' :: stretch ++ front))) :
    Keeps spans pending position (blanks ++ ('.' :: stretch ++ front))
      (pending.countP Text.isAsciiBlank + spread (blanks ++ ('.' :: stretch ++ front)) +
        count) := by
  have hclear := Lexeme.clear_of_ordinary hstretch
  obtain ⟨hpassed, hbehind⟩ := parts_blanks pending hblanks htracks
  have hafter : Quoting.outside.after ('.' :: stretch) = .outside := by
    rw [Quoting.after_cons]
    exact after_of_clear hclear
  have hlast := hbehind.append_right
  rw [hafter] at hlast
  obtain ⟨all, hall, hle⟩ := @hrest stretch.reverse _ hlast
  refine ⟨Step.Part.flush .bare (blanks.reverse ++ pending) ++ all, ?_, ?_⟩
  · rw [hpassed, Step.parts_dotted _ hbehind hclear, hall]
    rfl
  · intro accessors haccessors
    obtain ⟨others, hothers, hcount⟩ := exists_of_ofParts?_flush haccessors
    have hstep := hle others hothers
    have hblank := spread_append ('.' :: stretch ++ front)
      fun c hc => Lexeme.ordinary_of_isAsciiBlank (hblanks c hc)
    have hspread := spread_append front hstretch
    rw [List.cons_append, spread_dot] at hblank
    rw [List.countP_reverse] at hstep
    rw [hcount, List.countP_append, List.countP_reverse, List.cons_append]
    omega

/-- Blanks in front of a bracket go into the key before it, and a key in it keeps its own. -/
theorem bracketed
    {before content after : List Char}
    {accessor : Accessor}
    (hblanks : Blank blanks)
    (hbefore : Blank before)
    (hafter : Blank after)
    (hcontent : PlainContent content accessor)
    (htracks : Tracks spans .outside position
      (blanks ++ ('[' :: (before ++ content ++ after ++ [']']) ++ front))) :
    Keeps spans pending position (blanks ++ ('[' :: (before ++ content ++ after ++ [']']) ++ front))
      (pending.countP Text.isAsciiBlank +
        spread (blanks ++ ('[' :: (before ++ content ++ after ++ [']']) ++ front)) +
        (keyBlanks accessor + count)) := by
  have hclear := clear_padded hbefore hafter hcontent
  obtain ⟨hpassed, hbehind⟩ := parts_blanks pending hblanks htracks
  have hlast := hbehind.append_right
  rw [(PlainSegment.bracketed hbefore hafter hcontent).after_eq] at hlast
  obtain ⟨all, hall, hle⟩ := @hrest [] _ hlast
  have hne : before ++ content ++ after ≠ [] := by
    obtain ⟨first, -, ⟨hfirst, -⟩, -⟩ := hcontent.ends
    exact List.ne_nil_of_mem (a := first) (by simp [List.mem_of_mem_head? hfirst])
  refine ⟨Step.Part.flush .bare (blanks.reverse ++ pending) ++
    .bracketed (before ++ content ++ after) :: all, ?_, ?_⟩
  · rw [List.length_cons, List.length_append, List.length_singleton] at hall
    rw [hpassed, Step.parts_bracket _ hbehind hclear hne, hall]
    rfl
  · intro accessors haccessors
    obtain ⟨others, hothers, hcount⟩ := exists_of_ofParts?_flush haccessors
    obtain ⟨first, more, hfirst, hmore, rfl⟩ := exists_of_ofParts?_cons hothers
    have hsame : first = accessor :=
      Option.some.inj (hfirst.symm.trans (Step.bracketed?_padded hbefore hafter hcontent))
    have hstep := hle more hmore
    have hblank := spread_append ('[' :: (before ++ content ++ after ++ [']']) ++ front)
      fun c hc => Lexeme.ordinary_of_isAsciiBlank (hblanks c hc)
    rw [spread_bracket front hclear] at hblank
    rw [List.countP_nil] at hstep
    rw [hcount, List.countP_append, List.countP_reverse, allKeyBlanks_cons, hsame]
    omega

end Keeps

/-- The parts of a followed text keep all of its blanks, and those in the keys of the run. -/
theorem Loose.keeps
    {ending front : List Char}
    {pieces : List Piece}
    (h : Loose ending front pieces)
    (pending : List Char)
    (htracks : Tracks spans .outside position front) :
    Keeps spans pending position front
      (pending.countP Text.isAsciiBlank + spread front + allKeyBlanks (writtenRun pieces).1) := by
  induction h generalizing pending position with
  | whole hblanks => exact .blank hblanks htracks
  | advanced hblanks _ _ hrun =>
      rw [hrun]
      exact .blank hblanks htracks
  | dotted hblanks hdot hinner _ hnext _ ih =>
      have hrun := hinner.allKeyBlanks_writtenRun hdot hnext
      exact (Keeps.dotted (ih _) hblanks hinner.ordinary htracks).mono (Nat.add_le_add_left hrun _)
  | bracketed hblanks hbefore hafter hcontent hrun _ ih =>
      rw [hrun, allKeyBlanks_cons]
      exact .bracketed (ih _) hblanks hbefore hafter hcontent htracks

end Followed

section Plans

variable {path other : String}
variable {query otherQuery : Query}
variable {ending front : List Char}
variable {pieces : List Piece}

/--
The steps of a followed text, if it has any: they keep all blanks between its
tokens, and those in the keys of the run.
-/
theorem Loose.accessors_of_steps
    {steps : List Step}
    (h : Loose ending front pieces)
    (hpath : path.toList = '$' :: front)
    (hsteps : Step.ofText? path = some steps) :
    ∃ accessors,
      steps = .root :: accessors.map .access ∧
      spread front + allKeyBlanks (writtenRun pieces).1 ≤ allKeyBlanks accessors := by
  have htracks := tracks_quotedSpans ('$' :: front)
  obtain ⟨all, hall, hle⟩ := h.keeps ['$'] htracks.tail
  have hparts : Step.parts (quotedSpans ('$' :: front)) false [] 0 ('$' :: front) = some all := by
    rw [Step.parts, if_pos (by simp)]
    exact hall
  rw [Step.ofText?, hpath, hparts, Option.map_some] at hsteps
  split at hsteps
  · next rest hstar =>
      obtain ⟨accessors, haccessors, rfl⟩ := Option.map_eq_some_iff.1 hsteps
      refine ⟨accessors, rfl, ?_⟩
      have hroot : Step.ofParts? (.bare ['$'] :: rest) = some (.key "$" :: accessors) := by
        rw [Step.ofParts?, haccessors]
        rfl
      have hdollar : keyBlanks (.key "$") = 0 := by decide
      have hasterisk : keyBlanks (.key "*") = 0 := by decide
      have hpending : ['$'].countP Text.isAsciiBlank = 0 := by decide
      have hwithout := Option.some.inj hstar
      rcases eq_or_eq_concat_withoutStar all with heq | heq
      · rw [heq, hwithout] at hle
        have hcount := hle _ hroot
        rw [allKeyBlanks_cons] at hcount
        omega
      · rw [heq, hwithout] at hle
        have hcount := hle _ (ofParts?_concat hroot (rfl : Step.ofPart? (.bare ['*']) = _))
        rw [allKeyBlanks_append, allKeyBlanks_cons, allKeyBlanks_cons, allKeyBlanks_nil] at hcount
        have hkey : Accessor.key (String.ofList ['*']) = .key "*" := rfl
        rw [hkey] at hcount
        omega
  · cases hsteps

/-- The contexts and the last step of a run tell the run. -/
theorem endpoints_injective
    {first second : List Accessor}
    (h : Plan.endpoints (.root :: first.map .access) =
      Plan.endpoints (.root :: second.map .access)) :
    first = second := by
  rw [← accessors_endpoints first, h, accessors_endpoints]

/-- A plan takes its plain part for its steps. -/
theorem exists_plan_of_steps
    {accessors : List Accessor}
    (hcompile : Query.compile path = .ok query)
    (hsteps : Step.ofText? (Division.ofText path).plain = some (.root :: accessors.map .access)) :
    ∃ plan,
      Plan.compile .full path = .ok plan ∧
      plan.advanced = (Division.ofText path).advanced ∧
      (plan.contexts, plan.last) = Plan.endpoints (.root :: accessors.map .access) := by
  refine ⟨_, by rw [compile_of_ok hcompile, hsteps], rfl, rfl⟩

/-- Without blanks between its tokens, a path is planned by its pieces. -/
theorem Loose.exists_plan_of_enclosed
    (h : Loose ending front pieces)
    (hpath : path.toList = '$' :: (front ++ ending))
    (hcompile : Query.compile path = .ok query)
    (hblanks : blanksEnclosed .outside 0 front = true) :
    ∃ plan,
      Plan.compile .full path = .ok plan ∧
      (plan.contexts, plan.last) =
        Plan.endpoints (.root :: (writtenRun pieces).1.map .access) ∧
      Left (writtenRun pieces).2 plan.advanced := by
  obtain ⟨hplain, hadvanced⟩ := h.division hpath
  obtain ⟨spelled, tail, rfl, hspelled, hidle, hleft⟩ := h.spelled hblanks
  obtain ⟨plan, hplan, hsame, hsteps⟩ :=
    exists_plan_of_steps hcompile (Step.ofText?_spelled hplain hspelled hidle)
  refine ⟨plan, hplan, hsteps, ?_⟩
  rw [hsame, hadvanced]
  exact hleft

/--
A path whose plain part has no blanks between tokens, except in brackets, is
planned like another path with the same pieces exactly if the other one has no
such blanks either.
-/
theorem plannedAlike_iff
    (hpath : Query.compile path = .ok query)
    (hother : Query.compile other = .ok otherQuery)
    (hpieces : pieces? path = pieces? other)
    (hspaced : plainlySpaced other = true) :
    PlannedAlike path other ↔ plainlySpaced path = true := by
  obtain ⟨front, ending, pieces, htext, hfound, hloose⟩ := exists_loose hpath
  obtain ⟨otherFront, otherEnding, otherPieces, hotherText, hotherFound, hotherLoose⟩ :=
    exists_loose hother
  obtain rfl : pieces = otherPieces := by
    rw [hfound, hotherFound] at hpieces
    exact (List.cons.inj (Option.some.inj hpieces)).2
  have hplain := (hloose.division htext).1
  have hotherPlain := (hotherLoose.division hotherText).1
  rw [plainlySpaced, hotherPlain] at hspaced
  obtain ⟨plan, hplan, hsteps, hleft⟩ := hotherLoose.exists_plan_of_enclosed hotherText hother
    (blanksEnclosed_tail (by decide) hspaced)
  rw [plainlySpaced, hplain, PlannedAlike, hplan]
  constructor
  · intro halike
    by_contra hspread
    have hone : spread front = 1 := if_neg hspread
    cases hfirst : Plan.compile .full path with
    | error error =>
        rw [hfirst] at halike
        exact halike
    | ok first =>
        rw [hfirst] at halike
        obtain ⟨hcontexts, hlast, -, -⟩ := halike
        rw [compile_of_ok hpath] at hfirst
        split at hfirst
        · cases hfirst
        · next steps hfirstSteps =>
            obtain ⟨accessors, rfl, hle⟩ := hloose.accessors_of_steps hplain hfirstSteps
            obtain rfl := Except.ok.inj hfirst
            have hends := hsteps.symm.trans (Prod.ext hcontexts.symm hlast.symm)
            rw [← endpoints_injective hends] at hle
            omega
  · intro hspaced
    obtain ⟨first, hfirst, hfirstSteps, hfirstLeft⟩ := hloose.exists_plan_of_enclosed htext hpath
      (blanksEnclosed_tail (by decide) hspaced)
    rw [hfirst]
    obtain ⟨hcontexts, hlast⟩ := Prod.mk.inj (hfirstSteps.trans hsteps.symm)
    have hsame := hfirstLeft.sameQuery hleft
    exact ⟨hcontexts, hlast, isLengthOnly_of_sameQuery hsame, hsame⟩

end Plans

/-- Blanks in a bracket and in an advanced part change nothing about a plan. -/
theorem plannedAlike_iff_padded :
    ∃ query otherQuery,
      Query.compile "$.a[ 0 ]..  b" = .ok query ∧
      Query.compile "$.a[0]..b" = .ok otherQuery ∧
      pieces? "$.a[ 0 ]..  b" = pieces? "$.a[0]..b" ∧
      plainlySpaced "$.a[0]..b" = true ∧
      PlannedAlike "$.a[ 0 ]..  b" "$.a[0]..b" := by
  have hpath : Query.compile "$.a[ 0 ]..  b" =
      .ok ⟨⟨[.choose (.access (.key "a")), .choose (.access (.index 0)), .descent,
        .choose (.access (.key "b"))], none⟩, "$.a[ 0 ]..  b"⟩ := by
    decide +kernel
  have hother : Query.compile "$.a[0]..b" =
      .ok ⟨⟨[.choose (.access (.key "a")), .choose (.access (.index 0)), .descent,
        .choose (.access (.key "b"))], none⟩, "$.a[0]..b"⟩ := by
    decide +kernel
  have hpieces : pieces? "$.a[ 0 ]..  b" = pieces? "$.a[0]..b" := by
    decide +kernel
  have hspaced : plainlySpaced "$.a[0]..b" = true := by
    decide +kernel
  exact ⟨_, _, hpath, hother, hpieces, hspaced,
    (plannedAlike_iff hpath hother hpieces hspaced).2 (by decide +kernel)⟩

/-- A blank behind a bare key becomes a part of the key. -/
theorem not_plannedAlike_behind_key :
    ∃ query otherQuery,
      Query.compile "$.a .b" = .ok query ∧
      Query.compile "$.a.b" = .ok otherQuery ∧
      pieces? "$.a .b" = pieces? "$.a.b" ∧
      ¬ PlannedAlike "$.a .b" "$.a.b" := by
  have hpath : Query.compile "$.a .b" =
      .ok ⟨⟨[.choose (.access (.key "a")), .choose (.access (.key "b"))], none⟩, "$.a .b"⟩ := by
    decide +kernel
  have hother : Query.compile "$.a.b" =
      .ok ⟨⟨[.choose (.access (.key "a")), .choose (.access (.key "b"))], none⟩, "$.a.b"⟩ := by
    decide +kernel
  have hplan : Plan.compile .full "$.a .b" =
      .ok ⟨"$.a .b", ⟨"$.a .b", none⟩, [.key "a "], .access (.key "b")⟩ := by
    decide +kernel
  have hotherPlan : Plan.compile .full "$.a.b" =
      .ok ⟨"$.a.b", ⟨"$.a.b", none⟩, [.key "a"], .access (.key "b")⟩ := by
    decide +kernel
  refine ⟨_, _, hpath, hother, by decide +kernel, ?_⟩
  rw [PlannedAlike, hplan, hotherPlan]
  rintro ⟨hcontexts, -⟩
  exact absurd hcontexts (by decide)

end Path
end FieldQuery
