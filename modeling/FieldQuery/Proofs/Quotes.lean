import FieldQuery.Path.Spelling

/-!
# Quoted spans and reading states

The quoted spans of a text are found by positions, while most arguments about
a path go through it one character at a time. This module ties the two views:
a position is covered by a span exactly when the character that stands there
is read inside quotes. It also has the lemmas about stretches of a text that
a search for some character passes over.
-/

namespace FieldQuery
namespace Path

namespace Quoting

@[simp] theorem after_nil
    (state : Quoting) :
    state.after [] = state :=
  rfl

@[simp] theorem after_cons
    (state : Quoting)
    (c : Char)
    (rest : List Char) :
    state.after (c :: rest) = (state.next c).after rest :=
  rfl

theorem after_append
    (state : Quoting)
    (front rest : List Char) :
    state.after (front ++ rest) = (state.after front).after rest :=
  List.foldl_append

/-- A character that is read outside quotes leaves reading outside them. -/
theorem eq_outside_of_not_covers
    {state : Quoting}
    {c : Char}
    (h : state.covers c = false) :
    state = .outside ∧ state.next c = .outside := by
  cases state with
  | outside =>
      simp only [covers, decide_eq_false_iff_not, Bool.or_eq_false_iff] at h
      simp [next, h.1, h.2]
  | inside quote =>
      simp [covers] at h
  | escaped quote =>
      simp [covers] at h

end Quoting

/-- Whether the character at a position is read inside quotes. -/
def coveredAt
    (state : Quoting) :
    List Char → Nat → Bool
  | [], _ => false
  | c :: _, 0 => state.covers c
  | c :: rest, i + 1 => coveredAt (state.next c) rest i

theorem coveredAt_append_right
    (state : Quoting)
    (front rest : List Char)
    (i : Nat) :
    coveredAt state (front ++ rest) (front.length + i) =
      coveredAt (state.after front) rest i := by
  induction front generalizing state with
  | nil =>
      simp
  | cons c front ih =>
      have hlength : (c :: front).length + i = (front.length + i) + 1 := by
        simp only [List.length_cons]
        omega
      rw [hlength, List.cons_append, coveredAt, ih]
      rfl

namespace QuoteState

/-- The reading state that a search for quotes is in. -/
def quoting :
    QuoteState → Quoting
  | outside => .outside
  | inside quote _ => .inside quote
  | escaped quote _ => .escaped quote

/-- The position of the quote that is open, if one is. -/
def opened? :
    QuoteState → Option Nat
  | outside => none
  | inside _ start => some start
  | escaped _ start => some start

/-- Where the search is after the character at a position. -/
def next
    (position : Nat) :
    QuoteState → Char → QuoteState
  | outside, c =>
      if c = '\'' || c = '"' then
        inside c position
      else
        outside
  | inside quote start, c =>
      if c = '\\' then
        escaped quote start
      else if c = quote then
        outside
      else
        inside quote start
  | escaped quote start, _ => inside quote start

/-- The span that the character at a position closes. -/
def closed
    (position : Nat) :
    QuoteState → Char → List Span
  | inside quote start, c =>
      if c ≠ '\\' ∧ c = quote then
        [⟨start, position + 1⟩]
      else
        []
  | _, _ => []

theorem quoting_next
    (position : Nat)
    (state : QuoteState)
    (c : Char) :
    (state.next position c).quoting = state.quoting.next c := by
  cases state with
  | outside =>
      change (next position outside c).quoting = Quoting.next .outside c
      rw [next, Quoting.next]
      split <;> rfl
  | inside quote start =>
      change (next position (inside quote start) c).quoting = Quoting.next (.inside quote) c
      rw [next, Quoting.next]
      split
      · rfl
      · split <;> rfl
  | escaped quote start =>
      rfl

/-- A quote that is open after a character was opened by it or open before. -/
theorem opened_of_next
    {position start : Nat}
    {state : QuoteState}
    {c : Char}
    (h : (state.next position c).opened? = some start) :
    start = position ∨ state.opened? = some start := by
  cases state with
  | outside =>
      simp only [next] at h
      split at h <;> simp_all [opened?]
  | inside quote opened =>
      simp only [next] at h
      split at h
      · exact Or.inr h
      · split at h <;> simp_all [opened?]
  | escaped quote opened =>
      exact Or.inr h

theorem mem_closed
    {position : Nat}
    {state : QuoteState}
    {c : Char}
    {span : Span}
    (h : span ∈ state.closed position c) :
    state.opened? = some span.start ∧ span.stop = position + 1 := by
  cases state with
  | inside quote start =>
      simp only [closed] at h
      split at h <;> simp_all [opened?]
  | _ => simp [closed] at h

end QuoteState

/-- One step of the search for spans. -/
theorem spansFrom_cons
    (state : QuoteState)
    (position : Nat)
    (c : Char)
    (rest : List Char) :
    spansFrom state position (c :: rest) =
      state.closed position c ++ spansFrom (state.next position c) (position + 1) rest := by
  cases state with
  | outside =>
      simp only [spansFrom, QuoteState.next, QuoteState.closed]
      split <;> rfl
  | inside quote start =>
      simp only [spansFrom, QuoteState.next, QuoteState.closed]
      split
      · next hescape =>
          simp [hescape]
      · next hescape =>
          split
          · next hclose =>
              rw [if_pos ⟨hescape, hclose⟩]
              rfl
          · next hclose =>
              simp [hclose]
  | escaped quote start =>
      rfl

/-- A span starts at the quote that was open or after the start of the search. -/
theorem start_of_mem_spansFrom
    {state : QuoteState}
    {position : Nat}
    {text : List Char}
    {span : Span}
    (h : span ∈ spansFrom state position text) :
    state.opened? = some span.start ∨ position ≤ span.start := by
  induction text generalizing state position with
  | nil =>
      cases state <;> simp_all [spansFrom, QuoteState.opened?]
  | cons c rest ih =>
      rw [spansFrom_cons, List.mem_append] at h
      rcases h with h | h
      · exact Or.inl (QuoteState.mem_closed h).1
      · rcases ih h with hopen | hafter
        · rcases QuoteState.opened_of_next hopen with hhere | hbefore
          · exact Or.inr (Nat.le_of_eq hhere.symm)
          · exact Or.inl hbefore
        · exact Or.inr (by omega)

/-- Positions in front of the search are covered only from a quote that was open. -/
theorem isCovered_spansFrom_of_lt
    {position i : Nat}
    {text : List Char}
    (h : i < position) :
    isCovered (spansFrom .outside position text) i = false := by
  rw [isCovered, List.any_eq_false]
  intro span hmem
  rcases start_of_mem_spansFrom hmem with hopen | hafter
  · simp [QuoteState.opened?] at hopen
  · simp only [Span.covers, Bool.and_eq_true, decide_eq_true_eq]
    omega

/-- While a quote is open, everything from it to the search is covered. -/
theorem isCovered_spansFrom_of_opened
    {state : QuoteState}
    {start position i : Nat}
    {text : List Char}
    (hopen : state.opened? = some start)
    (hstart : start ≤ i)
    (hi : i < position) :
    isCovered (spansFrom state position text) i = true := by
  induction text generalizing state position with
  | nil =>
      cases state <;>
        simp_all [spansFrom, QuoteState.opened?, isCovered, Span.covers]
  | cons c rest ih =>
      cases state with
      | outside =>
          simp [QuoteState.opened?] at hopen
      | inside quote opened =>
          simp only [QuoteState.opened?, Option.some.injEq] at hopen
          subst hopen
          rw [spansFrom]
          split
          · exact ih rfl (by omega)
          · split
            · have hspan : opened ≤ i ∧ i < position + 1 := ⟨hstart, by omega⟩
              simp [isCovered, Span.covers, hspan]
            · exact ih rfl (by omega)
      | escaped quote opened =>
          rw [spansFrom]
          exact ih hopen (by omega)

/-- The search covers its own position exactly if the character there is quoted. -/
theorem isCovered_spansFrom_self
    {state : QuoteState}
    {position : Nat}
    (c : Char)
    (rest : List Char)
    (hopen : ∀ start, state.opened? = some start → start ≤ position) :
    isCovered (spansFrom state position (c :: rest)) position = state.quoting.covers c := by
  cases state with
  | outside =>
      rw [spansFrom]
      split
      · next hquote =>
          rw [isCovered_spansFrom_of_opened rfl (Nat.le_refl _) (by omega)]
          simp [QuoteState.quoting, Quoting.covers, hquote]
      · next hquote =>
          rw [isCovered_spansFrom_of_lt (by omega)]
          simp [QuoteState.quoting, Quoting.covers, hquote]
  | inside quote start =>
      have hstart := hopen start rfl
      rw [spansFrom]
      split
      · exact isCovered_spansFrom_of_opened rfl hstart (by omega)
      · split
        · have hspan : start ≤ position ∧ position < position + 1 := ⟨hstart, by omega⟩
          simp [isCovered, Span.covers, hspan, QuoteState.quoting, Quoting.covers]
        · exact isCovered_spansFrom_of_opened rfl hstart (by omega)
  | escaped quote start =>
      rw [spansFrom]
      exact isCovered_spansFrom_of_opened rfl (hopen start rfl) (by omega)

/-- A position is covered exactly when its character is read inside quotes. -/
theorem isCovered_spansFrom
    {state : QuoteState}
    {position i : Nat}
    {text : List Char}
    (hopen : ∀ start, state.opened? = some start → start ≤ position)
    (hi : i < text.length) :
    isCovered (spansFrom state position text) (position + i) =
      coveredAt state.quoting text i := by
  induction text generalizing state position i with
  | nil =>
      simp at hi
  | cons c rest ih =>
      cases i with
      | zero =>
          exact isCovered_spansFrom_self c rest hopen
      | succ i =>
          have hnext : ∀ start, (state.next position c).opened? = some start →
              start ≤ position + 1 := by
            intro start h
            rcases QuoteState.opened_of_next h with hhere | hbefore
            · omega
            · have := hopen start hbefore
              omega
          have hclosed :
              isCovered (state.closed position c) (position + 1 + i) = false := by
            rw [isCovered, List.any_eq_false]
            intro span hmem
            have hstop := (QuoteState.mem_closed hmem).2
            simp only [Span.covers, Bool.and_eq_true, decide_eq_true_eq]
            omega
          have hrest := ih hnext (by simpa using hi : i < rest.length)
          have hsucc : position + (i + 1) = position + 1 + i := by omega
          rw [hsucc, spansFrom_cons, coveredAt, ← QuoteState.quoting_next position, ← hrest]
          rw [isCovered, List.any_append]
          rw [isCovered] at hclosed
          rw [hclosed, Bool.false_or]
          rfl

/-- The search goes on afresh behind a stretch that ends outside quotes. -/
theorem spansFrom_append
    {state : QuoteState}
    {position : Nat}
    {front : List Char}
    (rest : List Char)
    (hfront : state.quoting.after front = .outside) :
    spansFrom state position (front ++ rest) =
      spansFrom state position front ++
        spansFrom .outside (position + front.length) rest := by
  induction front generalizing state position with
  | nil =>
      cases state with
      | outside => simp [spansFrom]
      | _ => simp [QuoteState.quoting] at hfront
  | cons c front ih =>
      have hnext : (state.next position c).quoting.after front = .outside := by
        rwa [QuoteState.quoting_next]
      have hlength : position + (c :: front).length = position + 1 + front.length := by
        simp only [List.length_cons]
        omega
      rw [List.cons_append, spansFrom_cons, spansFrom_cons, ih hnext, List.append_assoc, hlength]

/--
Spans that tell, for every character of the rest of a text from a position
on, whether it is read inside quotes.
-/
def Tracks
    (spans : List Span)
    (state : Quoting)
    (position : Nat)
    (rest : List Char) : Prop :=
  ∀ i, i < rest.length → isCovered spans (position + i) = coveredAt state rest i

theorem tracks_quotedSpans
    (text : List Char) :
    Tracks (quotedSpans text) .outside 0 text := by
  intro i hi
  have hopen : ∀ start, QuoteState.opened? .outside = some start → start ≤ 0 := by
    simp [QuoteState.opened?]
  exact isCovered_spansFrom hopen hi

theorem Tracks.head
    {spans : List Span}
    {state : Quoting}
    {position : Nat}
    {c : Char}
    {rest : List Char}
    (h : Tracks spans state position (c :: rest)) :
    isCovered spans position = state.covers c := by
  have hzero := h 0 (by simp)
  rwa [Nat.add_zero, coveredAt] at hzero

theorem Tracks.tail
    {spans : List Span}
    {state : Quoting}
    {position : Nat}
    {c : Char}
    {rest : List Char}
    (h : Tracks spans state position (c :: rest)) :
    Tracks spans (state.next c) (position + 1) rest := by
  intro i hi
  have hsucc := h (i + 1) (by simpa using hi)
  rw [coveredAt] at hsucc
  rw [← hsucc]
  congr 1
  omega

theorem Tracks.append_right
    {spans : List Span}
    {state : Quoting}
    {position : Nat}
    {front rest : List Char}
    (h : Tracks spans state position (front ++ rest)) :
    Tracks spans (state.after front) (position + front.length) rest := by
  intro i hi
  have hlater := h (front.length + i) (by simpa using hi)
  rw [coveredAt_append_right] at hlater
  rw [← hlater]
  congr 1
  omega

/--
Whether no character of some kind stands outside quotes in a stretch of a
text, and the stretch ends outside quotes.
-/
def clear
    (kind : Char → Bool)
    (state : Quoting) :
    List Char → Bool
  | [] => state = .outside
  | c :: rest => (state.covers c || !kind c) && clear kind (state.next c) rest

section Clear

variable {kind : Char → Bool}
variable {state : Quoting}

theorem after_of_clear
    {text : List Char}
    (h : clear kind state text = true) :
    state.after text = .outside := by
  induction text generalizing state with
  | nil =>
      simpa [clear] using h
  | cons c rest ih =>
      simp only [clear, Bool.and_eq_true] at h
      exact ih h.2

theorem clear_append
    {front rest : List Char}
    (hfront : clear kind state front = true)
    (hrest : clear kind .outside rest = true) :
    clear kind state (front ++ rest) = true := by
  induction front generalizing state with
  | nil =>
      have hstate : state = .outside := by simpa [clear] using hfront
      simpa [hstate] using hrest
  | cons c front ih =>
      simp only [clear, Bool.and_eq_true] at hfront
      simp only [List.cons_append, clear, hfront.1, ih hfront.2, Bool.and_self]

theorem clear_mono
    {other : Char → Bool}
    (hkind : ∀ c, other c = true → kind c = true)
    {text : List Char}
    (h : clear kind state text = true) :
    clear other state text = true := by
  induction text generalizing state with
  | nil =>
      simpa [clear] using h
  | cons c rest ih =>
      simp only [clear, Bool.and_eq_true, Bool.or_eq_true] at h ⊢
      refine ⟨?_, ih h.2⟩
      rcases h.1 with hcovered | hkept
      · exact Or.inl hcovered
      · refine Or.inr ?_
        cases hother : other c with
        | false => rfl
        | true => simp [hkind c hother] at hkept

/-- Characters that are neither quotes nor of the kind make a clear stretch. -/
theorem clear_of_forall
    {text : List Char}
    (h : ∀ c ∈ text, Quoting.outside.covers c = false ∧ kind c = false) :
    clear kind .outside text = true := by
  induction text with
  | nil =>
      rfl
  | cons c rest ih =>
      have hc := h c List.mem_cons_self
      have hnext := (Quoting.eq_outside_of_not_covers hc.1).2
      have hrest := ih fun d hd => h d (List.mem_cons_of_mem c hd)
      simp [clear, hc.1, hc.2, hnext, hrest]

end Clear

/-- A quote starts no escape. -/
theorem ne_backslash_of_quote
    {quote : Char}
    (hquote : quote = '\'' ∨ quote = '"') :
    quote ≠ '\\' := by
  rintro rfl
  simp at hquote

/--
What stands between two quotes of one kind: characters other than the quote
and the backslash, and escapes of a backslash and any character.
-/
inductive QuotedBody (quote : Char) : List Char → Prop where
  | nil :
      QuotedBody quote []
  | plain
      {c : Char}
      {rest : List Char}
      (hquote : c ≠ quote)
      (hescape : c ≠ '\\')
      (hrest : QuotedBody quote rest) :
      QuotedBody quote (c :: rest)
  | escape
      {c : Char}
      {rest : List Char}
      (hrest : QuotedBody quote rest) :
      QuotedBody quote ('\\' :: c :: rest)

namespace QuotedBody

variable {quote : Char}

theorem append
    {front rest : List Char}
    (hfront : QuotedBody quote front)
    (hrest : QuotedBody quote rest) :
    QuotedBody quote (front ++ rest) := by
  induction hfront with
  | nil => exact hrest
  | plain hquote hescape _ ih => exact .plain hquote hescape ih
  | escape _ ih => exact .escape ih

theorem clear_inside
    (kind : Char → Bool)
    {body : List Char}
    (hquote : quote ≠ '\\')
    (h : QuotedBody quote body) :
    clear kind (.inside quote) (body ++ [quote]) = true := by
  induction h with
  | nil => simp [clear, Quoting.covers, Quoting.next, hquote]
  | plain hother hescape _ ih => simpa [clear, Quoting.covers, Quoting.next, hother, hescape] using ih
  | escape _ ih => simpa [clear, Quoting.covers, Quoting.next] using ih

/-- Where the quotes around a body end can be seen. -/
theorem append_inj
    {body other rest more : List Char}
    (hquote : quote ≠ '\\')
    (h : QuotedBody quote body)
    (hother : QuotedBody quote other)
    (heq : body ++ quote :: rest = other ++ quote :: more) :
    body = other := by
  induction h generalizing other with
  | nil =>
      cases hother with
      | nil => rfl
      | plain hne _ _ => exact absurd (List.cons.inj heq).1.symm hne
      | escape _ => exact absurd (List.cons.inj heq).1 hquote
  | plain hne hescape _ ih =>
      cases hother with
      | nil => exact absurd (List.cons.inj heq).1 hne
      | plain _ _ hrest =>
          obtain ⟨rfl, htail⟩ := List.cons.inj heq
          rw [ih hrest htail]
      | escape _ => exact absurd (List.cons.inj heq).1 hescape
  | escape _ ih =>
      cases hother with
      | nil => exact absurd (List.cons.inj heq).1.symm hquote
      | plain _ hescape _ => exact absurd (List.cons.inj heq).1.symm hescape
      | escape hrest =>
          obtain ⟨rfl, htail⟩ := List.cons.inj (List.cons.inj heq).2
          rw [ih hrest htail]

end QuotedBody

/-- A quoted text is clear of everything. -/
theorem clear_quoted
    (kind : Char → Bool)
    {quote : Char}
    {body : List Char}
    (hquote : quote = '\'' ∨ quote = '"')
    (h : QuotedBody quote body) :
    clear kind .outside (quote :: (body ++ [quote])) = true := by
  have hescape := ne_backslash_of_quote hquote
  simp [clear, Quoting.covers, Quoting.next, hquote, h.clear_inside kind hescape]

/-- A quoted text is one span. -/
theorem spansFrom_quoted
    {quote : Char}
    {body : List Char}
    (hquote : quote = '\'' ∨ quote = '"')
    (h : QuotedBody quote body)
    (position : Nat) :
    spansFrom .outside position (quote :: (body ++ [quote])) =
      [⟨position, position + (body.length + 2)⟩] := by
  have hescape := ne_backslash_of_quote hquote
  have hbody : ∀ start current,
      spansFrom (.inside quote start) current (body ++ [quote]) =
        [⟨start, current + body.length + 1⟩] := by
    intro start
    induction h with
    | nil =>
        intro current
        simp [spansFrom, hescape]
    | plain hother hplain _ ih =>
        intro current
        rw [List.cons_append, spansFrom, if_neg hplain, if_neg hother, ih, List.length_cons]
        congr 2
        omega
    | escape _ ih =>
        intro current
        rw [List.cons_append, List.cons_append, spansFrom, if_pos rfl, spansFrom, ih,
          List.length_cons, List.length_cons]
        congr 2
        omega
  rw [spansFrom, if_pos (by simpa using hquote), hbody]
  congr 2
  omega

/-- The characters of a stretch between the positions where it starts and stops. -/
theorem between_of_drop
    {text stretch rest : List Char}
    {start stop : Nat}
    (h : text.drop start = stretch ++ rest)
    (hstop : stop = start + stretch.length) :
    Division.between text start stop = stretch := by
  rw [Division.between, List.drop_take, h, hstop, Nat.add_sub_cancel_left, List.take_left]

/-- Behind a stretch, the rest of a text is what follows the stretch. -/
theorem drop_add_of_drop
    {text stretch rest : List Char}
    {start stop : Nat}
    (h : text.drop start = stretch ++ rest)
    (hstop : stop = start + stretch.length) :
    text.drop stop = rest := by
  rw [hstop, ← List.drop_drop, h, List.drop_left]

end Path
end FieldQuery
