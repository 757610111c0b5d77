import FieldQuery.Proofs.Redivision
import FieldQuery.Proofs.Writing

/-!
# The texts of steps, read again

The text of a step puts a backslash before each apostrophe of a key, but not
before a backslash, while the reader of a path drops every backslash. So a path
that is joined from the texts of steps is read as these steps, and has no
advanced part, exactly if no key has a backslash. In one direction each text is
a plain bracket. In the other the path is followed bracket by bracket: a bracket
that is read as a key and is no operator holds one quoted body, and the escapes
of the body tell that the key had no backslash.
-/

namespace FieldQuery
namespace Path

open Query.Lexeme (isCut signText)

namespace Step

/-- The path that is joined from the texts of the root and of some steps. -/
def joined
    (accessors : List Accessor) :
    String :=
  String.join ((root :: accessors.map access).map text)

/-- The characters of a key with a backslash before each apostrophe. -/
def apostrophesEscaped
    (name : List Char) :
    List Char :=
  name.flatMap fun c =>
    if c = '\'' then
      ['\\', '\'']
    else
      [c]

/-- What stands between the brackets of the text of a step. -/
def content :
    Accessor → List Char
  | .key name => '\'' :: (apostrophesEscaped name.toList ++ ['\''])
  | .index i => (toString i).toList

/-- The characters of the texts of some steps. -/
def body
    (accessors : List Accessor) :
    List Char :=
  accessors.flatMap fun accessor => '[' :: (content accessor ++ [']'])

theorem toList_text
    (accessor : Accessor) :
    (access accessor).text.toList = '[' :: (content accessor ++ [']']) := by
  cases accessor with
  | key name => simp [text, content, apostrophesEscaped]
  | index i => simp [text, content]

theorem toList_joined
    (accessors : List Accessor) :
    (joined accessors).toList = '$' :: body accessors := by
  have htexts : accessors.flatMap (fun accessor => (access accessor).text.toList) =
      body accessors := by
    simp only [toList_text, body]
  rw [joined, String.toList_join, List.map_cons, List.flatMap_cons, List.map_map,
    List.flatMap_map, ← htexts]
  rfl

theorem apostrophesEscaped_apostrophe
    (name : List Char) :
    apostrophesEscaped ('\'' :: name) = '\\' :: '\'' :: apostrophesEscaped name :=
  rfl

theorem apostrophesEscaped_of_ne
    {c : Char}
    (name : List Char)
    (h : c ≠ '\'') :
    apostrophesEscaped (c :: name) = c :: apostrophesEscaped name := by
  simp [apostrophesEscaped, h]

/-- What the first character of an escaped key is, up to the quote behind the key. -/
theorem apostrophesEscaped_split
    {c : Char}
    {front name rest : List Char}
    (h : c :: front = apostrophesEscaped name ++ '\'' :: rest) :
    (name = [] ∧ c = '\'') ∨
    (∃ more, name = '\'' :: more ∧ c = '\\' ∧
      front = '\'' :: (apostrophesEscaped more ++ '\'' :: rest)) ∨
    ∃ more, name = c :: more ∧ front = apostrophesEscaped more ++ '\'' :: rest := by
  cases name with
  | nil => exact Or.inl ⟨rfl, (List.cons.inj h).1⟩
  | cons d more =>
      by_cases hd : d = '\''
      · subst hd
        rw [apostrophesEscaped_apostrophe] at h
        exact Or.inr (Or.inl ⟨more, rfl, List.cons.inj h⟩)
      · rw [apostrophesEscaped_of_ne more hd] at h
        obtain ⟨rfl, hfront⟩ := List.cons.inj h
        exact Or.inr (Or.inr ⟨more, rfl, hfront⟩)

/-- Without a backslash in it, a key is read back from the quotes around it. -/
theorem reread_of_no_backslash
    {name : List Char}
    (h : '\\' ∉ name) :
    QuotedBody '\'' (apostrophesEscaped name) ∧ unescaped (apostrophesEscaped name) = name := by
  induction name with
  | nil => exact ⟨.nil, rfl⟩
  | cons c name ih =>
      obtain ⟨hc, hname⟩ := not_or.1 (mt List.mem_cons.2 h)
      obtain ⟨hbody, hread⟩ := ih hname
      by_cases hquote : c = '\''
      · subst hquote
        rw [apostrophesEscaped_apostrophe]
        exact ⟨.escape hbody, by rw [unescaped, hread]⟩
      · rw [apostrophesEscaped_of_ne name hquote]
        refine ⟨.plain hquote (Ne.symm hc) hbody, ?_⟩
        rw [unescaped, hread]
        · exact fun heq => absurd heq (Ne.symm hc)
        · exact fun _ _ heq => absurd heq (Ne.symm hc)

/-- Where something else than a backslash is read first, no backslash was to be read before. -/
theorem eq_cons_of_replicate
    {c : Char}
    {read name : List Char}
    {count : Nat}
    (hc : c ≠ '\\')
    (h : c :: read = List.replicate count '\\' ++ name) :
    count = 0 ∧ name = c :: read := by
  cases count with
  | zero => exact ⟨rfl, h.symm⟩
  | succ count => exact absurd (List.cons.inj h).1 hc

/-- A backslash more to be read may as well belong to those that are to be read before. -/
theorem replicate_append_backslash
    (count : Nat)
    (name : List Char) :
    List.replicate count '\\' ++ '\\' :: name =
      List.replicate (count + 1) '\\' ++ name := by
  rw [List.replicate_succ', List.append_assoc]
  rfl

/--
A key has no backslash if it is what is read from the quoted body that its text
starts with. Behind a backslash of the key, reading would lag by a backslash: the
body spends one on the next character.
-/
theorem no_backslash_of_reread
    {name quoted tail rest : List Char}
    (count : Nat)
    (hbody : QuotedBody '\'' quoted)
    (hsplit : quoted ++ '\'' :: tail = apostrophesEscaped name ++ '\'' :: rest)
    (hread : unescaped quoted = List.replicate count '\\' ++ name) :
    count = 0 ∧ '\\' ∉ name := by
  induction hbody generalizing name count with
  | nil =>
      obtain ⟨hcount, rfl⟩ := List.append_eq_nil_iff.1 hread.symm
      exact ⟨(List.replicate_eq_nil_iff _).1 hcount, List.not_mem_nil⟩
  | @plain c quoted hquote hescape _ ih =>
      rw [unescaped] at hread
      · obtain ⟨rfl, rfl⟩ := eq_cons_of_replicate hescape hread
        rw [apostrophesEscaped_of_ne _ hquote] at hsplit
        obtain ⟨-, hname⟩ := ih 0 (List.cons.inj hsplit).2 rfl
        exact ⟨rfl, by simp [hname, Ne.symm hescape]⟩
      · exact fun heq => absurd heq hescape
      · exact fun _ _ heq => absurd heq hescape
  | @escape c quoted hquoted ih =>
      rw [unescaped] at hread
      obtain ⟨-, hquote⟩ | ⟨more, rfl, -, hrest⟩ | ⟨more, rfl, hrest⟩ :=
        apostrophesEscaped_split hsplit
      · exact absurd hquote (by decide)
      · obtain ⟨rfl, hbehind⟩ := List.cons.inj hrest
        obtain ⟨rfl, hname⟩ := eq_cons_of_replicate (by decide) hread
        obtain ⟨-, hfree⟩ := ih 0 hbehind (List.cons.inj hname).2.symm
        exact ⟨rfl, by simp [hfree]⟩
      · -- the key has a backslash here, and the body spends its next one on it
        rw [replicate_append_backslash] at hread
        obtain ⟨rfl, hlater⟩ := List.cons.inj hread
        obtain ⟨-, hquote⟩ | ⟨name, rfl, -, hbehind⟩ | ⟨name, rfl, hbehind⟩ :=
          apostrophesEscaped_split hrest
        · exact absurd hquote (by decide)
        · cases hquoted with
          | nil => exact absurd hlater (by simp [unescaped])
          | plain hquote _ _ => exact absurd (List.cons.inj hbehind).1 hquote
          | escape _ => exact absurd (List.cons.inj hbehind).1 (by decide)
        · have hmore := hlater.trans (replicate_append_backslash count name)
          exact absurd (ih (count + 1) hbehind hmore).1 (Nat.succ_ne_zero count)

end Step

/-- Inside quotes that are closed in a stretch, there is a quoted body in front. -/
theorem exists_quotedBody_of_clear
    {kind : Char → Bool}
    {quote : Char}
    {text : List Char} :
    (clear kind (.inside quote) text = true →
      ∃ body junk, text = body ++ quote :: junk ∧ QuotedBody quote body) ∧
    (clear kind (.escaped quote) text = true →
      ∃ c body junk, text = c :: (body ++ quote :: junk) ∧ QuotedBody quote body) := by
  induction text with
  | nil => simp [clear]
  | cons c rest ih =>
      obtain ⟨hinside, hescaped⟩ := ih
      constructor
      · intro h
        rw [clear, Quoting.covers, Bool.true_or, Bool.true_and, Quoting.next] at h
        split at h
        · next hc =>
            obtain ⟨d, body, junk, rfl, hbody⟩ := hescaped h
            exact ⟨'\\' :: d :: body, junk, by rw [hc]; rfl, .escape hbody⟩
        · next hc =>
            split at h
            · next hquote => exact ⟨[], rest, by rw [hquote]; rfl, .nil⟩
            · next hquote =>
                obtain ⟨body, junk, rfl, hbody⟩ := hinside h
                exact ⟨c :: body, junk, rfl, .plain hquote hc hbody⟩
      · intro h
        rw [clear, Quoting.covers, Bool.true_or, Bool.true_and, Quoting.next] at h
        obtain ⟨body, junk, rfl, hbody⟩ := hinside h
        exact ⟨c, body, junk, rfl, hbody⟩

/-- A quoted text behind a stretch that ends outside quotes is one span. -/
theorem stop_of_mem_quotedSpans
    {before quoted rest : List Char}
    {quote : Char}
    {stop : Nat}
    (hbefore : Quoting.outside.after before = .outside)
    (hquote : quote = '\'' ∨ quote = '"')
    (hbody : QuotedBody quote quoted)
    (h : ⟨before.length, stop⟩ ∈
      quotedSpans (before ++ (quote :: (quoted ++ [quote]) ++ rest))) :
    stop = before.length + (quoted.length + 2) := by
  have hclear := clear_quoted (fun _ => false) hquote hbody
  have hfront := @spansFrom_append .outside 0 before (quote :: (quoted ++ [quote]) ++ rest) hbefore
  have hinner := @spansFrom_append .outside (0 + before.length) (quote :: (quoted ++ [quote])) rest
    (after_of_clear hclear)
  rw [quotedSpans, hfront, hinner, spansFrom_quoted hquote hbody, Nat.zero_add] at h
  rcases List.mem_append.1 h with hmem | hmem
  · have hbounds := bounds_of_mem_spansFrom (by simp [QuoteState.opened?]) hmem
    simp only at hbounds
    omega
  · rcases List.mem_append.1 hmem with hmem | hmem
    · exact (Span.mk.inj (List.mem_singleton.1 hmem)).2
    · rcases start_of_mem_spansFrom hmem with hopen | hle
      · cases hopen
      · simp only [List.length_cons, List.length_append] at hle
        omega

namespace Step

/-- What is read in a bracket is what stands in front of the first closing sign outside quotes. -/
theorem exists_content_of_parts
    {spans : List Span}
    {state : Quoting}
    {position : Nat}
    {pending text : List Char}
    {all : List Part}
    (htracks : Tracks spans state position text)
    (h : parts spans true pending position text = some all) :
    ∃ content rest more,
      text = content ++ ']' :: rest ∧
      clear isCut state content = true ∧
      all = .bracketed (pending.reverse ++ content) :: more := by
  induction text generalizing state position pending with
  | nil => cases h
  | cons c rest ih =>
      rw [parts] at h
      split at h
      · next hkept =>
          obtain ⟨content, behind, more, rfl, hclear, rfl⟩ := ih htracks.tail h
          refine ⟨c :: content, behind, more, rfl, ?_, by simp⟩
          rw [htracks.head] at hkept
          rw [clear, hclear, Bool.and_true]
          exact hkept
      · next hcut =>
          split at h
          · next hc =>
              split at h
              · cases h
              · next hpending =>
                  obtain ⟨later, -, rfl⟩ := Option.map_eq_some_iff.1 h
                  have houtside : state = .outside := by
                    refine (@Quoting.eq_outside_of_not_covers state c ?_).1
                    rw [← htracks.head]
                    simp only [Bool.or_eq_true, not_or] at hcut
                    exact Bool.eq_false_iff.2 hcut.1
                  refine ⟨[], rest, later, by rw [hc]; rfl, by rw [houtside]; rfl, ?_⟩
                  simp at hpending
                  simp [Part.flush, hpending]
          · cases h

/-- What is read in the brackets of a key starts with a quoted body, as the key's text does. -/
theorem exists_quoted_of_content
    {name : String}
    {inner rest behind : List Char}
    (hsplit : content (.key name) ++ ']' :: rest = inner ++ ']' :: behind)
    (hclear : clear isCut .outside inner = true) :
    ∃ quoted junk,
      inner = '\'' :: (quoted ++ '\'' :: junk) ∧
      QuotedBody '\'' quoted ∧
      quoted ++ '\'' :: (junk ++ ']' :: behind) =
        apostrophesEscaped name.toList ++ '\'' :: (']' :: rest) := by
  cases inner with
  | nil => exact absurd (List.cons.inj hsplit).1 (by decide)
  | cons c inner =>
      obtain ⟨rfl, hkey⟩ := List.cons.inj hsplit
      have hinside : clear isCut (.inside '\'') inner = true := by
        simpa [clear, Quoting.covers, Quoting.next] using hclear
      obtain ⟨quoted, junk, rfl, hbody⟩ := exists_quotedBody_of_clear.1 hinside
      exact ⟨quoted, junk, rfl, hbody, by simpa using hkey.symm⟩

/-- A plain bracket that starts with a quote holds one quoted body and blanks behind it. -/
theorem trim_of_isPlainContent
    {before quoted junk rest : List Char}
    {quote : Char}
    (hbefore : Quoting.outside.after before = .outside)
    (hquote : quote = '\'' ∨ quote = '"')
    (hbody : QuotedBody quote quoted)
    (h : Division.isPlainContent
      (quotedSpans (before ++ (quote :: (quoted ++ [quote]) ++ (junk ++ rest))))
      (quote :: (quoted ++ quote :: junk)) before.length = true) :
    Text.trim (quote :: (quoted ++ quote :: junk)) = quote :: (quoted ++ [quote]) := by
  have hblank : Text.isBlank quote = false := by
    rcases hquote with rfl | rfl <;> decide +kernel
  have hstart : Text.trimStart (quote :: (quoted ++ quote :: junk)) =
      quote :: (quoted ++ quote :: junk) := by
    rw [Text.trimStart, List.dropWhile_cons, hblank]
    rfl
  rw [Division.isPlainContent, hstart, Nat.sub_self, Nat.add_zero] at h
  rcases Bool.or_eq_true_iff.1 h with hread | hspan
  · obtain ⟨value, hvalue⟩ := Option.isSome_iff_exists.1 hread
    have hmem : quote ∈ Text.trim (quote :: (quoted ++ quote :: junk)) :=
      Text.mem_trim List.mem_cons_self hblank
    rcases hquote with rfl | rfl <;>
      exact absurd (Division.mem_of_read? hvalue hmem) (by decide)
  · have hmem := List.contains_iff_mem.1 (Bool.and_eq_true_iff.1 hspan).2
    have hstop := stop_of_mem_quotedSpans hbefore hquote hbody hmem
    have hlength : (Text.trimEnd (quote :: (quoted ++ quote :: junk))).length =
        (quote :: (quoted ++ [quote])).length := by
      simp only [List.length_cons, List.length_append, List.length_nil]
      omega
    have hprefix : Text.trimEnd (quote :: (quoted ++ quote :: junk)) <+:
        quote :: (quoted ++ quote :: junk) := by
      rw [Text.trimEnd, ← List.reverse_suffix, List.reverse_reverse]
      exact List.dropWhile_suffix _
    have hsplit : quote :: (quoted ++ quote :: junk) = quote :: (quoted ++ [quote]) ++ junk := by
      simp
    rw [Text.trim, hstart, List.prefix_iff_eq_take.1 hprefix, hlength, hsplit, List.take_left]

/--
A text that is read from a position outside quotes on: it comes to some parts,
and no bracket there is an operator.
-/
structure Followed
    (text before rest : List Char)
    (all : List Part) : Prop where
  split : text = before ++ rest
  position : 0 < before.length
  outside : Quoting.outside.after before = .outside
  parts : Step.parts (quotedSpans text) false [] before.length rest = some all
  bracket : Division.firstBracket? (quotedSpans text) text none before.length rest = none

namespace Followed

variable {text before rest : List Char}
variable {all : List Part}

theorem scanned
    (h : Followed text before rest all) :
    Division.Scanned (quotedSpans text) text before.length rest := by
  rw [h.split]
  have hscanned := (Division.scanned_start (before ++ rest)).append_right h.outside
  rwa [Nat.zero_add] at hscanned

/-- A bracket that is no operator has plain content. -/
theorem isPlainContent
    {content : List Char}
    (h : Followed text before ('[' :: (content ++ ']' :: rest)) all)
    (hclear : clear isCut .outside content = true) :
    Division.isPlainContent (quotedSpans text) content (before.length + 1) = true := by
  have hbracket := h.bracket
  rw [Division.firstBracket?_bracket h.position h.scanned.drop h.scanned.tracks
    (clear_mono Division.closing_isCut hclear)] at hbracket
  by_contra hmarked
  rw [if_neg hmarked] at hbracket
  cases hbracket

/-- A bracket that names one child is one part, behind which reading goes on. -/
theorem next
    {content : List Char}
    {accessor : Accessor}
    (h : Followed text before ('[' :: (content ++ ']' :: rest)) all)
    (hcontent : PlainContent content accessor) :
    ∃ more,
      all = .bracketed content :: more ∧
      Followed text (before ++ '[' :: (content ++ [']'])) rest more := by
  have hsplit : '[' :: (content ++ ']' :: rest) = '[' :: (content ++ [']']) ++ rest := by
    simp
  have hlength : (before ++ '[' :: (content ++ [']'])).length =
      before.length + (content.length + 2) := by
    simp
  have hbracket := h.bracket
  rw [Division.firstBracket?_bracket h.position h.scanned.drop h.scanned.tracks
    (clear_mono Division.closing_isCut hcontent.clear_isCut),
    if_pos (h.isPlainContent hcontent.clear_isCut), ← hlength] at hbracket
  obtain ⟨c, -, ⟨hc, -⟩, -⟩ := hcontent.ends
  have hparts := h.parts
  have htracks := h.scanned.tracks
  rw [hsplit] at hparts htracks
  rw [parts_bracket [] htracks hcontent.clear_isCut
    (List.ne_nil_of_mem (List.mem_of_mem_head? hc)), ← hlength] at hparts
  obtain ⟨more, hmore, rfl⟩ := Option.map_eq_some_iff.1 hparts
  refine ⟨more, rfl, ?_, ?_, ?_, hmore, hbracket⟩
  · rw [h.split, hsplit, List.append_assoc]
  · exact hlength ▸ Nat.add_pos_left h.position _
  · rw [Quoting.after_append, h.outside, hcontent.bracketed.after_eq]

/-- A quoted body in a bracket that is no operator is read as the key in it. -/
theorem bracketed?_quoted
    {quoted junk : List Char}
    (h : Followed text before ('[' :: ('\'' :: (quoted ++ '\'' :: junk) ++ ']' :: rest)) all)
    (hclear : clear isCut .outside ('\'' :: (quoted ++ '\'' :: junk)) = true)
    (hbody : QuotedBody '\'' quoted) :
    bracketed? ('\'' :: (quoted ++ '\'' :: junk)) =
      some (.key (String.ofList (unescaped quoted))) := by
  have hplain := h.isPlainContent hclear
  have htext : text =
      before ++ ['['] ++ ('\'' :: (quoted ++ ['\'']) ++ (junk ++ ']' :: rest)) := by
    rw [h.split]
    simp
  have houtside : Quoting.outside.after (before ++ ['[']) = .outside := by
    rw [Quoting.after_append, h.outside]
    rfl
  have hlength : (before ++ ['[']).length = before.length + 1 := by
    simp
  rw [htext, ← hlength] at hplain
  rw [bracketed?, trim_of_isPlainContent houtside (Or.inl rfl) hbody hplain, unquoted?_quoted]

/-- If the text of a key is read as this key and is no operator, the key has no backslash. -/
theorem no_backslash
    {name : String}
    {part : Part}
    {others : List Part}
    (h : Followed text before ('[' :: (content (.key name) ++ ']' :: rest)) (part :: others))
    (hpart : ofPart? part = some (.key name)) :
    '\\' ∉ name.toList := by
  have hopening : isCovered (quotedSpans text) before.length = false := h.scanned.tracks.head
  have hopened : Step.parts (quotedSpans text) true [] (before.length + 1)
      (content (.key name) ++ ']' :: rest) = some (part :: others) := by
    rw [← h.parts]
    simp [Step.parts, hopening, Part.flush]
  obtain ⟨inner, behind, more, hsplit, hclear, hall⟩ :=
    exists_content_of_parts h.scanned.tracks.tail hopened
  obtain ⟨rfl, -⟩ := List.cons.inj hall
  obtain ⟨quoted, junk, rfl, hbody, hbodies⟩ := exists_quoted_of_content hsplit hclear
  rw [hsplit] at h
  rw [List.reverse_nil, List.nil_append, ofPart?, h.bracketed?_quoted hclear hbody] at hpart
  have hname : unescaped quoted = name.toList := by
    rw [← Accessor.key.inj (Option.some.inj hpart), String.toList_ofList]
  exact (no_backslash_of_reread 0 hbody hbodies hname).2

end Followed

/-- Without a backslash in a key, what stands in the brackets of a step is plain. -/
theorem plainContent_content
    {accessor : Accessor}
    (hindex : ∀ i, accessor = .index i → Integer64.isSigned i = true)
    (hkey : ∀ name, accessor = .key name → '\\' ∉ name.toList) :
    PlainContent (content accessor) accessor := by
  cases accessor with
  | key name =>
      obtain ⟨hbody, hread⟩ := reread_of_no_backslash (hkey name rfl)
      have hcontent := PlainContent.quoted (Or.inl rfl) hbody
      rwa [hread, String.ofList_toList] at hcontent
  | index i =>
      obtain ⟨negative, n, htext, hvalue, -⟩ := Query.Lexeme.exists_toString_eq i
      rw [content, htext]
      exact .indexed (fun d hd => Nat.isDigit_of_mem_toDigits (by decide) (by decide) hd)
        (Query.Lexeme.ofSignedDigits?_toDigits hvalue (hindex i rfl))

theorem body_cons
    (accessor : Accessor)
    (accessors : List Accessor) :
    body (accessor :: accessors) = '[' :: (content accessor ++ ']' :: body accessors) := by
  simp [body]

section Reread

variable {accessors : List Accessor}
variable (hindices : ∀ i, .index i ∈ accessors → Integer64.isSigned i = true)

include hindices

/-- Without a backslash in a key, the texts of steps are a run of plain brackets. -/
theorem spelled_body
    (hkeys : ∀ name, .key name ∈ accessors → '\\' ∉ name.toList) :
    Spelled (body accessors) accessors := by
  induction accessors with
  | nil => exact .nil
  | cons accessor accessors ih =>
      have hcontent : PlainContent (content accessor) accessor :=
        plainContent_content (fun i hi => hindices i (hi ▸ List.mem_cons_self))
          fun name hname => hkeys name (hname ▸ List.mem_cons_self)
      have hrest := ih (fun i hi => hindices i (List.mem_cons_of_mem _ hi))
        fun name hname => hkeys name (List.mem_cons_of_mem _ hname)
      rw [body_cons]
      simpa using Spelled.cons hcontent.bracketed hrest

/-- If the texts of steps are read as these steps and are no operators, no key has a backslash. -/
theorem no_backslash_of_followed
    {text before : List Char}
    {all extra : List Part}
    (h : Followed text before (body accessors) (all ++ extra))
    (hall : ofParts? all = some accessors) :
    ∀ name, .key name ∈ accessors → '\\' ∉ name.toList := by
  induction accessors generalizing before all with
  | nil => exact fun name hname => absurd hname List.not_mem_nil
  | cons accessor accessors ih =>
      rw [body_cons] at h
      cases all with
      | nil => cases hall
      | cons part more =>
          rw [ofParts?] at hall
          split at hall
          · next first others hpart hothers =>
              obtain ⟨rfl, rfl⟩ := List.cons.inj (Option.some.inj hall)
              have hkey : ∀ name, first = .key name → '\\' ∉ name.toList := by
                rintro name rfl
                exact h.no_backslash hpart
              obtain ⟨later, heq, hnext⟩ := h.next (plainContent_content
                (fun i hi => hindices i (hi ▸ List.mem_cons_self)) hkey)
              obtain ⟨-, rfl⟩ := List.cons.inj heq
              have hfree := ih (fun i hi => hindices i (List.mem_cons_of_mem _ hi)) hnext hothers
              intro name hname
              rcases List.mem_cons.1 hname with hfirst | hmem
              · exact hkey name hfirst.symm
              · exact hfree name hmem
          · cases hall

end Reread

/-- The texts of steps start a part of their own, if they start any. -/
theorem parts_body
    {spans : List Span}
    {position : Nat}
    (pending : List Char)
    (accessors : List Accessor)
    (htracks : Tracks spans .outside position (body accessors)) :
    parts spans false pending position (body accessors) =
      (parts spans false [] position (body accessors)).map (Part.flush .bare pending ++ ·) := by
  cases accessors with
  | nil => simp [body, parts, Part.flush]
  | cons accessor accessors =>
      rw [body_cons] at htracks ⊢
      have hcovered : isCovered spans position = false := htracks.head
      simp [parts, hcovered, Part.flush]

/-- What a path was cut into that is read as some steps. A star may stand behind their parts. -/
theorem exists_parts_of_ofText?
    {path : String}
    {accessors : List Accessor}
    (h : ofText? path = some (root :: accessors.map access)) :
    ∃ all extra,
      parts (quotedSpans path.toList) false [] 0 path.toList =
        some (.bare ['$'] :: (all ++ extra)) ∧
      ofParts? all = some accessors := by
  rw [ofText?] at h
  split at h
  · next rest hrest =>
      obtain ⟨found, hfound, hsteps⟩ := Option.map_eq_some_iff.1 h
      obtain ⟨whole, hwhole, hstar⟩ := Option.map_eq_some_iff.1 hrest
      have haccessors : found = accessors := by
        refine List.map_injective_iff.2 ?_ (List.cons.inj hsteps).2
        exact fun _ _ heq => access.inj heq
      obtain ⟨extra, hextra⟩ : withoutStar whole <+: whole := by
        rw [withoutStar]
        split
        · exact List.dropLast_prefix whole
        · exact List.prefix_rfl
      refine ⟨rest, extra, ?_, haccessors ▸ hfound⟩
      rw [hwhole, ← hextra, hstar]
      rfl
  · cases h

end Step

/-- A path without an advanced part has no bracket that is an operator. -/
theorem firstBracket?_of_undivided
    {path : String}
    (h : (Division.ofText path).advanced = none) :
    Division.firstBracket? (quotedSpans path.toList) path.toList none 0 path.toList = none := by
  have hstart : Division.start? path.toList = none := by
    rw [Division.ofText] at h
    split at h
    · assumption
    · cases h
  have hnone : Division.candidates path.toList = [] := by
    change Division.least? (Division.candidates path.toList) = none at hstart
    cases hlist : Division.candidates path.toList with
    | nil => rfl
    | cons first more =>
        rw [hlist] at hstart
        cases hstart
  exact Option.toList_eq_nil_iff.1 (List.append_eq_nil_iff.1 hnone).2

namespace Step

section Joined

variable {accessors : List Accessor}

/-- Behind its root sign, a path from the texts of steps that is read as these is followed. -/
theorem exists_followed_of_reread
    (hread : ofText? (joined accessors) = some (root :: accessors.map access))
    (hdivision : (Division.ofText (joined accessors)).advanced = none) :
    ∃ all extra,
      ofParts? all = some accessors ∧
      Followed (joined accessors).toList ['$'] (body accessors) (all ++ extra) := by
  obtain ⟨all, extra, hparts, hall⟩ := exists_parts_of_ofText? hread
  have hbracket := firstBracket?_of_undivided hdivision
  have htracks := tracks_quotedSpans (joined accessors).toList
  rw [toList_joined] at hparts hbracket htracks
  refine ⟨all, extra, hall, toList_joined accessors, Nat.one_pos, rfl, ?_, ?_⟩
  · have hbody := parts_body ['$'] accessors htracks.tail
    rw [parts, if_pos (by simp), hbody] at hparts
    obtain ⟨found, hfound, heq⟩ := Option.map_eq_some_iff.1 hparts
    rw [toList_joined]
    exact hfound.trans (congrArg some (List.cons.inj heq).2)
  · have hroot := @Division.firstBracket?_append _ ('$' :: body accessors) none 0 .outside ['$']
      (body accessors) htracks (by decide)
    rw [toList_joined]
    exact hroot.symm.trans hbracket

/--
The path that is joined from the texts of the root and of some steps is read as
these steps and has no advanced part exactly if no key has a backslash.
-/
theorem joined_reread_iff
    (hindices : ∀ i, .index i ∈ accessors → Integer64.isSigned i = true) :
    (ofText? (joined accessors) = some (root :: accessors.map access) ∧
      (Division.ofText (joined accessors)).advanced = none) ↔
        ∀ name, .key name ∈ accessors → '\\' ∉ name.toList := by
  constructor
  · rintro ⟨hread, hdivision⟩
    obtain ⟨all, extra, hall, hfollowed⟩ := exists_followed_of_reread hread hdivision
    exact no_backslash_of_followed hindices hfollowed hall
  · intro hkeys
    have hspelled := spelled_body hindices hkeys
    refine ⟨ofText?_spelled ?_ hspelled (Or.inl rfl), ?_⟩
    · rw [toList_joined, List.append_nil]
    · have hstart : Division.start? (joined accessors).toList = none := by
        rw [toList_joined]
        exact Division.start?_eq_none (.of_spelled hspelled (by simp [Division.GoesOn]))
      rw [Division.ofText, hstart]

end Joined

/-- Quotes, brackets, dots and operators in keys are read again. -/
theorem joined_reread_iff_apostrophe :
    (ofText? (joined [.key "it's", .index (-3), .key "a.b]..[*"]) =
        some (root :: [.key "it's", .index (-3), .key "a.b]..[*"].map access) ∧
      (Division.ofText (joined [.key "it's", .index (-3), .key "a.b]..[*"])).advanced = none) ∧
    Integer64.isSigned (-3) = true ∧
    '\\' ∉ "it's".toList :=
  ⟨(joined_reread_iff (by simp; decide +kernel)).2 (by simp), by decide, by decide⟩

/-- The text of a key with a backslash is read as another key. -/
theorem joined_misread_backslash :
    joined [.key "a\\b"] = "$['a\\b']" ∧
    ofText? (joined [.key "a\\b"]) = some [root, access (.key "ab")] := by
  decide +kernel

end Step

end Path
end FieldQuery
