import FieldQuery.Proofs.Blanks
import FieldQuery.Proofs.Segments

/-!
# Steps of a spelled run

A path that is only a spelled run of segments is cut exactly between the
segments, so its steps are the children that the segments name. A final star
changes nothing about them.
-/

namespace FieldQuery

namespace Text

theorem isBlank_of_isDigit
    {c : Char}
    (h : c.isDigit = true) :
    isBlank c = false := by
  rw [← Bool.not_eq_true, isBlank, CodeRange.covers_eq_true_iff blankRanges_ascending]
  simp only [Char.isDigit, Bool.and_eq_true, decide_eq_true_eq] at h
  have hlow : 48 ≤ c.toNat := h.1
  have hhigh : c.toNat ≤ 57 := h.2
  simp only [blankRanges, List.mem_cons, List.not_mem_nil, or_false]
  rintro ⟨range, rfl | rfl | rfl | rfl | rfl | rfl | rfl | rfl | rfl | rfl, hfirst, hlast⟩ <;>
    simp only at hfirst hlast <;>
    omega

end Text

namespace Integer64

/-- A signed integer is read from digits, of which there is at least one. -/
theorem ne_nil_of_ofSignedDigits?
    {negative : Bool}
    {digits : List Char}
    {value : Int}
    (h : ofSignedDigits? negative digits = some value) :
    digits ≠ [] := by
  rintro rfl
  cases h

end Integer64

namespace Path

open Query.Lexeme (isCut signText)

/-- Reading an integer undoes writing its sign and its digits. -/
theorem read?_signText
    {negative : Bool}
    {digits : List Char}
    {value : Int}
    (hdigits : ∀ d ∈ digits, d.isDigit = true)
    (hvalue : Integer64.ofSignedDigits? negative digits = some value) :
    Integer64.read? (signText negative ++ digits) = some value := by
  cases negative with
  | true =>
      exact hvalue
  | false =>
      cases digits with
      | nil => cases hvalue
      | cons d digits =>
          have hd := hdigits d List.mem_cons_self
          have hplus : d ≠ '+' := by
            rintro rfl
            cases hd
          have hminus : d ≠ '-' := by
            rintro rfl
            cases hd
          rw [signText, if_neg Bool.false_ne_true, List.nil_append, Integer64.read?]
          · exact hvalue
          · intro rest heq
            exact hplus (List.cons.inj heq).1
          · intro rest heq
            exact hminus (List.cons.inj heq).1

/-- The characters at the ends of an integer. -/
theorem integer_ends
    {negative : Bool}
    {digits : List Char}
    (hne : digits ≠ [])
    (hdigits : ∀ d ∈ digits, d.isDigit = true) :
    ∃ first last,
      (signText negative ++ digits).head? = some first ∧
      (first = '-' ∨ first.isDigit = true) ∧
      (signText negative ++ digits).getLast? = some last ∧
      last.isDigit = true := by
  have hlast := List.getLast?_eq_some_getLast hne
  obtain ⟨last, hlast⟩ : ∃ last, digits.getLast? = some last := ⟨_, hlast⟩
  have hdigit := hdigits last (List.mem_of_getLast? hlast)
  cases negative with
  | true =>
      exact ⟨'-', last, rfl, Or.inl rfl, by rw [List.getLast?_append, hlast]; rfl, hdigit⟩
  | false =>
      cases digits with
      | nil => exact absurd rfl hne
      | cons d digits => exact ⟨d, last, rfl, Or.inr (hdigits d List.mem_cons_self), hlast, hdigit⟩

/-- A quoted key or an index has no blank at its ends. -/
theorem PlainContent.ends
    {content : List Char}
    {accessor : Accessor}
    (h : PlainContent content accessor) :
    ∃ first last,
      (content.head? = some first ∧ Text.isBlank first = false) ∧
      (content.getLast? = some last ∧ Text.isBlank last = false) := by
  cases h with
  | @quoted body quote hquote hbody =>
      have hblank : Text.isBlank quote = false := by
        rcases hquote with rfl | rfl <;> decide +kernel
      exact ⟨quote, quote, ⟨rfl, hblank⟩, by rw [← List.cons_append, List.getLast?_concat], hblank⟩
  | indexed hdigits hvalue =>
      obtain ⟨first, last, hfirst, hkind, hlast, hdigit⟩ :=
        integer_ends (Integer64.ne_nil_of_ofSignedDigits? hvalue) hdigits
      refine ⟨first, last, ⟨hfirst, ?_⟩, hlast, Text.isBlank_of_isDigit hdigit⟩
      rcases hkind with rfl | hdigit
      · decide +kernel
      · exact Text.isBlank_of_isDigit hdigit

namespace Step

theorem unquoted?_of_ne
    {quote first : Char}
    {content : List Char}
    (hfirst : content.head? = some first)
    (hne : first ≠ quote) :
    unquoted? quote content = none := by
  cases content with
  | nil => rfl
  | cons c rest =>
      rw [List.head?_cons, Option.some.injEq] at hfirst
      simp [unquoted?, hfirst, hne]

theorem unquoted?_quoted
    (quote : Char)
    (body : List Char) :
    unquoted? quote (quote :: (body ++ [quote])) = some body := by
  simp [unquoted?]

/-- What names a child in a bracket is taken for that child, whatever blanks stand around it. -/
theorem bracketed?_padded
    {before content after : List Char}
    {accessor : Accessor}
    (hbefore : Blank before)
    (hafter : Blank after)
    (hcontent : PlainContent content accessor) :
    bracketed? (before ++ content ++ after) = some accessor := by
  obtain ⟨first, last, hfirst, hlast⟩ := hcontent.ends
  have htrim := (Text.trim_padded (fun c hc => Text.isBlank_of_isAsciiBlank (hbefore c hc))
    (fun c hc => Text.isBlank_of_isAsciiBlank (hafter c hc)) hfirst hlast).2.2
  rw [bracketed?, htrim]
  cases hcontent with
  | quoted hquote hbody =>
      rcases hquote with rfl | rfl
      · rw [unquoted?_quoted]
      · rw [unquoted?_of_ne rfl (by decide), unquoted?_quoted]
  | indexed hdigits hvalue =>
      obtain ⟨first, -, hhead, hkind, -, -⟩ :=
        integer_ends (Integer64.ne_nil_of_ofSignedDigits? hvalue) hdigits
      have hne : ∀ quote, quote = '\'' ∨ quote = '"' → first ≠ quote := by
        rintro quote hquote rfl
        rcases hquote with rfl | rfl <;> simp at hkind
      rw [unquoted?_of_ne hhead (hne _ (Or.inl rfl)), unquoted?_of_ne hhead (hne _ (Or.inr rfl)),
        read?_signText hdigits hvalue]
      rfl

section Parts

variable {spans : List Span}
variable {state : Quoting}
variable {position : Nat}
variable {rest : List Char}

/-- A stretch without cuts becomes part of what is being read. -/
theorem parts_append
    (inBracket : Bool)
    (pending : List Char)
    {front : List Char}
    (htracks : Tracks spans state position (front ++ rest))
    (hclear : clear isCut state front = true) :
    parts spans inBracket pending position (front ++ rest) =
      parts spans inBracket (front.reverse ++ pending) (position + front.length) rest := by
  induction front generalizing state position pending with
  | nil =>
      rfl
  | cons c front ih =>
      rw [List.cons_append] at htracks ⊢
      simp only [clear, Bool.and_eq_true] at hclear
      have hkept : (isCovered spans position || !(c = '.' || c = '[' || c = ']')) = true := by
        rw [htracks.head]
        exact hclear.1
      rw [parts, if_pos hkept, ih (c :: pending) htracks.tail hclear.2]
      simp only [List.reverse_cons, List.append_assoc, List.length_cons, List.singleton_append]
      congr 1
      omega

/-- A dot outside quotes ends a part and starts another one. -/
theorem parts_dot
    (pending : List Char)
    (htracks : Tracks spans .outside position ('.' :: rest)) :
    parts spans false pending position ('.' :: rest) =
      (parts spans false [] (position + 1) rest).map (Part.flush .bare pending ++ ·) := by
  have hcovered : isCovered spans position = false := htracks.head
  simp [parts, hcovered]

/-- A bracket outside quotes is a part of its own. -/
theorem parts_bracket
    (pending : List Char)
    {content : List Char}
    (htracks : Tracks spans .outside position ('[' :: (content ++ [']']) ++ rest))
    (hclear : clear isCut .outside content = true)
    (hne : content ≠ []) :
    parts spans false pending position ('[' :: (content ++ [']']) ++ rest) =
      (parts spans false [] (position + (content.length + 2)) rest).map
        (Part.flush .bare pending ++ Part.bracketed content :: ·) := by
  have hcovered : isCovered spans position = false := htracks.head
  rw [List.cons_append, List.append_assoc] at htracks ⊢
  have hinner : Tracks spans .outside (position + 1) (content ++ ([']'] ++ rest)) := htracks.tail
  have hclosing := hinner.append_right
  rw [after_of_clear hclear] at hclosing
  have hclosed : isCovered spans (position + 1 + content.length) = false := hclosing.head
  have hopened : parts spans false pending position ('[' :: (content ++ ([']'] ++ rest))) =
      (parts spans true [] (position + 1) (content ++ ([']'] ++ rest))).map
        (Part.flush .bare pending ++ ·) := by
    simp [parts, hcovered]
  have hcontent : parts spans true (content.reverse ++ []) (position + 1 + content.length)
      ([']'] ++ rest) =
        (parts spans false [] (position + 1 + content.length + 1) rest).map
          ([Part.bracketed content] ++ ·) := by
    simp [parts, hclosed, hne, Part.flush]
  rw [hopened, parts_append true [] hinner hclear, hcontent, Option.map_map]
  congr 2
  omega

/-- A name after a dot is a part, which ends where the next one starts. -/
theorem parts_dotted
    (pending : List Char)
    {name : List Char}
    (htracks : Tracks spans .outside position ('.' :: name ++ rest))
    (hclear : clear isCut .outside name = true) :
    parts spans false pending position ('.' :: name ++ rest) =
      (parts spans false name.reverse (position + ('.' :: name).length) rest).map
        (Part.flush .bare pending ++ ·) := by
  have hname : Tracks spans .outside (position + 1) (name ++ rest) := htracks.tail
  have hdot : parts spans false pending position ('.' :: (name ++ rest)) =
      (parts spans false [] (position + 1) (name ++ rest)).map (Part.flush .bare pending ++ ·) :=
    parts_dot pending htracks
  have happend := parts_append false [] hname hclear
  rw [List.append_nil] at happend
  rw [List.cons_append, hdot, happend, List.length_cons]
  congr 2
  omega

/-- A spelled run is cut into the parts that stand for its children. -/
theorem parts_spelled
    {text tail : List Char}
    {accessors : List Accessor}
    {last : List Part}
    (h : Spelled text accessors)
    (htail : ∀ (pending : List Char) (position : Nat), Tracks spans .outside position tail →
      parts spans false pending position tail = some (Part.flush .bare pending ++ last))
    (pending : List Char)
    (htracks : Tracks spans .outside position (text ++ tail)) :
    ∃ all,
      parts spans false pending position (text ++ tail) =
        some (Part.flush .bare pending ++ all ++ last) ∧
      ofParts? all = some accessors ∧
      Part.bare ['*'] ∉ all := by
  induction h generalizing pending position with
  | nil =>
      exact ⟨[], by rw [List.nil_append, htail pending position htracks, List.append_nil], rfl,
        List.not_mem_nil⟩
  | @cons segment rest accessor accessors hsegment _ ih =>
      rw [List.append_assoc] at htracks ⊢
      have hrest := htracks.append_right
      rw [hsegment.after_eq] at hrest
      cases hsegment with
      | @dotted c more hstart hmore =>
          have hclear : clear isCut .outside (c :: more) = true :=
            Query.Lexeme.clear_of_ordinary fun _ => Query.Lexeme.ordinary_of_mem_word hstart hmore
          obtain ⟨all, hall, hparts, hstar⟩ := ih (c :: more).reverse hrest
          have hflush : Part.flush .bare (c :: more).reverse = [Part.bare (c :: more)] := by
            simp [Part.flush]
          refine ⟨.bare (c :: more) :: all, ?_, ?_, ?_⟩
          · rw [parts_dotted pending htracks hclear, hall, hflush]
            simp
          · simp [ofParts?, ofPart?, hparts]
          · have hc : c ≠ '*' := by
              rintro rfl
              exact absurd hstart (by decide +kernel)
            simp [hstar, hc.symm]
      | @bracketed before content after accessor hbefore hafter hcontent =>
          have hclear := clear_padded hbefore hafter hcontent
          obtain ⟨first, -, ⟨hfirst, -⟩, -⟩ := hcontent.ends
          have hne : before ++ content ++ after ≠ [] :=
            List.ne_nil_of_mem (a := first) (by simp [List.mem_of_mem_head? hfirst])
          obtain ⟨all, hall, hparts, hstar⟩ := ih [] hrest
          refine ⟨.bracketed (before ++ content ++ after) :: all, ?_, ?_, ?_⟩
          · rw [parts_bracket pending htracks hclear hne]
            rw [List.length_cons, List.length_append] at hall
            rw [List.length_singleton, Nat.add_assoc] at hall
            rw [hall]
            simp [Part.flush]
          · rw [ofParts?, ofPart?, bracketed?_padded hbefore hafter hcontent, hparts]
          · simp [hstar]

end Parts

/-- What may stand at the end of a plain path and names nothing: nothing, or a star. -/
def Idle
    (tail : List Char) : Prop :=
  tail = [] ∨ tail = ['.', '*']

theorem withoutStar_of_not_mem
    {all : List Part}
    (h : Part.bare ['*'] ∉ all) :
    withoutStar all = all := by
  have hlast : all.getLast? ≠ some (.bare ['*']) := fun hlast =>
    h (List.mem_of_getLast? hlast)
  simp [withoutStar, hlast]

theorem withoutStar_append
    {all : List Part}
    (h : all ≠ []) :
    withoutStar (all ++ [.bare ['*']]) = all := by
  rw [withoutStar, List.getLast?_concat, List.dropLast_concat]
  simp [h]

/-- The steps of a spelled run are the children that it names. -/
theorem ofText?_spelled
    {path : String}
    {text tail : List Char}
    {accessors : List Accessor}
    (hpath : path.toList = '$' :: (text ++ tail))
    (h : Spelled text accessors)
    (htail : Idle tail) :
    ofText? path = some (root :: accessors.map access) := by
  have htracks := tracks_quotedSpans ('$' :: (text ++ tail))
  have hrest : Tracks (quotedSpans ('$' :: (text ++ tail))) .outside 1 (text ++ tail) :=
    htracks.tail
  obtain ⟨last, hlast, hstar⟩ : ∃ last,
      (∀ spans pending position, Tracks spans .outside position tail →
        parts spans false pending position tail = some (Part.flush .bare pending ++ last)) ∧
      ∀ all, Part.bare ['*'] ∉ all → withoutStar (.bare ['$'] :: (all ++ last)) =
        .bare ['$'] :: all := by
    rcases htail with rfl | rfl
    · refine ⟨[], ?_, ?_⟩
      · intro spans pending position _
        simp [parts]
      · intro all hall
        rw [List.append_nil]
        exact withoutStar_of_not_mem (by simp [hall])
    · refine ⟨[.bare ['*']], ?_, ?_⟩
      · intro spans pending position hcovers
        rw [parts_dot pending hcovers]
        simp [parts, Part.flush]
      · intro all hall
        rw [← List.cons_append]
        exact withoutStar_append (List.cons_ne_nil _ _)
  obtain ⟨all, hall, hparts, hnot⟩ := parts_spelled h (hlast _) ['$'] hrest
  have hroot : parts (quotedSpans ('$' :: (text ++ tail))) false [] 0 ('$' :: (text ++ tail)) =
      some (.bare ['$'] :: (all ++ last)) := by
    rw [parts, if_pos (by simp), hall]
    simp [Part.flush]
  rw [ofText?, hpath, hroot, Option.map_some, hstar all hnot]
  simp [hparts]

end Step
end Path
end FieldQuery
