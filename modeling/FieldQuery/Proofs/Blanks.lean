import FieldQuery.Text.Blank

/-!
# Removal of blanks

The blanks around a text are removed and nothing else: what stands between
them comes out as it was, and no other character is lost.
-/

namespace FieldQuery
namespace Text

/-- The four blanks that separate tokens are white space. -/
theorem isBlank_of_isAsciiBlank
    {c : Char}
    (h : isAsciiBlank c = true) :
    isBlank c = true := by
  simp only [isAsciiBlank, Bool.or_eq_true, decide_eq_true_eq] at h
  rcases h with ((rfl | rfl) | rfl) | rfl <;> decide +kernel

theorem trimEnd_eq
    (text : List Char) :
    trimEnd text = (trimStart text.reverse).reverse :=
  rfl

/-- Blanks at the start are removed up to the first other character. -/
theorem trimStart_append
    {before rest : List Char}
    (hbefore : ∀ c ∈ before, isBlank c = true)
    (hrest : ∀ c, rest.head? = some c → isBlank c = false) :
    trimStart (before ++ rest) = rest := by
  rw [trimStart, List.dropWhile_append_of_pos hbefore]
  cases rest with
  | nil => rfl
  | cons c rest => simp [hrest c rfl]

/-- Blanks at the end are removed back to the last other character. -/
theorem trimEnd_append
    {front after : List Char}
    (hafter : ∀ c ∈ after, isBlank c = true)
    (hfront : ∀ c, front.getLast? = some c → isBlank c = false) :
    trimEnd (front ++ after) = front := by
  rw [trimEnd_eq, List.reverse_append, trimStart_append, List.reverse_reverse]
  · simpa using hafter
  · simpa using hfront

/-- A character that is not blank keeps everything after it from removal at the start. -/
theorem suffix_trimStart
    (before : List Char)
    {c : Char}
    (after : List Char)
    (hc : isBlank c = false) :
    c :: after <:+ trimStart (before ++ c :: after) := by
  induction before with
  | nil =>
      simp [trimStart, hc]
  | cons b before ih =>
      rw [List.cons_append, trimStart, List.dropWhile_cons]
      split
      · exact ih
      · exact List.suffix_append (b :: before) (c :: after)

/-- A character that is not blank keeps everything before it from removal at the end. -/
theorem prefix_trimEnd
    (before : List Char)
    {c : Char}
    (after : List Char)
    (hc : isBlank c = false) :
    before ++ [c] <+: trimEnd (before ++ c :: after) := by
  have hsuffix := suffix_trimStart after.reverse before.reverse hc
  rw [trimEnd_eq, ← List.reverse_suffix, List.reverse_reverse]
  simpa using hsuffix

/-- A character that is not blank is not removed. -/
theorem mem_trim
    {text : List Char}
    {c : Char}
    (h : c ∈ text)
    (hc : isBlank c = false) :
    c ∈ trim text := by
  obtain ⟨before, after, rfl⟩ := List.append_of_mem h
  obtain ⟨front, hfront⟩ := suffix_trimStart before after hc
  rw [trim, ← hfront]
  exact (prefix_trimEnd front after hc).subset (by simp)

/-- What stands between blanks, with characters at both ends that are not blank. -/
theorem trim_padded
    {before inner after : List Char}
    {first last : Char}
    (hbefore : ∀ c ∈ before, isBlank c = true)
    (hafter : ∀ c ∈ after, isBlank c = true)
    (hfirst : inner.head? = some first ∧ isBlank first = false)
    (hlast : inner.getLast? = some last ∧ isBlank last = false) :
    trimStart (before ++ inner ++ after) = inner ++ after ∧
      trimEnd (before ++ inner ++ after) = before ++ inner ∧
      trim (before ++ inner ++ after) = inner := by
  have hstart : trimStart (before ++ inner ++ after) = inner ++ after := by
    rw [List.append_assoc]
    apply trimStart_append hbefore
    intro c hc
    rw [List.head?_append, hfirst.1] at hc
    exact Option.some.inj hc ▸ hfirst.2
  have hend (front : List Char) : trimEnd (front ++ inner ++ after) = front ++ inner := by
    apply trimEnd_append hafter
    intro c hc
    rw [List.getLast?_append, hlast.1] at hc
    exact Option.some.inj hc ▸ hlast.2
  refine ⟨hstart, hend before, ?_⟩
  rw [trim, hstart]
  exact hend []

end Text
end FieldQuery
