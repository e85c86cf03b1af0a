import FerrisBridge.Foundations.Masking
import FerrisBridge.Runtime.Heading

/-!
# What is left behind a value

A pass masks a text: it copies the text and writes marks in the place of the values. What stands
behind a value is masked by the other passes too, but none of them brings back the value: a pass that
comes before the first one of a key in the name leaves the end of a quoted value where it is, and a
pass that comes after it finds the placeholder.
-/

open Foundations

namespace FerrisBridge

variable {key text value behind opening : List Char}

/-- What a pass writes in the place of a value, and what is left of it behind a value that ends at its
bracket. -/
def marks : List (List Char) := [placeholder, [']']]

theorem bracket_mem : [']'] ∈ marks := List.mem_cons_of_mem _ List.mem_cons_self

theorem placeholder_ne_nil : placeholder ≠ [] := by decide

theorem mark_ne_nil : ∀ mark ∈ marks, mark ≠ [] := by
  intro mark hmark
  obtain rfl | hmark := List.mem_cons.mp hmark
  · exact placeholder_ne_nil
  · obtain rfl := List.mem_singleton.mp hmark
    exact List.cons_ne_nil _ _

theorem disjoint_marks {shown : List Char} (h : ∀ c ∈ placeholder, c ∉ shown) :
    ∀ mark ∈ marks, ∀ c ∈ mark, c ∉ shown := by
  intro mark hmark c hc
  obtain rfl | hmark := List.mem_cons.mp hmark
  · exact h c hc
  · obtain rfl := List.mem_singleton.mp hmark
    obtain rfl := List.mem_singleton.mp hc
    exact h ']' (List.contains_iff_mem.mp (by decide))

/-- A value ends at the start of the text. -/
def Closing (text : List Char) : Prop :=
  ∀ c ∈ text.head?, isUnquotedValueDelimiter c = true ∨ isQuote c = true ∨ c = '\\'

theorem closing_of_delimits (h : text.head?.all isUnquotedValueDelimiter = true) : Closing text := by
  intro c hc
  rw [Option.mem_def.mp hc] at h
  exact Or.inl h

theorem unquotedEnd_delimits (text : List Char) :
    (unquotedEnd text).head?.all isUnquotedValueDelimiter = true := by
  have hhead := List.head?_dropWhile_not (fun c ↦ !isUnquotedValueDelimiter c) text
  rw [unquotedEnd]
  cases hfirst : (text.dropWhile fun c ↦ !isUnquotedValueDelimiter c).head? with
  | none => rfl
  | some c =>
    rw [hfirst] at hhead
    simpa using hhead

theorem tokenEnd_delimits (key text : List Char) :
    (tokenEnd key text).head?.all isUnquotedValueDelimiter = true := by
  simp only [tokenEnd]
  split_ifs
  · exact unquotedEnd_delimits _
  · exact unquotedEnd_delimits text

theorem quotedEnd_closing {quote : Char} (hquote : isQuote quote = true) (text : List Char) :
    Closing (quotedEnd quote text) := by
  fun_induction quotedEnd quote text with
  | case1 =>
    intro c hc
    cases hc
  | case2 =>
    intro c hc
    obtain rfl := Option.some.inj hc
    exact Or.inr (Or.inl hquote)
  | case3 =>
    intro c hc
    cases hc
  | case4 =>
    intro c hc
    obtain rfl := Option.some.inj hc
    exact Or.inr (Or.inl hquote)
  | case5 _ _ _ ih => exact ih
  | case6 _ _ _ _ _ ih => exact ih

theorem escapedEnd_closing (quote previous : Char) (text : List Char) :
    Closing (escapedEnd quote previous text) := by
  fun_induction escapedEnd quote previous text with
  | case1 =>
    intro c hc
    cases hc
  | case2 =>
    intro c hc
    cases hc
  | case3 _ _ _ _ ih => exact ih
  | case4 previous d e text hescaped =>
    intro c hc
    obtain rfl := Option.some.inj hc
    exact Or.inr (Or.inr hescaped.1)
  | case5 _ _ _ _ _ ih => exact ih

theorem valueEnd_closing (key text : List Char) : Closing (valueEnd key text) := by
  fun_cases valueEnd key text with
  | case1 =>
    intro c hc
    cases hc
  | case2 =>
    intro c hc
    cases hc
  | case3 => exact closing_of_delimits (tokenEnd_delimits key _)
  | case4 => exact escapedEnd_closing _ _ _
  | case5 _ _ _ _ hquote => exact quotedEnd_closing hquote _
  | case6 => exact closing_of_delimits (tokenEnd_delimits key _)

/-- A value that ends in a mark ends at its bracket. -/
theorem Closing.cut (h : Closing text) : ∀ c ∈ text.head?, ∀ mark ∈ marks, ∀ before after,
    mark = before ++ c :: after → c :: after ∈ marks := by
  intro c hc mark hmark before after hsplit
  have hstart : ∀ d ∈ "[REDACTED".toList,
      ¬(isUnquotedValueDelimiter d = true ∨ isQuote d = true ∨ d = '\\') := by
    have hall : ("[REDACTED".toList.all fun d ↦
        !(isUnquotedValueDelimiter d || isQuote d || d = '\\')) = true := by decide
    simpa using hall
  obtain ⟨front, hmarkEq, hfront⟩ : ∃ front, mark = front ++ [']'] ∧ ∀ d ∈ front,
      ¬(isUnquotedValueDelimiter d = true ∨ isQuote d = true ∨ d = '\\') := by
    obtain rfl | hmark := List.mem_cons.mp hmark
    · exact ⟨"[REDACTED".toList, rfl, hstart⟩
    · obtain rfl := List.mem_singleton.mp hmark
      exact ⟨[], rfl, List.forall_mem_nil _⟩
  rw [hmarkEq] at hsplit
  obtain ⟨more, hbefore, hlast⟩ | ⟨more, rfl, hlast⟩ := List.append_eq_append_iff.mp hsplit
  · cases more with
    | nil =>
      rw [List.nil_append] at hlast
      rw [← hlast]
      simp [marks]
    | cons d more =>
      have hnil := (List.cons.inj hlast).2
      simp at hnil
  · cases more with
    | nil =>
      rw [List.nil_append] at hlast
      rw [hlast]
      simp [marks]
    | cons d more =>
      obtain ⟨rfl, -⟩ := List.cons.inj hlast
      exact absurd (h c hc) (hfront c (List.mem_append_right before List.mem_cons_self))

/-! ## A pass masks -/

/-- A value starts behind a character that no mark has. -/
def Opens (front : List Char) : Prop :=
  ∀ c ∈ front.getLast?, isSeparator c = true ∨ isWhitespace c = true ∨ isQuote c = true

theorem Opens.cut {front : List Char} (h : Opens front) :
    ∀ c ∈ front.getLast?, ∀ mark ∈ marks, c ∉ mark := by
  intro c hc mark hmark hmem
  have hall : (marks.all fun mark ↦ mark.all fun d ↦
      !(isSeparator d || isWhitespace d || isQuote d)) = true := by decide
  have hnone := List.all_eq_true.mp (List.all_eq_true.mp hall mark hmark) c hmem
  simp only [Bool.not_eq_true', Bool.or_eq_false_iff] at hnone
  obtain ⟨⟨hseparator, hspace⟩, hquote⟩ := hnone
  obtain hc | hc | hc := h c hc
  · exact absurd hc (by simp [hseparator])
  · exact absurd hc (by simp [hspace])
  · exact absurd hc (by simp [hquote])

theorem Opens.unescaped {front : List Char} (h : Opens front) : ∀ c ∈ front.getLast?, c ≠ '\\' := by
  rintro c hc rfl
  have hall : (isSeparator '\\' || isWhitespace '\\' || isQuote '\\') = false := by decide
  simp only [Bool.or_eq_false_iff] at hall
  obtain hc | hc | hc := h _ hc
  · exact absurd hc (by simp [hall])
  · exact absurd hc (by simp [hall])
  · exact absurd hc (by simp [hall])

theorem opens_of_separator {c : Char} {spaces : List Char} (name : List Char)
    (hseparator : isSeparator c = true) (hspaces : Blank spaces) (value : List Char) :
    Opens (name ++ c :: (spaces ++ openingQuote value)) := by
  intro d hd
  have hlast : d ∈ (c :: (spaces ++ openingQuote value)).getLast? := by
    rwa [List.getLast?_append_of_ne_nil _ (List.cons_ne_nil _ _)] at hd
  have hmem := List.mem_of_getLast? hlast
  obtain hnil | ⟨quote, hquote, hopening⟩ := closings_cases (openingQuote_mem value)
  · rw [hnil, List.append_nil] at hmem
    obtain rfl | hmem := List.mem_cons.mp hmem
    · exact Or.inl hseparator
    · exact Or.inr (Or.inl (hspaces d hmem))
  · have hend : (c :: (spaces ++ openingQuote value)).getLast? = some quote := by
      obtain hopening | hopening := hopening <;> simp [hopening, List.getLast?_cons]
    rw [hend] at hlast
    obtain rfl := Option.some.inj hlast
    exact Or.inr (Or.inr hquote)

/-- A pass over a text behind one without separators: where the first value is. -/
theorem value_front (hopening : ∀ c ∈ opening, isSeparator c = false)
    (h : nextValue key (opening ++ text) = some value) :
    ∃ front, text = front ++ quoteRest value ∧ front ≠ [] ∧ Opens front ∧
      (valueEnd key value).length < text.length ∧
      redactAll key (opening ++ text) =
        opening ++ (front ++ (placeholder ++ redactAll key (valueEnd key value))) := by
  obtain ⟨name, c, spaces, htext, hseparator, hspaces⟩ := nextValue_behind hopening h
  have hquote := openingQuote_append_quoteRest value
  have hfront : text = (name ++ c :: (spaces ++ openingQuote value)) ++ quoteRest value := by
    rw [htext]
    simp only [List.append_assoc, List.cons_append, hquote]
  refine ⟨name ++ c :: (spaces ++ openingQuote value), hfront, by simp,
    opens_of_separator name hseparator hspaces value, ?_, ?_⟩
  · have hle := (valueEnd_suffix key value).length_le
    rw [hfront]
    simp only [List.length_append, List.length_cons]
    omega
  · have hwhole : opening ++ text =
        (opening ++ (name ++ c :: (spaces ++ openingQuote value))) ++ quoteRest value := by
      rw [List.append_assoc, ← hfront]
    rw [redactAll_of_value h hwhole]
    simp only [List.append_assoc]

/-- What a pass does to a masked text at its first value, and behind it. -/
theorem masked_value {front : List Char} (h : Masked marks text (front ++ quoteRest value))
    (hfront : Opens front)
    (hrest : ∀ back, Masked marks back (valueEnd key value) →
      Masked marks back (redactAll key (valueEnd key value))) :
    Masked marks text (front ++ (placeholder ++ redactAll key (valueEnd key value))) := by
  obtain ⟨start, back, rfl, hstart, hback⟩ := h.split hfront.cut
  obtain ⟨inner, hinner⟩ := valueEnd_suffix key value
  rw [← hinner] at hback
  obtain ⟨rest, ⟨hidden, rfl⟩, hmasked⟩ := hback.dropFront (valueEnd_closing key value).cut
  exact hstart.append (Masked.mask hidden List.mem_cons_self (hrest rest hmasked))

/-- The induction is on the length of the text that is left. -/
theorem masked_redactAll {output : List Char} (h : Masked marks text output) (key : List Char) :
    Masked marks text (redactAll key output) := by
  induction hlength : output.length using Nat.strong_induction_on generalizing text output with
  | _ length ih =>
    subst hlength
    cases hvalue : nextValue key output with
    | none =>
      rw [redactAll_of_none hvalue]
      exact h
    | some value =>
      have hnil : ∀ c ∈ ([] : List Char), isSeparator c = false := List.forall_mem_nil _
      obtain ⟨front, hfront, -, hopens, hshort, hpass⟩ := value_front hnil hvalue
      rw [List.nil_append, List.nil_append] at hpass
      rw [hpass]
      rw [hfront] at h
      exact masked_value h hopens fun back hback ↦ ih _ hshort hback rfl

theorem masked_redactKeys {output : List Char} (h : Masked marks text output)
    (keys : List (List Char)) : Masked marks text (redactKeys keys output) := by
  induction keys generalizing output with
  | nil => exact h
  | cons key keys ih => exact ih (masked_redactAll h key)

theorem remainsOf_redactAll (h : RemainsOf marks behind text) (key : List Char) :
    RemainsOf marks behind (redactAll key text) := by
  obtain ⟨rest, hrest, hmasked⟩ := h
  exact ⟨rest, hrest, masked_redactAll hmasked key⟩

/-- A pass leaves the start of a text without separators, and masks what is behind it. -/
theorem remainsOf_redactAll_append (hopening : ∀ c ∈ opening, isSeparator c = false)
    (h : RemainsOf marks behind text) (key : List Char) :
    ∃ output, redactAll key (opening ++ text) = opening ++ output ∧ RemainsOf marks behind output := by
  cases hvalue : nextValue key (opening ++ text) with
  | none => exact ⟨text, redactAll_of_none hvalue, h⟩
  | some value =>
    obtain ⟨front, hfront, -, hopens, -, hpass⟩ := value_front hopening hvalue
    obtain ⟨rest, hrest, hmasked⟩ := h
    refine ⟨_, hpass, rest, hrest, ?_⟩
    rw [hfront] at hmasked
    exact masked_value hmasked hopens fun back hback ↦ masked_redactAll hback key

/-! ## The end of a quoted value -/

/-- No separator, quote or backslash is in the text. -/
def Inner (text : List Char) : Prop := ∀ c ∈ text, isSeparator c = false ∧ isQuote c = false ∧ c ≠ '\\'

theorem inner_placeholder : Inner placeholder := by
  have hall : (placeholder.all fun c ↦ !isSeparator c && (!isQuote c && c ≠ '\\')) = true := by decide
  simpa [Inner] using hall

theorem Inner.quoteless {quote : Char} (h : Inner text) (hquote : isQuote quote = true) :
    ∀ c ∈ text, c ≠ quote ∧ c ≠ '\\' := by
  intro c hc
  obtain ⟨-, hquote', hslash⟩ := h c hc
  refine ⟨?_, hslash⟩
  rintro rfl
  rw [hquote] at hquote'
  cases hquote'

/-- A scan for the end of a quoted value. Behind a character that is no backslash it begins anew, and
it passes over values and over what has no quotes. -/
structure Closes (ends : List Char → List Char) : Prop where
  suffix : ∀ text, ends text <:+ text
  closing : ∀ text, Closing (ends text)
  restarts : ∀ front, (∀ c ∈ front.getLast?, c ≠ '\\') →
    (∀ rest, ends (front ++ rest) = ends rest) ∨
      ∃ kept, kept ≠ [] ∧ kept <:+ front ∧ ∀ rest, ends (front ++ rest) = kept ++ rest
  delimits : ∀ front rest, rest.head?.all isUnquotedValueDelimiter = true →
    ends rest <:+ ends (front ++ rest)
  closes : ∀ quote text, isQuote quote = true → ends (quotedEnd quote text) <:+ ends text
  inner : ∀ {body} rest, Inner body → ends (body ++ rest) = ends rest

section Quoted

variable {quote c : Char} {rest : List Char}

theorem ne_backslash (hquote : isQuote quote = true) : quote ≠ '\\' := by
  obtain rfl | rfl := isQuote_cases hquote <;> decide

theorem ne_of_delimits (hquote : isQuote quote = true)
    (h : (c :: rest).head?.all isUnquotedValueDelimiter = true) : c ≠ quote ∧ c ≠ '\\' := by
  have hc : isUnquotedValueDelimiter c = true := h
  constructor
  · rintro rfl
    obtain rfl | rfl := isQuote_cases hquote <;> exact absurd hc (by decide)
  · rintro rfl
    exact absurd hc (by decide)

theorem quotedEnd_self (quote : Char) (rest : List Char) :
    quotedEnd quote (quote :: rest) = quote :: rest := by
  cases rest with
  | nil => rw [quotedEnd, if_pos rfl]
  | cons d rest => rw [quotedEnd, if_pos rfl]

theorem quotedEnd_cons (hquote : c ≠ quote) (hescape : c ≠ '\\') (rest : List Char) :
    quotedEnd quote (c :: rest) = quotedEnd quote rest := by
  have hbody : ∀ d ∈ [c], d ≠ quote ∧ d ≠ '\\' := by simpa using And.intro hquote hescape
  exact quotedEnd_quoteless hbody

theorem quotedEnd_escaped (hquote : isQuote quote = true) (rest : List Char) :
    quotedEnd quote ('\\' :: c :: rest) = quotedEnd quote rest := by
  rw [quotedEnd, if_neg (ne_backslash hquote).symm, if_pos rfl]

theorem getLast?_tail {d : Char} {front : List Char} (hlast : ∀ c ∈ (d :: front).getLast?, c ≠ '\\') :
    ∀ c ∈ front.getLast?, c ≠ '\\' := by
  intro c hc
  apply hlast c
  rw [List.getLast?_cons, Option.mem_def.mp hc]
  rfl

theorem getLast?_cons {d : Char} {front : List Char} (hd : front = [] → d ≠ '\\')
    (hlast : ∀ c ∈ front.getLast?, c ≠ '\\') : ∀ c ∈ (d :: front).getLast?, c ≠ '\\' := by
  intro c hc
  cases front with
  | nil =>
    obtain rfl := Option.some.inj hc
    exact hd rfl
  | cons e front =>
    rw [List.getLast?_cons_cons] at hc
    exact hlast c hc

theorem quotedEnd_restarts (hquote : isQuote quote = true) (front : List Char)
    (hlast : ∀ c ∈ front.getLast?, c ≠ '\\') :
    (∀ rest, quotedEnd quote (front ++ rest) = quotedEnd quote rest) ∨
      ∃ kept, kept ≠ [] ∧ kept <:+ front ∧ ∀ rest, quotedEnd quote (front ++ rest) = kept ++ rest := by
  fun_induction quotedEnd quote front with
  | case1 => exact Or.inl fun rest ↦ rfl
  | case2 => exact Or.inr ⟨[quote], by simp, List.suffix_refl _, quotedEnd_self quote⟩
  | case3 c hc =>
    have hescape : c ≠ '\\' := hlast c (by simp)
    exact Or.inl (quotedEnd_cons hc hescape)
  | case4 escaped front =>
    exact Or.inr ⟨quote :: escaped :: front, by simp, List.suffix_refl _, fun rest ↦
      quotedEnd_self quote (escaped :: front ++ rest)⟩
  | case5 escaped front hc ih =>
    obtain hpasses | ⟨kept, hkept, hsuffix, hcloses⟩ := ih (getLast?_tail (getLast?_tail hlast))
    · refine Or.inl fun rest ↦ ?_
      rw [List.cons_append, List.cons_append, quotedEnd_escaped hquote, hpasses]
    · refine Or.inr ⟨kept, hkept, ?_, fun rest ↦ ?_⟩
      · exact (hsuffix.trans (List.suffix_cons _ _)).trans (List.suffix_cons _ _)
      · rw [List.cons_append, List.cons_append, quotedEnd_escaped hquote, hcloses]
  | case6 c escaped front hc hescape ih =>
    obtain hpasses | ⟨kept, hkept, hsuffix, hcloses⟩ := ih (getLast?_tail hlast)
    · refine Or.inl fun rest ↦ ?_
      rw [List.cons_append, quotedEnd_cons hc hescape, hpasses]
    · refine Or.inr ⟨kept, hkept, hsuffix.trans (List.suffix_cons _ _), fun rest ↦ ?_⟩
      rw [List.cons_append, quotedEnd_cons hc hescape, hcloses]

theorem quotedEnd_delimits (hquote : isQuote quote = true) (front : List Char)
    (hrest : rest.head?.all isUnquotedValueDelimiter = true) :
    quotedEnd quote rest <:+ quotedEnd quote (front ++ rest) := by
  have hwhole (front : List Char) : quotedEnd quote rest <:+ front ++ rest :=
    (quotedEnd_suffix quote rest).trans (List.suffix_append front rest)
  fun_induction quotedEnd quote front with
  | case1 => exact List.suffix_refl _
  | case2 =>
    rw [List.cons_append, List.nil_append, quotedEnd_self]
    exact hwhole [quote]
  | case3 c hc =>
    by_cases hescape : c = '\\'
    · -- a backslash right before the delimiter takes it along
      subst hescape
      cases rest with
      | nil => exact List.nil_suffix
      | cons d rest =>
        obtain ⟨hd, hd'⟩ := ne_of_delimits hquote hrest
        rw [List.cons_append, List.nil_append, quotedEnd_escaped hquote, quotedEnd_cons hd hd']
    · rw [List.cons_append, List.nil_append, quotedEnd_cons hc hescape]
  | case4 escaped front =>
    rw [List.cons_append, quotedEnd_self]
    exact hwhole (quote :: escaped :: front)
  | case5 escaped front hc ih =>
    rw [List.cons_append, List.cons_append, quotedEnd_escaped hquote]
    exact ih
  | case6 c escaped front hc hescape ih =>
    rw [List.cons_append, quotedEnd_cons hc hescape]
    exact ih

theorem quotedEnd_closes (hquote : isQuote quote = true) (quote' : Char) (text : List Char) :
    quotedEnd quote (quotedEnd quote' text) <:+ quotedEnd quote text := by
  fun_induction quotedEnd quote' text with
  | case1 => exact List.suffix_refl _
  | case2 => exact List.suffix_refl _
  | case3 => exact List.nil_suffix
  | case4 => exact List.suffix_refl _
  | case5 escaped rest hc ih =>
    rw [quotedEnd_escaped hquote]
    exact ih
  | case6 c escaped rest hc hescape ih =>
    by_cases hother : c = quote
    · rw [hother, quotedEnd_self]
      exact (ih.trans (quotedEnd_suffix _ _)).trans (List.suffix_cons _ _)
    · rw [quotedEnd_cons hother hescape]
      exact ih

theorem closes_quotedEnd (hquote : isQuote quote = true) : Closes (quotedEnd quote) where
  suffix := quotedEnd_suffix quote
  closing := quotedEnd_closing hquote
  restarts := quotedEnd_restarts hquote
  delimits front _ := quotedEnd_delimits hquote front
  closes quote' text _ := quotedEnd_closes hquote quote' text
  inner _ hbody := quotedEnd_quoteless (hbody.quoteless hquote)

section Escaped

variable {quote c previous : Char} {rest : List Char}

/-- The character before the text matters only if it is a backslash. -/
theorem escapedEnd_of_ne {other : Char} (hprevious : previous ≠ '\\') (hother : other ≠ '\\')
    (text : List Char) : escapedEnd quote previous text = escapedEnd quote other text := by
  cases text with
  | nil => rw [escapedEnd, escapedEnd]
  | cons c text =>
    cases text with
    | nil => rw [escapedEnd, escapedEnd]
    | cons d text => rw [escapedEnd, escapedEnd, if_neg hprevious, if_neg hother]

theorem escapedEnd_quote (hquote : isQuote quote = true) (previous : Char) (rest : List Char) :
    escapedEnd quote previous (quote :: rest) = escapedEnd quote quote rest :=
  escapedEnd_cons (ne_backslash hquote) rest

theorem escapedEnd_restarts (hquote : isQuote quote = true) (front : List Char)
    (hprevious : previous ≠ '\\' ∨ front ≠ []) (hlast : ∀ c ∈ front.getLast?, c ≠ '\\') :
    (∀ rest, escapedEnd quote previous (front ++ rest) = escapedEnd quote quote rest) ∨
      ∃ kept, kept ≠ [] ∧ kept <:+ front ∧
        ∀ rest, escapedEnd quote previous (front ++ rest) = kept ++ rest := by
  have hslash := ne_backslash hquote
  fun_induction escapedEnd quote previous front with
  | case1 previous =>
    have hprevious := hprevious.resolve_right fun hne ↦ hne rfl
    exact Or.inl (escapedEnd_of_ne hprevious hslash)
  | case2 previous c =>
    have hc : c ≠ '\\' := hlast c (by simp)
    refine Or.inl fun rest ↦ ?_
    rw [List.cons_append, List.nil_append, escapedEnd_cons hc]
    exact escapedEnd_of_ne hc hslash rest
  | case3 c d front hescaped ih =>
    obtain hpasses | ⟨kept, hkept, hsuffix, hcloses⟩ :=
      ih (Or.inl hslash) (getLast?_tail (getLast?_tail hlast))
    · refine Or.inl fun rest ↦ ?_
      rw [List.cons_append, List.cons_append, escapedEnd, if_pos hescaped, if_pos rfl, hpasses]
    · refine Or.inr ⟨kept, hkept, ?_, fun rest ↦ ?_⟩
      · exact (hsuffix.trans (List.suffix_cons _ _)).trans (List.suffix_cons _ _)
      · rw [List.cons_append, List.cons_append, escapedEnd, if_pos hescaped, if_pos rfl, hcloses]
  | case4 previous c d front hescaped hprevious' =>
    refine Or.inr ⟨c :: d :: front, by simp, List.suffix_refl _, fun rest ↦ ?_⟩
    rw [List.cons_append, List.cons_append, escapedEnd, if_pos hescaped, if_neg hprevious']
  | case5 previous c d front hescaped ih =>
    obtain hpasses | ⟨kept, hkept, hsuffix, hcloses⟩ :=
      ih (Or.inr (List.cons_ne_nil _ _)) (getLast?_tail hlast)
    · refine Or.inl fun rest ↦ ?_
      rw [List.cons_append, List.cons_append, escapedEnd, if_neg hescaped, ← List.cons_append, hpasses]
    · refine Or.inr ⟨kept, hkept, hsuffix.trans (List.suffix_cons _ _), fun rest ↦ ?_⟩
      rw [List.cons_append, List.cons_append, escapedEnd, if_neg hescaped, ← List.cons_append, hcloses]

theorem escapedEnd_delimits (hquote : isQuote quote = true) (front : List Char)
    (hrest : rest.head?.all isUnquotedValueDelimiter = true) (previous : Char) :
    escapedEnd quote quote rest <:+ escapedEnd quote previous (front ++ rest) := by
  have hunescaped : rest.head?.all (· ≠ '\\') = true := by
    cases rest with
    | nil => rfl
    | cons d rest => exact decide_eq_true (ne_of_delimits hquote hrest).2
  fun_induction escapedEnd quote previous front with
  | case1 previous => rw [List.nil_append, escapedEnd_previous hunescaped quote previous]
  | case2 previous c =>
    have hnext : escapedEnd quote previous (c :: rest) = escapedEnd quote c rest := by
      cases rest with
      | nil => rw [escapedEnd, escapedEnd]
      | cons d rest => rw [escapedEnd, if_neg fun h ↦ (ne_of_delimits hquote hrest).1 h.2]
    rw [List.cons_append, List.nil_append, hnext, escapedEnd_previous hunescaped quote c]
  | case3 c d front hescaped ih =>
    rw [List.cons_append, List.cons_append, escapedEnd, if_pos hescaped, if_pos rfl]
    exact ih
  | case4 previous c d front hescaped hprevious =>
    rw [List.cons_append, List.cons_append, escapedEnd, if_pos hescaped, if_neg hprevious]
    exact (escapedEnd_suffix _ _ _).trans (List.suffix_append (c :: d :: front) rest)
  | case5 previous c d front hescaped ih =>
    rw [List.cons_append, List.cons_append, escapedEnd, if_neg hescaped, ← List.cons_append]
    exact ih

/-- Behind two backslashes an escaped quote does not close the value. -/
theorem escapedEnd_backslash (hquote : isQuote quote = true) (rest : List Char) :
    ∃ previous, escapedEnd quote '\\' ('\\' :: rest) = escapedEnd quote previous rest := by
  cases rest with
  | nil => exact ⟨quote, by rw [escapedEnd, escapedEnd]⟩
  | cons d rest =>
    by_cases hd : d = quote
    · subst hd
      refine ⟨d, ?_⟩
      rw [escapedEnd, if_pos ⟨rfl, rfl⟩, if_pos rfl, escapedEnd_quote hquote]
    · exact ⟨'\\', by rw [escapedEnd, if_neg fun h ↦ hd h.2]⟩

/-- The two scans go along each other; the one for the other quote takes two characters at a backslash. -/
theorem escapedEnd_closes (hquote : isQuote quote = true) {quote' : Char}
    (hquote' : isQuote quote' = true) (text : List Char) (previous previous' : Char) :
    escapedEnd quote previous' (quotedEnd quote' text) <:+ escapedEnd quote previous text := by
  fun_induction quotedEnd quote' text generalizing previous with
  | case1 =>
    rw [escapedEnd]
    exact List.nil_suffix
  | case2 =>
    rw [escapedEnd]
    exact List.nil_suffix
  | case3 =>
    rw [escapedEnd]
    exact List.nil_suffix
  | case4 =>
    have hslash := ne_backslash hquote'
    rw [escapedEnd_cons hslash, escapedEnd_cons hslash]
  | case5 escaped rest hc ih =>
    by_cases hescaped : escaped = quote
    · subst hescaped
      by_cases hprevious : previous = '\\'
      · rw [escapedEnd, if_pos ⟨rfl, rfl⟩, if_pos hprevious]
        exact ih escaped
      · -- the value closes here
        rw [escapedEnd.eq_3 escaped previous, if_pos ⟨rfl, rfl⟩, if_neg hprevious]
        have hsuffix := (escapedEnd_suffix escaped previous' _).trans (quotedEnd_suffix quote' rest)
        exact (hsuffix.trans (List.suffix_cons _ _)).trans (List.suffix_cons _ _)
    · have hnext : escapedEnd quote previous ('\\' :: escaped :: rest) =
          escapedEnd quote '\\' (escaped :: rest) := by
        rw [escapedEnd, if_neg fun h ↦ hescaped h.2]
      rw [hnext]
      by_cases hslash : escaped = '\\'
      · obtain ⟨next, hbackslash⟩ := escapedEnd_backslash hquote rest
        rw [hslash, hbackslash]
        exact ih next
      · rw [escapedEnd_cons hslash]
        exact ih escaped
  | case6 c escaped rest hc hescape ih =>
    have hnext : escapedEnd quote previous (c :: escaped :: rest) = escapedEnd quote c (escaped :: rest) :=
      escapedEnd_cons hescape _
    rw [hnext]
    exact ih c

theorem escapedEnd_unescaped (hquote : isQuote quote = true) {body : List Char}
    (hbody : ∀ c ∈ body, c ≠ '\\') (hprevious : previous ≠ '\\') :
    escapedEnd quote previous (body ++ rest) = escapedEnd quote quote rest := by
  induction body generalizing previous with
  | nil => exact escapedEnd_of_ne hprevious (ne_backslash hquote) rest
  | cons c body ih =>
    have hc := hbody c List.mem_cons_self
    rw [List.cons_append, escapedEnd_cons hc]
    exact ih (fun d hd ↦ hbody d (List.mem_cons_of_mem c hd)) hc

theorem closes_escapedEnd (hquote : isQuote quote = true) : Closes (escapedEnd quote quote) where
  suffix := escapedEnd_suffix quote quote
  closing := escapedEnd_closing quote quote
  restarts front := escapedEnd_restarts hquote front (Or.inl (ne_backslash hquote))
  delimits front _ hrest := escapedEnd_delimits hquote front hrest quote
  closes _ text hquote' := escapedEnd_closes hquote hquote' text quote quote
  inner _ hbody := escapedEnd_unescaped hquote (fun c hc ↦ (hbody c hc).2.2) (ne_backslash hquote)

/-- A value in escaped quotes ends behind a character that is no backslash. -/
theorem escapedEnd_front (hquote : isQuote quote = true) (previous : Char) (text : List Char) :
    escapedEnd quote previous text = [] ∨ ∃ front, text = front ++ escapedEnd quote previous text ∧
      (front = [] → previous ≠ '\\') ∧ ∀ c ∈ front.getLast?, c ≠ '\\' := by
  fun_induction escapedEnd quote previous text with
  | case1 => exact Or.inl rfl
  | case2 => exact Or.inl rfl
  | case3 c d rest hescaped ih =>
    obtain hnil | ⟨front, hfront, -, hlast⟩ := ih
    · exact Or.inl hnil
    · refine Or.inr ⟨c :: d :: front, ?_, fun h ↦ absurd h (List.cons_ne_nil _ _), ?_⟩
      · rw [List.cons_append, List.cons_append, ← hfront]
      · rw [hescaped.2]
        apply getLast?_cons fun h ↦ absurd h (List.cons_ne_nil _ _)
        exact getLast?_cons (fun _ ↦ ne_backslash hquote) hlast
  | case4 previous c d rest _ hprevious =>
    exact Or.inr ⟨[], rfl, fun _ ↦ hprevious, by simp⟩
  | case5 previous c d rest hescaped ih =>
    obtain hnil | ⟨front, hfront, hstart, hlast⟩ := ih
    · exact Or.inl hnil
    · refine Or.inr ⟨c :: front, ?_, fun h ↦ absurd h (List.cons_ne_nil _ _), getLast?_cons hstart hlast⟩
      rw [List.cons_append, ← hfront]

end Escaped

end Quoted

/-! ## Passes before the one that hides the value -/

namespace Closes

variable {ends : List Char → List Char}

/-- The end of a value is no earlier behind another value than at its start. -/
theorem valueEnd_suffix (hends : Closes ends) (key value : List Char) :
    ends (valueEnd key value) <:+ ends (quoteRest value) := by
  have hnil (text : List Char) : ends [] <:+ text := by
    rw [List.suffix_nil.mp (hends.suffix [])]
    exact List.nil_suffix
  have htoken (text : List Char) : ends (tokenEnd key text) <:+ ends text := by
    obtain ⟨token, htoken⟩ := tokenEnd_suffix key text
    have hdelimits := hends.delimits token (tokenEnd key text) (tokenEnd_delimits key text)
    rwa [htoken] at hdelimits
  fun_cases valueEnd key value with
  | case1 => exact hnil _
  | case2 => exact hnil _
  | case3 c hquote =>
    rw [quoteRest_singleton, if_neg hquote]
    exact htoken [c]
  | case4 c d rest hescaped =>
    rw [quoteRest_cons_cons, if_pos hescaped]
    obtain hempty | ⟨front, hfront, -, hlast⟩ := escapedEnd_front hescaped.2 d rest
    · rw [hempty]
      exact hnil _
    · obtain hpasses | ⟨kept, -, -, hcloses⟩ := hends.restarts front hlast
      · conv_rhs => rw [hfront, hpasses]
      · conv_rhs => rw [hfront, hcloses]
        exact (hends.suffix _).trans (List.suffix_append kept _)
  | case5 c d rest hescaped hquote =>
    rw [quoteRest_cons_cons, if_neg hescaped, if_pos hquote]
    exact hends.closes c (d :: rest) hquote
  | case6 c d rest hescaped hquote =>
    rw [quoteRest_cons_cons, if_neg hescaped, if_neg hquote]
    exact htoken (c :: d :: rest)

/-- A pass masks what is behind the end of a quoted value, whatever it replaces in front of it. The
induction is on the length of the text. -/
theorem remainsOf_redactAll (hends : Closes ends) (hopening : ∀ c ∈ opening, isSeparator c = false)
    (h : RemainsOf marks behind (ends text)) (key : List Char) :
    ∃ output, redactAll key (opening ++ text) = opening ++ output ∧
      RemainsOf marks behind (ends output) := by
  induction hlength : text.length using Nat.strong_induction_on generalizing opening text with
  | _ length ih =>
    subst hlength
    cases hvalue : nextValue key (opening ++ text) with
    | none => exact ⟨text, redactAll_of_none hvalue, h⟩
    | some value =>
      obtain ⟨front, hfront, -, hopens, hshort, hpass⟩ := value_front hopening hvalue
      refine ⟨_, hpass, ?_⟩
      obtain hpasses | ⟨kept, hkept, ⟨skipped, rfl⟩, hcloses⟩ := hends.restarts front hopens.unescaped
      · rw [hfront, hpasses] at h
        obtain ⟨inner, hinner⟩ := hends.valueEnd_suffix key value
        rw [← hinner] at h
        obtain ⟨output, houtput, hremains⟩ :=
          ih _ hshort (List.forall_mem_nil _) (h.dropFront (hends.closing _).cut) rfl
        rw [List.nil_append, List.nil_append] at houtput
        rw [hpasses, hends.inner _ inner_placeholder, houtput]
        exact hremains
      · -- the value has ended before
        obtain ⟨rest, hrest, hmasked⟩ := h
        rw [hfront, hcloses] at hmasked
        have hopens' : Opens kept := by
          intro c hc
          apply hopens c
          rwa [List.getLast?_append_of_ne_nil _ hkept]
        rw [hcloses]
        exact ⟨rest, hrest, masked_value hmasked hopens' fun back hback ↦ masked_redactAll hback key⟩

end Closes

/-- The end of a quoted value does not depend on the key. -/
theorem exists_closes (hmem : opening ∈ closings) (hopening : opening ≠ []) :
    ∃ ends, Closes ends ∧ (∀ key text, valueEnd key (opening ++ text) = ends text) ∧
      ∀ rest, ends (opening ++ rest) = opening ++ rest := by
  obtain hnil | ⟨quote, hquote, rfl | rfl⟩ := closings_cases hmem
  · exact absurd hnil hopening
  · refine ⟨quotedEnd quote, closes_quotedEnd hquote, fun key text ↦ ?_, quotedEnd_self quote⟩
    rw [List.cons_append, List.nil_append]
    apply (quoted_cons _ hquote).2
    cases text with
    | nil => simp [startsEscapedQuote_singleton]
    | cons d text => simp [startsEscapedQuote_cons_cons, ne_backslash hquote]
  · refine ⟨escapedEnd quote quote, closes_escapedEnd hquote, fun key text ↦ ?_, fun rest ↦ ?_⟩
    · rw [List.cons_append, List.cons_append, List.nil_append, valueEnd, if_pos ⟨rfl, hquote⟩]
    · rw [List.cons_append, List.cons_append, escapedEnd, if_pos ⟨rfl, rfl⟩,
        if_neg (ne_backslash hquote)]

/-! ### Unquoted values -/

theorem unquoted_of_openingQuote (h : openingQuote text = []) : Unquoted text := by
  cases text with
  | nil => exact unquoted_nil
  | cons c text =>
    cases text with
    | nil =>
      have hquote : ¬isQuote c = true := by
        intro hquote
        rw [openingQuote, if_pos hquote] at h
        cases h
      exact unquoted_cons (by simp [startsEscapedQuote_singleton]) hquote
    | cons d text =>
      rw [openingQuote] at h
      split_ifs at h with hescaped hquote
      exact unquoted_cons (by simpa [startsEscapedQuote_cons_cons] using hescaped) hquote

/-- No marker of the key has its value in the text, whatever follows. -/
def Passed (key text : List Char) : Prop :=
  ∀ rest valueStart, findNextMarker (text ++ rest) key 0 = some (some valueStart) →
    byteLen text ≤ valueStart

theorem Passed.suffix (h : Passed key text) (hkey : key ≠ []) {rest : List Char}
    (hvalue : nextValue key (text ++ rest) = some value) : value <:+ rest := by
  obtain ⟨next, hmarker, hrel⟩ := findNextMarker_eq hkey (StartsAt.start (text ++ rest))
  rw [hvalue] at hrel
  cases hrel with
  | some hrel =>
    have hle := h rest _ hmarker
    obtain ⟨before, hbefore, rfl⟩ := hrel
    obtain ⟨more, rfl, rfl⟩ | ⟨more, rfl, rfl⟩ := List.append_eq_append_iff.mp hbefore
    · exact List.suffix_append more value
    · have hlength := length_le_byteLen more
      rw [byteLen_append] at hle
      obtain rfl : more = [] := List.length_eq_zero_iff.mp (by omega)
      exact List.suffix_refl _

/-- A key that is not in the text has no marker there. -/
theorem passed_of_absent (hkey : key ≠ []) (h : ¬key <:+: toAsciiLowercase text) : Passed key text := by
  intro rest valueStart hmarker
  obtain ⟨next, hnext, hrel⟩ := findNextMarker_eq hkey (StartsAt.start (text ++ rest))
  rw [hmarker] at hnext
  obtain rfl := Option.some.inj hnext
  cases hvalue : nextValue key (text ++ rest) with
  | none =>
    rw [hvalue] at hrel
    cases hrel
  | some value =>
    rw [hvalue] at hrel
    cases hrel with
    | some hrel =>
      obtain ⟨before, hbefore, rfl⟩ := hrel
      obtain ⟨more, rfl, -⟩ | ⟨more, rfl, -⟩ := List.append_eq_append_iff.mp hbefore
      · rw [byteLen_append]
        exact Nat.le_add_right _ _
      · obtain ⟨name, c, spaces, hname, hinside, -⟩ := nextValue_separator hvalue
        have hboth : before ++ value = (name ++ c :: spaces) ++ value := by
          rw [← hbefore, hname]
          simp only [List.append_assoc, List.cons_append]
        have hfront : before = name ++ c :: spaces := List.append_cancel_right hboth
        refine absurd (hinside.trans ?_) h
        rw [hfront]
        simp only [toAsciiLowercase, List.map_append, List.append_assoc]
        exact (List.prefix_append _ _).isInfix

/-- No quote is in the text and no value ends in it. -/
def Bare (text : List Char) : Prop :=
  ∀ c ∈ text, isUnquotedValueDelimiter c = false ∧ isQuote c = false

theorem unquotedEnd_bare {token : List Char} (h : Bare token) {rest : List Char}
    (hrest : rest.head?.all isUnquotedValueDelimiter = true) : unquotedEnd (token ++ rest) = rest := by
  rw [unquotedEnd_append_nil, unquotedEnd_delimited hrest]
  rw [unquotedEnd, List.dropWhile_eq_nil_iff]
  intro c hc
  rw [(h c hc).1]
  rfl

theorem isQuote_of_delimiter {c : Char} (h : isUnquotedValueDelimiter c = true) :
    isQuote c = false := by
  cases hquote : isQuote c with
  | false => rfl
  | true => obtain rfl | rfl := isQuote_cases hquote <;> exact absurd h (by decide)

theorem unquoted_bare {token : List Char} (h : Bare token) {rest : List Char}
    (hrest : rest.head?.all isUnquotedValueDelimiter = true) : Unquoted (token ++ rest) := by
  cases token with
  | nil =>
    cases rest with
    | nil => exact unquoted_nil
    | cons c rest =>
      have hc : c ≠ '\\' := by
        rintro rfl
        have hslash : isUnquotedValueDelimiter '\\' = true := hrest
        exact absurd hslash (by decide)
      apply unquoted_cons
      · cases rest with
        | nil => simp [startsEscapedQuote_singleton]
        | cons d rest => simp [startsEscapedQuote_cons_cons, hc]
      · simp [isQuote_of_delimiter hrest]
  | cons c token =>
    have hsecond : ∀ d ∈ (token ++ rest).head?, isQuote d = false := by
      intro d hd
      cases token with
      | nil =>
        rw [List.nil_append] at hd
        rw [Option.mem_def.mp hd] at hrest
        exact isQuote_of_delimiter hrest
      | cons e token =>
        obtain rfl := Option.some.inj hd
        exact (h e (List.mem_cons_of_mem c List.mem_cons_self)).2
    rw [List.cons_append]
    apply unquoted_cons
    · cases htail : token ++ rest with
      | nil => simp [startsEscapedQuote_singleton]
      | cons d tail =>
        rw [htail] at hsecond
        simp [startsEscapedQuote_cons_cons, hsecond d rfl]
    · simp [(h c List.mem_cons_self).2]

theorem tokenEnd_suffix_unquotedEnd (key text : List Char) : tokenEnd key text <:+ unquotedEnd text := by
  simp only [tokenEnd]
  split_ifs
  · exact (unquotedEnd_suffix _).trans (spaceRest_suffix _)
  · exact List.suffix_refl _

/-- The text keeps its start, and what is behind its next token is left of what was behind the value. -/
def Spares (kept behind text : List Char) : Prop :=
  ∃ token rest, text = kept ++ (token ++ rest) ∧ Bare token ∧
    rest.head?.all isUnquotedValueDelimiter = true ∧ RemainsOf marks behind rest

section Spares

variable {kept token rest : List Char}

/-- The value is the end of the token. -/
theorem spares_of_token (hvalue : nextValue key (kept ++ (token ++ (value ++ rest))) = some (value ++ rest))
    (htoken : Bare token) (hbare : Bare value)
    (hdelimits : rest.head?.all isUnquotedValueDelimiter = true) (hremains : RemainsOf marks behind rest) :
    Spares kept behind (redactAll key (kept ++ (token ++ (value ++ rest)))) := by
  obtain ⟨hquote, hend⟩ := unquoted_bare hbare hdelimits
  have hsuffix := tokenEnd_suffix_unquotedEnd key (value ++ rest)
  rw [unquotedEnd_bare hbare hdelimits] at hsuffix
  obtain ⟨skipped, hskipped⟩ := hsuffix
  have hclosing := closing_of_delimits (tokenEnd_delimits key (value ++ rest))
  rw [← hskipped] at hremains
  have hnext := remainsOf_redactAll (hremains.dropFront hclosing.cut) key
  have htext : kept ++ (token ++ (value ++ rest)) = (kept ++ token) ++ quoteRest (value ++ rest) := by
    rw [hquote, List.append_assoc]
  have hstart : Bare "[REDACTED".toList := by
    have hall : ("[REDACTED".toList.all fun c ↦ !isUnquotedValueDelimiter c && !isQuote c) = true := by
      decide
    simpa [Bare] using hall
  have hbracket : isUnquotedValueDelimiter ']' = true := by decide
  refine ⟨token ++ "[REDACTED".toList, [']'] ++ redactAll key (tokenEnd key (value ++ rest)), ?_, ?_,
    hbracket, hnext.mark_append bracket_mem⟩
  · rw [redactAll_of_value hvalue htext, hend]
    simp only [List.append_assoc]
    rfl
  · intro c hc
    obtain hc | hc := List.mem_append.mp hc
    · exact htoken c hc
    · exact hstart c hc

/-- The value stands behind the token. -/
theorem spares_of_rest {first : Char} {others : List Char}
    (hvalue : nextValue key (kept ++ (token ++ (first :: others ++ value))) = some value)
    (htoken : Bare token) (hfirst : isUnquotedValueDelimiter first = true)
    (hremains : RemainsOf marks behind (first :: others ++ value)) :
    Spares kept behind (redactAll key (kept ++ (token ++ (first :: others ++ value)))) := by
  obtain ⟨name, c, spaces, hname, -, hseparator, hspaces⟩ := nextValue_separator hvalue
  have hboth : (kept ++ (token ++ first :: others)) ++ value = (name ++ c :: spaces) ++ value := by
    simpa only [List.append_assoc, List.cons_append] using hname
  have hfront : kept ++ (token ++ first :: others) = name ++ c :: spaces :=
    List.append_cancel_right hboth
  have hopens : Opens (first :: others ++ openingQuote value) := by
    have hwhole := opens_of_separator name hseparator hspaces value
    rw [← List.cons_append, ← List.append_assoc, ← hfront] at hwhole
    intro d hd
    apply hwhole d
    rw [List.append_assoc, List.append_assoc, List.getLast?_append_of_ne_nil, List.getLast?_append_of_ne_nil]
    · exact hd
    · exact List.cons_ne_nil _ _
    · simp
  have hquote := openingQuote_append_quoteRest value
  have htext : kept ++ (token ++ (first :: others ++ value)) =
      (kept ++ (token ++ (first :: others ++ openingQuote value))) ++ quoteRest value := by
    simp only [List.append_assoc, hquote]
  obtain ⟨back, hback, hmasked⟩ := hremains
  rw [← hquote, ← List.append_assoc] at hmasked
  refine ⟨token, first :: others ++ openingQuote value ++
    (placeholder ++ redactAll key (valueEnd key value)), ?_, htoken, hfirst, back, hback, ?_⟩
  · rw [redactAll_of_value hvalue htext]
    simp only [List.append_assoc]
  · exact masked_value hmasked hopens fun back hback ↦ masked_redactAll hback key

/-- A pass that has no marker in the start of an unquoted value replaces a part of the token behind it,
or goes on behind the token. -/
theorem spares_redactAll {text : List Char} (hkey : key ≠ []) (hpassed : Passed key kept)
    (h : Spares kept behind text) : Spares kept behind (redactAll key text) := by
  obtain ⟨token, rest, rfl, htoken, hdelimits, hremains⟩ := h
  cases hvalue : nextValue key (kept ++ (token ++ rest)) with
  | none =>
    rw [redactAll_of_none hvalue]
    exact ⟨token, rest, rfl, htoken, hdelimits, hremains⟩
  | some value =>
    obtain ⟨front, hfront⟩ := hpassed.suffix hkey hvalue
    obtain ⟨inner, rfl, rfl⟩ | ⟨more, rfl, rfl⟩ := List.append_eq_append_iff.mp hfront
    · rw [List.append_assoc] at hvalue ⊢
      apply spares_of_token hvalue _ _ hdelimits hremains
      · exact fun c hc ↦ htoken c (List.mem_append_left inner hc)
      · exact fun c hc ↦ htoken c (List.mem_append_right front hc)
    · cases more with
      | nil =>
        have hvalue' : nextValue key (kept ++ (token ++ ([] ++ value))) = some ([] ++ value) := hvalue
        exact spares_of_token hvalue' htoken (List.forall_mem_nil _) hdelimits hremains
      | cons first others => exact spares_of_rest hvalue htoken hdelimits hremains

theorem unquotedEnd_spaceRest (text : List Char) : unquotedEnd (spaceRest text) <:+ unquotedEnd text := by
  cases text with
  | nil => exact List.suffix_refl _
  | cons c text =>
    by_cases hspace : isWhitespace c = true
    · have hdelimits : (c :: text).head?.all isUnquotedValueDelimiter = true := by
        simp [isUnquotedValueDelimiter, hspace]
      rw [unquotedEnd_delimited hdelimits]
      exact (unquotedEnd_suffix _).trans (spaceRest_suffix _)
    · have hstay : spaceRest (c :: text) = c :: text := List.dropWhile_cons_of_neg hspace
      rw [hstay]

/-- A scan that goes over the start of a value ends no earlier behind another text than the token there.
The start may hold the first of two tokens. -/
theorem tokenEnd_suffix_of_split {last : List Char}
    (hsplit : value = kept ++ (last ++ tokenEnd key value)) (text : List Char) :
    tokenEnd key (kept ++ text) <:+ unquotedEnd text := by
  have hshorter (front : List Char) (hfront : front ≠ []) :
      tokenEnd key value ≠ front ++ (last ++ tokenEnd key value) := by
    intro heq
    have hlength := congrArg List.length heq
    have hpos := List.length_pos_of_ne_nil hfront
    simp only [List.length_append] at hlength
    omega
  cases hkept : unquotedEnd kept with
  | nil =>
    rw [← unquotedEnd_append_nil hkept]
    exact tokenEnd_suffix_unquotedEnd key (kept ++ text)
  | cons d more =>
    -- the value has a second token, in which the start ends
    have htoken (rest : List Char) : tokenEnd key (kept ++ rest) =
        if key = authorizationKey ∧ (spaceRest (d :: more ++ rest)).length < (d :: more ++ rest).length then
          unquotedEnd (spaceRest (d :: more ++ rest)) else d :: more ++ rest := by
      simp only [tokenEnd, unquotedEnd_append_cons hkept]
    have hend := htoken (last ++ tokenEnd key value)
    rw [← hsplit] at hend
    split_ifs at hend with htwo
    swap
    · exact absurd hend (hshorter _ (List.cons_ne_nil d more))
    obtain ⟨hkey, hlt⟩ := htwo
    cases hsecond : spaceRest (d :: more) with
    | nil =>
      have hspaces (rest : List Char) : spaceRest (d :: more ++ rest) = spaceRest rest := by
        apply List.dropWhile_append_of_pos
        exact List.dropWhile_eq_nil_iff.mp hsecond
      have hle := (spaceRest_suffix text).length_le
      rw [htoken, hspaces, if_pos ⟨hkey, by simp only [List.length_append, List.length_cons]; omega⟩]
      exact unquotedEnd_spaceRest text
    | cons e after =>
      have hspaces (rest : List Char) : spaceRest (d :: more ++ rest) = e :: after ++ rest := by
        rw [spaceRest] at hsecond ⊢
        rw [List.dropWhile_append, hsecond]
        rfl
      rw [hspaces] at hend hlt
      have hundelimited : unquotedEnd (e :: after) = [] := by
        cases hafter : unquotedEnd (e :: after) with
        | nil => rfl
        | cons f rest =>
          rw [unquotedEnd_append_cons hafter] at hend
          exact absurd hend (hshorter _ (List.cons_ne_nil f rest))
      rw [htoken, hspaces, if_pos, unquotedEnd_append_nil hundelimited]
      refine ⟨hkey, ?_⟩
      simp only [List.length_append, List.length_cons] at hlt ⊢
      omega

end Spares

theorem tokenEnd_of_mark {c : Char} {rest : List Char} (h : unquotedEnd text = c :: rest)
    (hc : isWhitespace c = false) : tokenEnd key text = c :: rest := by
  have hspace : spaceRest (c :: rest) = c :: rest := List.dropWhile_cons_of_neg (by rw [hc]; simp)
  simp only [tokenEnd, h, hspace, lt_irrefl, and_false, if_false]

/-! ## The passes over a heading -/

namespace Heading

variable (self : Heading)

/-- A pass over a hidden value leaves the placeholder and masks what is behind it. -/
theorem pass_hidden {hidden : List Char} (hopening : opening ∈ closings)
    (h : RemainsOf marks behind hidden) (key : List Char) :
    ∃ output, self.pass (opening ++ (placeholder ++ hidden)) key = opening ++ (placeholder ++ output) ∧
      RemainsOf marks behind output := by
  rw [pass]
  by_cases hlabel : key <:+: toAsciiLowercase self.label
  · rw [if_pos hlabel, openingQuote_placeholder hopening]
    by_cases hbare : opening = []
    · -- the value ends at the bracket of the placeholder
      subst hbare
      have hunquoted : Unquoted (placeholder ++ hidden) :=
        unquoted_of_openingQuote (openingQuote_placeholder hopening hidden)
      have hend : valueEnd key (placeholder ++ hidden) = [']'] ++ hidden :=
        (hunquoted.2 key).trans (tokenEnd_of_mark rfl (by decide))
      have hbracket : ∀ c ∈ [']'], isSeparator c = false := by simp [isSeparator]
      obtain ⟨output, houtput, hremains⟩ := remainsOf_redactAll_append hbracket h key
      refine ⟨_, rfl, ?_⟩
      rw [List.nil_append, hend, houtput]
      exact hremains.mark_append bracket_mem
    · obtain ⟨ends, hends, hvalue, -⟩ := exists_closes hopening hbare
      refine ⟨_, rfl, ?_⟩
      rw [hvalue, hends.inner _ inner_placeholder]
      obtain ⟨skipped, hskipped⟩ := hends.suffix hidden
      rw [← hskipped] at h
      exact remainsOf_redactAll (h.dropFront (hends.closing hidden).cut) key
  · have hfront : ∀ c ∈ opening ++ placeholder, isSeparator c = false := by
      have hall : (closings.all fun opening ↦ (opening ++ placeholder).all (!isSeparator ·)) = true := by
        decide
      simpa only [Bool.not_eq_true'] using List.all_eq_true.mp (List.all_eq_true.mp hall _ hopening)
    obtain ⟨output, houtput, hremains⟩ := remainsOf_redactAll_append hfront h key
    rw [List.append_assoc, List.append_assoc] at houtput
    exact ⟨output, by rw [if_neg hlabel, houtput], hremains⟩

theorem foldl_pass_placeholder {hidden : List Char} (hopening : opening ∈ closings)
    (h : RemainsOf marks behind hidden) (keys : List (List Char)) :
    ∃ output, keys.foldl self.pass (opening ++ (placeholder ++ hidden)) =
      opening ++ (placeholder ++ output) ∧ RemainsOf marks behind output := by
  induction keys generalizing hidden with
  | nil => exact ⟨hidden, rfl, h⟩
  | cons key keys ih =>
    obtain ⟨next, hpass, hremains⟩ := self.pass_hidden hopening h key
    rw [List.foldl_cons, hpass]
    exact ih hremains

/-- The pass of the first key in the label hides the value, and the later ones leave of the text behind
it what they mask. -/
theorem foldl_pass_first {first : List Char} (hlabel : first <:+: toAsciiLowercase self.label)
    (h : RemainsOf marks behind (valueEnd first text)) (later : List (List Char)) :
    ∃ hidden, (first :: later).foldl self.pass text = openingQuote text ++ (placeholder ++ hidden) ∧
      RemainsOf marks behind hidden := by
  rw [List.foldl_cons, pass, if_pos hlabel]
  exact self.foldl_pass_placeholder (openingQuote_mem text) (remainsOf_redactAll h first) later

/-- The passes hide the value if one of the keys is in the label. -/
theorem foldl_pass_hidden {keys : List (List Char)}
    (h : ∃ key ∈ keys, key <:+: toAsciiLowercase self.label) (hremains : RemainsOf marks behind text) :
    ∃ hidden, keys.foldl self.pass text = openingQuote text ++ (placeholder ++ hidden) ∧
      RemainsOf marks behind hidden := by
  induction keys generalizing text with
  | nil =>
    obtain ⟨key, hkey, -⟩ := h
    cases hkey
  | cons key keys ih =>
    by_cases hlabel : key <:+: toAsciiLowercase self.label
    · apply self.foldl_pass_first hlabel
      obtain ⟨skipped, hskipped⟩ := (valueEnd_suffix key text).trans (quoteRest_suffix text)
      rw [← hskipped] at hremains
      exact hremains.dropFront (valueEnd_closing key text).cut
    · obtain ⟨other, hother, hinside⟩ := h
      have hlater : other ∈ keys := (List.mem_cons.mp hother).resolve_left fun heq ↦
        hlabel (heq ▸ hinside)
      obtain ⟨hidden, hhidden, hrest⟩ := ih ⟨other, hlater, hinside⟩ (remainsOf_redactAll hremains key)
      rw [openingQuote_redactAll] at hhidden
      exact ⟨hidden, by rw [List.foldl_cons, pass, if_neg hlabel, hhidden], hrest⟩

/-- The passes of keys that are not in the label leave of a quoted value what is behind it. -/
theorem foldl_pass_quoted {ends : List Char → List Char} (hends : Closes ends) {keys : List (List Char)}
    (hkeys : ∀ key ∈ keys, ¬key <:+: toAsciiLowercase self.label) (hopening : opening ∈ closings)
    (h : RemainsOf marks behind (ends text)) :
    ∃ output, keys.foldl self.pass (opening ++ text) = opening ++ output ∧
      RemainsOf marks behind (ends output) := by
  have hseparatorless : ∀ c ∈ opening, isSeparator c = false := by
    have hall : (closings.all fun opening ↦ opening.all (!isSeparator ·)) = true := by decide
    simpa only [Bool.not_eq_true'] using List.all_eq_true.mp (List.all_eq_true.mp hall _ hopening)
  induction keys generalizing text with
  | nil => exact ⟨text, rfl, h⟩
  | cons key keys ih =>
    obtain ⟨next, hpass, hremains⟩ := hends.remainsOf_redactAll hseparatorless h key
    rw [List.foldl_cons, pass, if_neg (hkeys key List.mem_cons_self), hpass]
    exact ih (fun other hother ↦ hkeys other (List.mem_cons_of_mem key hother)) hremains

/-- So do they of an unquoted one, if none of them has a marker in front of its last part. -/
theorem foldl_pass_unquoted {kept : List Char} {keys : List (List Char)}
    (hkeys : ∀ key ∈ keys, key ≠ [] ∧ ¬key <:+: toAsciiLowercase self.label)
    (hpassed : ∀ key ∈ keys, Passed key kept) (h : Spares kept behind text) :
    Spares kept behind (keys.foldl self.pass text) ∧
      openingQuote (keys.foldl self.pass text) = openingQuote text := by
  induction keys generalizing text with
  | nil => exact ⟨h, rfl⟩
  | cons key keys ih =>
    obtain ⟨hnonempty, hlabel⟩ := hkeys key List.mem_cons_self
    have hnext := spares_redactAll hnonempty (hpassed key List.mem_cons_self) h
    obtain ⟨hspares, hopening⟩ := ih (fun other hother ↦ hkeys other (List.mem_cons_of_mem key hother))
      (fun other hother ↦ hpassed other (List.mem_cons_of_mem key hother)) hnext
    rw [List.foldl_cons, pass, if_neg hlabel]
    exact ⟨hspares, hopening.trans (openingQuote_redactAll key text)⟩

end Heading

end FerrisBridge
