import FerrisBridge.Runtime.Logging

/-!
# What the redactor computes

The scan read off its offsets: every function here maps the text that is left to a later part of it.
The offset functions of the source follow these, so no slice leaves the text or cuts a character and
every loop comes to its end.
-/

namespace FerrisBridge

/-! ## The scan over the text that is left -/

/-- The end of the name that goes on in the text, unless whitespace ends it. -/
def nameRest : List Char → Option (List Char)
  | [] => some []
  | c :: rest =>
    if isWhitespace c then none
    else if isSeparator c || isQuote c then some (c :: rest)
    else if startsEscapedQuote (c :: rest) then some (c :: rest)
    else nameRest rest

theorem startsEscapedQuote_singleton (c : Char) : startsEscapedQuote [c] = false := by
  simp only [startsEscapedQuote, List.isPrefixOf_cons_cons, List.isPrefixOf_cons_nil, Bool.and_false,
    Bool.or_false]

theorem startsEscapedQuote_cons_cons (c d : Char) (rest : List Char) :
    startsEscapedQuote (c :: d :: rest) = (decide (c = '\\') && isQuote d) := by
  rw [Bool.eq_iff_iff]
  simp only [startsEscapedQuote, isQuote, List.isPrefixOf_cons_cons, List.isPrefixOf_nil_left,
    Bool.and_true, Bool.or_eq_true, Bool.and_eq_true, beq_iff_eq, decide_eq_true_eq]
  constructor <;> grind

def quoteRest (text : List Char) : List Char :=
  if startsEscapedQuote text then text.drop 2
  else if text.head?.any isQuote then text.drop 1
  else text

theorem quoteRest_singleton (c : Char) : quoteRest [c] = if isQuote c then [] else [c] := by
  simp only [quoteRest, startsEscapedQuote_singleton, Bool.false_eq_true, if_false, List.head?_cons,
    Option.any_some, List.drop_succ_cons, List.drop_zero]

theorem quoteRest_cons_cons (c d : Char) (rest : List Char) :
    quoteRest (c :: d :: rest) =
      if c = '\\' ∧ isQuote d then rest else if isQuote c then d :: rest else c :: d :: rest := by
  simp only [quoteRest, startsEscapedQuote_cons_cons, Bool.and_eq_true, decide_eq_true_eq,
    List.head?_cons, Option.any_some, List.drop_succ_cons, List.drop_zero]

def spaceRest (text : List Char) : List Char := text.dropWhile isWhitespace

/-- Past a key: the value of the marker, or where the search goes on when the name has no value. -/
def afterName (text : List Char) : Except (List Char) (List Char) :=
  match nameRest text with
  | none => .error text
  | some suffix =>
    match spaceRest (quoteRest suffix) with
    | [] => .error []
    | c :: value => if isSeparator c then .ok (spaceRest value) else .error (c :: value)

theorem afterName_eq_ok {text suffix value : List Char} {c : Char}
    (hname : nameRest text = some suffix) (hspace : spaceRest (quoteRest suffix) = c :: value)
    (hc : isSeparator c = true) : afterName text = .ok (spaceRest value) := by
  simp only [afterName, hname, hspace, if_pos hc]

theorem afterName_eq_error {text suffix rest : List Char} (hname : nameRest text = some suffix)
    (hspace : spaceRest (quoteRest suffix) = rest)
    (hrest : ∀ c ∈ rest.head?, isSeparator c = false) : afterName text = .error rest := by
  cases rest with
  | nil => simp only [afterName, hname, hspace]
  | cons c rest => simp only [afterName, hname, hspace, hrest c rfl, Bool.false_eq_true, if_false]

theorem nameRest_suffix {text rest : List Char} (h : nameRest text = some rest) : rest <:+ text := by
  induction text with
  | nil =>
    obtain rfl := Option.some.inj h
    exact List.suffix_refl _
  | cons c text ih =>
    simp only [nameRest] at h
    split_ifs at h with hspace hmark hquote
    · obtain rfl := Option.some.inj h
      exact List.suffix_refl _
    · obtain rfl := Option.some.inj h
      exact List.suffix_refl _
    · exact (ih h).trans (List.suffix_cons c text)

theorem quoteRest_suffix (text : List Char) : quoteRest text <:+ text := by
  simp only [quoteRest]
  split_ifs
  · exact List.drop_suffix _ _
  · exact List.drop_suffix _ _
  · exact List.suffix_refl _

theorem spaceRest_suffix (text : List Char) : spaceRest text <:+ text := List.dropWhile_suffix _

theorem afterName_error {text rest : List Char} (h : afterName text = .error rest) :
    rest <:+ text := by
  simp only [afterName] at h
  cases hname : nameRest text with
  | none =>
    simp only [hname, Except.error.injEq] at h
    exact h ▸ List.suffix_refl _
  | some suffix =>
    have hsuffix := ((spaceRest_suffix _).trans (quoteRest_suffix suffix)).trans (nameRest_suffix hname)
    cases hspace : spaceRest (quoteRest suffix) with
    | nil =>
      simp only [hname, hspace, Except.error.injEq] at h
      exact h ▸ List.nil_suffix
    | cons c value =>
      simp only [hname, hspace] at h
      split_ifs at h with hseparator
      rw [hspace] at hsuffix
      exact Except.error.inj h ▸ hsuffix

theorem afterName_ok {text rest : List Char} (h : afterName text = .ok rest) :
    rest <:+ text ∧ rest.length < text.length := by
  simp only [afterName] at h
  cases hname : nameRest text with
  | none => simp only [hname, reduceCtorEq] at h
  | some suffix =>
    have hsuffix := ((spaceRest_suffix _).trans (quoteRest_suffix suffix)).trans (nameRest_suffix hname)
    cases hspace : spaceRest (quoteRest suffix) with
    | nil => simp only [hname, hspace, reduceCtorEq] at h
    | cons c value =>
      simp only [hname, hspace] at h
      split_ifs at h with hseparator
      rw [hspace] at hsuffix
      have hvalue := spaceRest_suffix value
      rw [Except.ok.inj h] at hvalue
      have hlt := hvalue.length_le
      have hle := hsuffix.length_le
      simp only [List.length_cons] at hle
      exact ⟨(hvalue.trans (List.suffix_cons c value)).trans hsuffix, by omega⟩

/-- The value of the first marker of a key. -/
def nextValue (key : List Char) : List Char → Option (List Char)
  | [] => none
  | c :: rest =>
    if key.isPrefixOf (toAsciiLowercase (c :: rest)) then
      match _h : afterName (rest.drop (key.length - 1)) with
      | .ok value => some value
      | .error rest => nextValue key rest
    else nextValue key rest
termination_by text => text.length
decreasing_by
  · have hle := (afterName_error _h).length_le
    simp only [List.length_drop] at hle
    simp only [List.length_cons]
    omega
  · simp only [List.length_cons]
    omega

def unquotedEnd (text : List Char) : List Char := text.dropWhile fun c ↦ !isUnquotedValueDelimiter c

/-- The end of an unquoted value, which for an authorization may have a second token. -/
def tokenEnd (key text : List Char) : List Char :=
  let first := unquotedEnd text
  let second := spaceRest first
  if key = authorizationKey ∧ second.length < first.length then unquotedEnd second else first

def quotedEnd (quote : Char) : List Char → List Char
  | [] => []
  | [c] => if c = quote then [c] else []
  | c :: escaped :: rest =>
    if c = quote then c :: escaped :: rest
    else if c = '\\' then quotedEnd quote rest
    else quotedEnd quote (escaped :: rest)

/-- `previous` is the character before the text. -/
def escapedEnd (quote : Char) : Char → List Char → List Char
  | _, [] => []
  | _, [_] => []
  | previous, c :: d :: rest =>
    if c = '\\' ∧ d = quote then
      if previous = '\\' then escapedEnd quote quote rest else c :: d :: rest
    else escapedEnd quote c (d :: rest)

/-- Where the value that starts at the text ends; its first character is past `quoteRest`. -/
def valueEnd (key : List Char) : List Char → List Char
  | [] => []
  | [c] => if isQuote c then [] else tokenEnd key [c]
  | c :: d :: rest =>
    if c = '\\' ∧ isQuote d then escapedEnd d d rest
    else if isQuote c then quotedEnd c (d :: rest)
    else tokenEnd key (c :: d :: rest)

theorem nextValue_suffix {key text value : List Char} (h : nextValue key text = some value) :
    value <:+ text ∧ value.length < text.length := by
  induction text using nextValue.induct key with
  | case1 => simp only [nextValue, reduceCtorEq] at h
  | case2 c rest hkey after hafter =>
    rw [nextValue, if_pos hkey, hafter] at h
    obtain rfl := Option.some.inj h
    obtain ⟨hsuffix, hlt⟩ := afterName_ok hafter
    have hdrop := List.drop_suffix (key.length - 1) rest
    have hle := hdrop.length_le
    simp only [List.length_cons]
    exact ⟨(hsuffix.trans hdrop).trans (List.suffix_cons c rest), by omega⟩
  | case3 c rest hkey after hafter ih =>
    rw [nextValue, if_pos hkey, hafter] at h
    obtain ⟨hsuffix, hlt⟩ := ih h
    have hdrop := (afterName_error hafter).trans (List.drop_suffix (key.length - 1) rest)
    have hle := hdrop.length_le
    simp only [List.length_cons]
    exact ⟨(hsuffix.trans hdrop).trans (List.suffix_cons c rest), by omega⟩
  | case4 c rest hkey ih =>
    rw [nextValue, if_neg hkey] at h
    obtain ⟨hsuffix, hlt⟩ := ih h
    simp only [List.length_cons]
    exact ⟨hsuffix.trans (List.suffix_cons c rest), by omega⟩

theorem unquotedEnd_suffix (text : List Char) : unquotedEnd text <:+ text := List.dropWhile_suffix _

theorem tokenEnd_suffix (key text : List Char) : tokenEnd key text <:+ text := by
  simp only [tokenEnd]
  split_ifs
  · exact ((unquotedEnd_suffix _).trans (spaceRest_suffix _)).trans (unquotedEnd_suffix text)
  · exact unquotedEnd_suffix text

theorem quotedEnd_suffix (quote : Char) (text : List Char) : quotedEnd quote text <:+ text := by
  fun_induction quotedEnd quote text with
  | case1 => exact List.suffix_refl _
  | case2 => exact List.suffix_refl _
  | case3 => exact List.nil_suffix
  | case4 => exact List.suffix_refl _
  | case5 escaped rest _ ih => exact (ih.trans (List.suffix_cons _ _)).trans (List.suffix_cons _ _)
  | case6 c escaped rest _ _ ih => exact ih.trans (List.suffix_cons _ _)

theorem escapedEnd_suffix (quote previous : Char) (text : List Char) :
    escapedEnd quote previous text <:+ text := by
  fun_induction escapedEnd quote previous text with
  | case1 => exact List.suffix_refl _
  | case2 => exact List.nil_suffix
  | case3 c d rest _ ih => exact (ih.trans (List.suffix_cons _ _)).trans (List.suffix_cons _ _)
  | case4 => exact List.suffix_refl _
  | case5 previous c d rest _ ih => exact ih.trans (List.suffix_cons _ _)

theorem valueEnd_suffix (key text : List Char) : valueEnd key text <:+ quoteRest text := by
  fun_cases valueEnd key text with
  | case1 => exact List.nil_suffix
  | case2 => exact List.nil_suffix
  | case3 c hquote =>
    rw [quoteRest_singleton, if_neg hquote]
    exact tokenEnd_suffix key [c]
  | case4 c d rest h =>
    rw [quoteRest_cons_cons, if_pos h]
    exact escapedEnd_suffix d d rest
  | case5 c d rest h hquote =>
    rw [quoteRest_cons_cons, if_neg h, if_pos hquote]
    exact quotedEnd_suffix c (d :: rest)
  | case6 c d rest h hquote =>
    rw [quoteRest_cons_cons, if_neg h, if_neg hquote]
    exact tokenEnd_suffix key (c :: d :: rest)

/-- One pass of the redactor. -/
def redactAll (key text : List Char) : List Char :=
  match _h : nextValue key text with
  | none => text
  | some value =>
    text.take (text.length - (quoteRest value).length) ++ placeholder ++
      redactAll key (valueEnd key value)
termination_by text.length
decreasing_by
  have hle := ((valueEnd_suffix key value).trans (quoteRest_suffix value)).length_le
  have hlt := (nextValue_suffix _h).2
  omega

theorem redactAll_of_none {key text : List Char} (h : nextValue key text = none) :
    redactAll key text = text := by
  rw [redactAll, h]

theorem redactAll_of_some {key text value : List Char} (h : nextValue key text = some value) :
    redactAll key text = text.take (text.length - (quoteRest value).length) ++ placeholder ++
      redactAll key (valueEnd key value) := by
  rw [redactAll, h]

/-- Text without a marker is passed over. -/
theorem redactAll_append {key text : List Char} (skipped : List Char)
    (h : nextValue key (skipped ++ text) = nextValue key text) :
    redactAll key (skipped ++ text) = skipped ++ redactAll key text := by
  cases hvalue : nextValue key text with
  | none => rw [redactAll_of_none hvalue, redactAll_of_none (h.trans hvalue)]
  | some value =>
    have hle := ((quoteRest_suffix value).trans (nextValue_suffix hvalue).1).length_le
    rw [redactAll_of_some hvalue, redactAll_of_some (h.trans hvalue), List.length_append,
      Nat.add_sub_assoc hle, List.take_length_add_append]
    simp only [List.append_assoc]

/-! ## The offsets of the source -/

/-- The rest of the text starts at the offset. -/
def StartsAt (input : List Char) (offset : ℕ) (rest : List Char) : Prop :=
  ∃ before, input = before ++ rest ∧ offset = byteLen before

@[simp]
theorem byteLen_nil : byteLen [] = 0 := rfl

@[simp]
theorem byteLen_cons (c : Char) (text : List Char) :
    byteLen (c :: text) = c.utf8Size + byteLen text := by
  simp only [byteLen, List.map_cons, List.sum_cons]

@[simp]
theorem byteLen_append (first second : List Char) :
    byteLen (first ++ second) = byteLen first + byteLen second := by
  simp only [byteLen, List.map_append, List.sum_append]

theorem length_le_byteLen (text : List Char) : text.length ≤ byteLen text := by
  induction text with
  | nil => exact Nat.le_refl 0
  | cons c text ih =>
    have hpos := c.utf8Size_pos
    simp only [List.length_cons, byteLen_cons]
    omega

theorem sliceFrom_cons (c : Char) (text : List Char) (n : ℕ) :
    sliceFrom (c :: text) (c.utf8Size + n) = sliceFrom text n := by
  obtain ⟨size, hsize⟩ := Nat.exists_eq_add_of_lt c.utf8Size_pos
  have hadd : c.utf8Size + n = (size + n) + 1 := by omega
  rw [hadd, sliceFrom, if_pos (by omega)]
  congr 1
  omega

theorem sliceTo_cons (c : Char) (text : List Char) (n : ℕ) :
    sliceTo (c :: text) (c.utf8Size + n) = (sliceTo text n).map (c :: ·) := by
  obtain ⟨size, hsize⟩ := Nat.exists_eq_add_of_lt c.utf8Size_pos
  have hadd : c.utf8Size + n = (size + n) + 1 := by omega
  rw [hadd, sliceTo, if_pos (by omega)]
  congr 2
  omega

theorem sliceFrom_byteLen (before rest : List Char) :
    sliceFrom (before ++ rest) (byteLen before) = some rest := by
  induction before with
  | nil => cases rest <;> rfl
  | cons c before ih => rw [List.cons_append, byteLen_cons, sliceFrom_cons, ih]

theorem sliceTo_byteLen (before rest : List Char) :
    sliceTo (before ++ rest) (byteLen before) = some before := by
  induction before with
  | nil => cases rest <;> rfl
  | cons c before ih => rw [List.cons_append, byteLen_cons, sliceTo_cons, ih, Option.map_some]

namespace StartsAt

variable {input rest : List Char} {offset : ℕ}

theorem sliceFrom (h : StartsAt input offset rest) : sliceFrom input offset = some rest := by
  obtain ⟨before, rfl, rfl⟩ := h
  exact sliceFrom_byteLen before rest

theorem advance (skipped : List Char) (h : StartsAt input offset (skipped ++ rest)) :
    StartsAt input (offset + byteLen skipped) rest := by
  obtain ⟨before, rfl, rfl⟩ := h
  exact ⟨before ++ skipped, by rw [List.append_assoc], by rw [byteLen_append]⟩

theorem offset_unique {other : ℕ} (h : StartsAt input offset rest)
    (hother : StartsAt input other rest) : offset = other := by
  obtain ⟨before, rfl, rfl⟩ := h
  obtain ⟨before', hinput, rfl⟩ := hother
  rw [List.append_cancel_right hinput]

/-- What stands between two places of the text. -/
theorem slice {later : List Char} {next : ℕ} (h : StartsAt input offset rest)
    (hlater : StartsAt input next later) (hsuffix : later <:+ rest) :
    slice input offset next = some (rest.take (rest.length - later.length)) := by
  obtain ⟨skipped, rfl⟩ := hsuffix
  obtain rfl := hlater.offset_unique (h.advance skipped)
  rw [FerrisBridge.slice, if_neg (by omega), h.sliceFrom, Nat.add_sub_cancel_left,
    List.length_append, Nat.add_sub_cancel, List.take_left]
  exact sliceTo_byteLen skipped later

theorem lt_iff (h : StartsAt input offset rest) : offset < byteLen input ↔ rest ≠ [] := by
  obtain ⟨before, rfl, rfl⟩ := h
  have hle := length_le_byteLen rest
  rw [byteLen_append, ← List.length_pos_iff]
  cases rest with
  | nil => simp
  | cons c rest =>
    simp only [List.length_cons] at hle ⊢
    omega

theorem start (input : List Char) : StartsAt input 0 input := ⟨[], rfl, rfl⟩

theorem finish (input : List Char) : StartsAt input (byteLen input) [] :=
  ⟨input, (List.append_nil input).symm, rfl⟩

theorem length_le (h : StartsAt input offset rest) : rest.length ≤ byteLen input := by
  obtain ⟨before, rfl, rfl⟩ := h
  have hle := length_le_byteLen rest
  rw [byteLen_append]
  omega

theorem lt_iff_length {later : List Char} {next : ℕ} (h : StartsAt input offset rest)
    (hlater : StartsAt input next later) : offset < next ↔ later.length < rest.length := by
  obtain ⟨before, rfl, rfl⟩ := h
  obtain ⟨skipped, hinput, rfl⟩ := hlater
  obtain ⟨middle, rfl, rfl⟩ | ⟨middle, rfl, rfl⟩ := List.append_eq_append_iff.mp hinput
  · have hle := length_le_byteLen middle
    rw [byteLen_append, List.length_append]
    cases middle with
    | nil => simp
    | cons c middle =>
      simp only [List.length_cons] at hle ⊢
      omega
  · rw [byteLen_append, List.length_append]
    omega

end StartsAt

theorem isQuote_cases {c : Char} (h : isQuote c = true) : c = '"' ∨ c = '\'' := by
  simpa only [isQuote, Bool.or_eq_true, decide_eq_true_eq] using h

theorem isSeparator_cases {c : Char} (h : isSeparator c = true) : c = '=' ∨ c = ':' := by
  simpa only [isSeparator, Bool.or_eq_true, decide_eq_true_eq] using h

theorem utf8Size_of_isQuote {c : Char} (h : isQuote c = true) : c.utf8Size = 1 := by
  obtain rfl | rfl := isQuote_cases h <;> rfl

theorem utf8Size_of_isSeparator {c : Char} (h : isSeparator c = true) : c.utf8Size = 1 := by
  obtain rfl | rfl := isSeparator_cases h <;> rfl

theorem startsEscapedQuote_eq_true {text : List Char} (h : startsEscapedQuote text = true) :
    ∃ quote rest, isQuote quote = true ∧ text = '\\' :: quote :: rest := by
  cases text with
  | nil => cases h
  | cons c text =>
    cases text with
    | nil => rw [startsEscapedQuote_singleton] at h; cases h
    | cons d rest =>
      rw [startsEscapedQuote_cons_cons, Bool.and_eq_true, decide_eq_true_eq] at h
      exact ⟨d, rest, h.2, by rw [h.1]⟩

section Offsets

variable {input rest : List Char} {offset : ℕ}

theorem skipWhitespace_eq (h : StartsAt input offset rest) :
    ∃ next, skipWhitespace input offset = some next ∧ StartsAt input next (spaceRest rest) := by
  refine ⟨offset + byteLen (rest.takeWhile isWhitespace), ?_, ?_⟩
  · simp only [skipWhitespace, h.sliceFrom]
    rfl
  · apply StartsAt.advance
    rw [spaceRest, List.takeWhile_append_dropWhile]
    exact h

theorem nextUnquotedValueEnd_eq (h : StartsAt input offset rest) :
    ∃ next, nextUnquotedValueEnd input offset = some next ∧
      StartsAt input next (unquotedEnd rest) := by
  refine ⟨offset + byteLen (rest.takeWhile fun c ↦ !isUnquotedValueDelimiter c), ?_, ?_⟩
  · simp only [nextUnquotedValueEnd, h.sliceFrom]
    rfl
  · apply StartsAt.advance
    rw [unquotedEnd, List.takeWhile_append_dropWhile]
    exact h

theorem skipOptionalQuote_eq (h : StartsAt input offset rest) :
    ∃ next, skipOptionalQuote input offset = some next ∧ StartsAt input next (quoteRest rest) := by
  simp only [skipOptionalQuote, quoteRest, h.sliceFrom]
  by_cases hescaped : startsEscapedQuote rest = true
  · obtain ⟨quote, text, hquote, rfl⟩ := startsEscapedQuote_eq_true hescaped
    refine ⟨offset + 2, by simp [hescaped], ?_⟩
    have hadvance := StartsAt.advance ['\\', quote] h
    have hbackslash : ('\\').utf8Size = 1 := rfl
    rw [byteLen_cons, byteLen_cons, byteLen_nil, utf8Size_of_isQuote hquote, hbackslash] at hadvance
    simpa [hescaped] using hadvance
  · cases rest with
    | nil => exact ⟨offset, by simp [hescaped], by simpa [hescaped] using h⟩
    | cons c text =>
      by_cases hquote : isQuote c = true
      · refine ⟨offset + 1, by simp [hescaped, hquote], ?_⟩
        have hadvance := StartsAt.advance [c] h
        rw [byteLen_cons, byteLen_nil, utf8Size_of_isQuote hquote] at hadvance
        simpa [hescaped, hquote] using hadvance
      · exact ⟨offset, by simp [hescaped, hquote], by simpa [hescaped, hquote] using h⟩

theorem inlineKeySuffix_eq (text : List Char) :
    (inlineKeySuffix text = none ∧ nameRest text = none) ∨
      ∃ name rest, text = name ++ rest ∧ inlineKeySuffix text = some (byteLen name) ∧
        nameRest text = some rest := by
  induction text with
  | nil => exact Or.inr ⟨[], [], rfl, rfl, rfl⟩
  | cons c text ih =>
    simp only [inlineKeySuffix, nameRest]
    split_ifs with hspace hmark hquote
    · exact Or.inl ⟨rfl, rfl⟩
    · exact Or.inr ⟨[], c :: text, rfl, rfl, rfl⟩
    · exact Or.inr ⟨[], c :: text, rfl, rfl, rfl⟩
    · obtain ⟨hsuffix, hname⟩ | ⟨name, rest, htext, hsuffix, hname⟩ := ih
      · exact Or.inl ⟨by rw [hsuffix, Option.map_none], hname⟩
      · refine Or.inr ⟨c :: name, rest, by rw [htext, List.cons_append], ?_, hname⟩
        rw [hsuffix, Option.map_some, byteLen_cons]

theorem skipInlineKeySuffix_eq (h : StartsAt input offset rest) :
    ∃ next, skipInlineKeySuffix input offset = some next ∧
      Option.Rel (StartsAt input) next (nameRest rest) := by
  refine ⟨(inlineKeySuffix rest).map (offset + ·), ?_, ?_⟩
  · simp only [skipInlineKeySuffix, h.sliceFrom]
    rfl
  · obtain ⟨hsuffix, hname⟩ | ⟨name, suffix, rfl, hsuffix, hname⟩ := inlineKeySuffix_eq rest
    · rw [hsuffix, hname]
      exact Option.Rel.none
    · rw [hsuffix, hname]
      exact Option.Rel.some (h.advance name)

end Offsets

/-! ### Finding a marker -/

section Marker

variable {key : List Char}

theorem nextValue_cons_of_no_match {c : Char} {text : List Char}
    (h : ¬key.isPrefixOf (toAsciiLowercase (c :: text)) = true) :
    nextValue key (c :: text) = nextValue key text := by
  rw [nextValue, if_neg h]

theorem drop_key_cons (hkey : key ≠ []) (c : Char) (text : List Char) :
    (c :: text).drop key.length = text.drop (key.length - 1) := by
  cases key with
  | nil => exact absurd rfl hkey
  | cons d key => rfl

theorem nextValue_of_ok (hkey : key ≠ []) {text value : List Char}
    (h : key.isPrefixOf (toAsciiLowercase text) = true)
    (hafter : afterName (text.drop key.length) = .ok value) : nextValue key text = some value := by
  cases text with
  | nil =>
    cases key with
    | nil => exact absurd rfl hkey
    | cons d key => cases h
  | cons c text =>
    rw [drop_key_cons hkey] at hafter
    rw [nextValue, if_pos h, hafter]

theorem nextValue_of_error (hkey : key ≠ []) {text rest : List Char}
    (h : key.isPrefixOf (toAsciiLowercase text) = true)
    (hafter : afterName (text.drop key.length) = .error rest) :
    nextValue key text = nextValue key rest := by
  cases text with
  | nil =>
    cases key with
    | nil => exact absurd rfl hkey
    | cons d key => cases h
  | cons c text =>
    rw [drop_key_cons hkey] at hafter
    rw [nextValue, if_pos h, hafter]

theorem nextValue_of_find_none {text : List Char}
    (h : findOffset key (toAsciiLowercase text) = none) : nextValue key text = none := by
  induction text with
  | nil => rw [nextValue]
  | cons c text ih =>
    change findOffset key (c.toLower :: toAsciiLowercase text) = none at h
    rw [findOffset] at h
    split_ifs at h with hmatched
    rw [Option.map_eq_none_iff] at h
    rw [nextValue_cons_of_no_match hmatched, ih h]

theorem nextValue_of_find_some (hkey : key ≠ []) {text : List Char} {offset : ℕ}
    (h : findOffset key (toAsciiLowercase text) = some offset) :
    ∃ skipped rest, text = skipped ++ rest ∧ offset = byteLen skipped ∧
      key.isPrefixOf (toAsciiLowercase rest) = true ∧ nextValue key text = nextValue key rest := by
  induction text generalizing offset with
  | nil =>
    simp only [toAsciiLowercase, List.map_nil, findOffset, if_neg hkey, reduceCtorEq] at h
  | cons c text ih =>
    change findOffset key (c.toLower :: toAsciiLowercase text) = some offset at h
    rw [findOffset] at h
    split_ifs at h with hmatched
    · exact ⟨[], c :: text, rfl, (Option.some.inj h).symm, hmatched, rfl⟩
    · obtain ⟨relative, hfind, rfl⟩ := Option.map_eq_some_iff.mp h
      obtain ⟨skipped, rest, rfl, rfl, hrest, hnext⟩ := ih hfind
      refine ⟨c :: skipped, rest, rfl, ?_, hrest, ?_⟩
      · rw [utf8Size_toLower, byteLen_cons]
      · rw [nextValue_cons_of_no_match hmatched, hnext]

/-- A match of the key covers as many bytes as the key has. -/
theorem exists_match {text : List Char} (h : key.isPrefixOf (toAsciiLowercase text) = true) :
    ∃ name, text = name ++ text.drop key.length ∧ byteLen name = byteLen key := by
  refine ⟨text.take key.length, (List.take_append_drop _ _).symm, ?_⟩
  have hmatched := List.prefix_iff_eq_take.mp (List.isPrefixOf_iff_prefix.mp h)
  rw [← byteLen_toAsciiLowercase]
  conv_rhs => rw [hmatched]
  simp only [toAsciiLowercase, List.map_take]

theorem StartsAt.lower {input rest : List Char} {offset : ℕ} (h : StartsAt input offset rest) :
    StartsAt (toAsciiLowercase input) offset (toAsciiLowercase rest) := by
  obtain ⟨before, rfl, rfl⟩ := h
  refine ⟨toAsciiLowercase before, ?_, (byteLen_toAsciiLowercase before).symm⟩
  simp only [toAsciiLowercase, List.map_append]

/-- Every round of the search starts in a shorter rest of the text. -/
theorem findNextMarkerFrom_eq (hkey : key ≠ []) {input : List Char} {fuel offset : ℕ}
    {rest : List Char} (h : StartsAt input offset rest) (hfuel : rest.length < fuel) :
    ∃ next, findNextMarkerFrom input key fuel offset = some next ∧
      Option.Rel (StartsAt input) next (nextValue key rest) := by
  induction fuel generalizing offset rest with
  | zero => omega
  | succ fuel ih =>
    rw [findNextMarkerFrom]
    by_cases hempty : rest = []
    · subst hempty
      refine ⟨none, if_neg fun hlt ↦ h.lt_iff.mp hlt rfl, ?_⟩
      rw [nextValue]
      exact Option.Rel.none
    rw [if_pos (h.lt_iff.mpr hempty)]
    simp only [h.lower.sliceFrom, Option.bind_eq_bind, Option.bind_some]
    cases hfind : findOffset key (toAsciiLowercase rest) with
    | none =>
      refine ⟨none, rfl, ?_⟩
      rw [nextValue_of_find_none hfind]
      exact Option.Rel.none
    | some relative =>
      obtain ⟨skipped, text, rfl, rfl, hmatched, hnext⟩ := nextValue_of_find_some hkey hfind
      obtain ⟨name, hname, hlen⟩ := exists_match hmatched
      have hafter : StartsAt input (offset + byteLen skipped + byteLen key) (text.drop key.length) := by
        rw [← hlen]
        apply StartsAt.advance
        rw [← hname]
        exact h.advance skipped
      have hshort : (text.drop key.length).length < fuel := by
        have hpos := List.length_pos_of_ne_nil hkey
        have hle := (List.isPrefixOf_iff_prefix.mp hmatched).length_le
        simp only [toAsciiLowercase, List.length_map, List.length_append, List.length_drop]
          at hle hfuel ⊢
        omega
      -- The rest of the round reads what `afterName` reads.
      have hresume (resumed : List Char) (herror : afterName (text.drop key.length) = .error resumed)
          {next : ℕ} (hstart : StartsAt input next resumed) :
          ∃ result, findNextMarkerFrom input key fuel next = some result ∧
            Option.Rel (StartsAt input) result (nextValue key (skipped ++ text)) := by
        rw [hnext, nextValue_of_error hkey hmatched herror]
        exact ih hstart (lt_of_le_of_lt (afterName_error herror).length_le hshort)
      obtain ⟨suffixEnd, hsuffix, hrel⟩ := skipInlineKeySuffix_eq hafter
      simp only [hsuffix, Option.bind_some]
      cases hrest : nameRest (text.drop key.length) with
      | none =>
        rw [hrest] at hrel
        cases hrel
        exact hresume _ (by simp only [afterName, hrest]) hafter
      | some suffix =>
        rw [hrest] at hrel
        cases hrel with
        | some hrel =>
          obtain ⟨afterQuote, hquote, hrel⟩ := skipOptionalQuote_eq hrel
          obtain ⟨afterSpace, hspace, hrel⟩ := skipWhitespace_eq hrel
          simp only [hquote, hspace, hrel.sliceFrom, Option.bind_some]
          cases hvalue : spaceRest (quoteRest suffix) with
          | nil =>
            rw [hvalue] at hrel
            simp only [List.head?_nil, Option.any_none, Bool.false_eq_true, if_false]
            exact hresume [] (afterName_eq_error hrest hvalue (by simp)) hrel
          | cons c value =>
            rw [hvalue] at hrel
            by_cases hseparator : isSeparator c = true
            · have hhead : (c :: value).head?.any isSeparator = true := hseparator
              have hstart := StartsAt.advance [c] hrel
              rw [byteLen_cons, byteLen_nil, add_zero, utf8Size_of_isSeparator hseparator] at hstart
              obtain ⟨start, hskip, hstart⟩ := skipWhitespace_eq hstart
              have hok := afterName_eq_ok hrest hvalue hseparator
              refine ⟨some start, ?_, ?_⟩
              · simp only [if_pos hhead, hskip, Option.bind_some]
                rfl
              · rw [hnext, nextValue_of_ok hkey hmatched hok]
                exact Option.Rel.some hstart
            · have hhead : ¬(c :: value).head?.any isSeparator = true := hseparator
              have herror := afterName_eq_error hrest hvalue (by simpa using hseparator)
              obtain ⟨result, hfound, hrel⟩ := hresume (c :: value) herror hrel
              exact ⟨result, by rw [if_neg hhead, hfound], hrel⟩

theorem findNextMarker_eq (hkey : key ≠ []) {input rest : List Char} {offset : ℕ}
    (h : StartsAt input offset rest) :
    ∃ next, findNextMarker input key offset = some next ∧
      Option.Rel (StartsAt input) next (nextValue key rest) :=
  findNextMarkerFrom_eq hkey h (Nat.lt_succ_of_le h.length_le)

end Marker

/-! ### The span of a value -/

section Value

variable {input rest : List Char} {offset : ℕ} {quote : Char}

theorem isPrefixOf_escaped {text : List Char} (h : ['\\', quote].isPrefixOf text = true) :
    ∃ rest, text = '\\' :: quote :: rest := by
  obtain ⟨rest, hrest⟩ := List.isPrefixOf_iff_prefix.mp h
  exact ⟨rest, hrest.symm⟩

theorem escapedEnd_of_no_match {c previous : Char} {text : List Char}
    (h : ¬['\\', quote].isPrefixOf (c :: text) = true) :
    escapedEnd quote previous (c :: text) = escapedEnd quote c text := by
  cases text with
  | nil => rw [escapedEnd, escapedEnd]
  | cons d text =>
    rw [escapedEnd, if_neg]
    rintro ⟨rfl, rfl⟩
    exact h (by simp)

theorem escapedEnd_of_find_none {previous : Char} {text : List Char}
    (h : findOffset ['\\', quote] text = none) : escapedEnd quote previous text = [] := by
  induction text generalizing previous with
  | nil => rw [escapedEnd]
  | cons c text ih =>
    rw [findOffset] at h
    split_ifs at h with hmatched
    rw [Option.map_eq_none_iff] at h
    rw [escapedEnd_of_no_match hmatched, ih h]

theorem escapedEnd_of_find_some (previous : Char) {text : List Char} {relative : ℕ}
    (h : findOffset ['\\', quote] text = some relative) :
    ∃ skipped rest, text = skipped ++ '\\' :: quote :: rest ∧ relative = byteLen skipped ∧
      escapedEnd quote previous text =
        if skipped.getLast?.getD previous = '\\' then escapedEnd quote quote rest
        else '\\' :: quote :: rest := by
  induction text generalizing previous relative with
  | nil => simp only [findOffset, reduceCtorEq, if_false] at h
  | cons c text ih =>
    rw [findOffset] at h
    split_ifs at h with hmatched
    · obtain ⟨rest, hrest⟩ := isPrefixOf_escaped hmatched
      refine ⟨[], rest, hrest, (Option.some.inj h).symm, ?_⟩
      rw [hrest, escapedEnd, if_pos ⟨rfl, rfl⟩]
      rfl
    · obtain ⟨relative, hfind, rfl⟩ := Option.map_eq_some_iff.mp h
      obtain ⟨skipped, rest, htext, rfl, hend⟩ := ih c hfind
      refine ⟨c :: skipped, rest, by rw [htext, List.cons_append], by rw [byteLen_cons], ?_⟩
      rw [escapedEnd_of_no_match hmatched, hend, List.getLast?_cons, Option.getD_some]

theorem escapedQuoteIsClosing_eq (quote : Char) (rest : List Char) {before : List Char}
    {previous : Char} (hprevious : before.getLast? = some previous) :
    escapedQuoteIsClosing (before ++ '\\' :: quote :: rest) (byteLen before) ['\\', quote] =
      some (decide (previous ≠ '\\')) := by
  simp only [escapedQuoteIsClosing, sliceFrom_byteLen, sliceTo_byteLen]
  simp [hprevious]

/-- `previous` is the last character before the cursor. -/
theorem escapedValueEndFrom_eq (quote : Char) (before : List Char) {previous : Char} {fuel : ℕ}
    (hprevious : before.getLast? = some previous) (hfuel : rest.length < fuel) :
    ∃ next, escapedValueEndFrom (before ++ rest) ['\\', quote] fuel (byteLen before) = some next ∧
      StartsAt (before ++ rest) next (escapedEnd quote previous rest) := by
  induction fuel generalizing before previous rest with
  | zero => omega
  | succ fuel ih =>
    simp only [escapedValueEndFrom, sliceFrom_byteLen, Option.bind_eq_bind, Option.bind_some]
    cases hfind : findOffset ['\\', quote] rest with
    | none =>
      rw [escapedEnd_of_find_none hfind]
      exact ⟨byteLen (before ++ rest), rfl, StartsAt.finish _⟩
    | some relative =>
      obtain ⟨skipped, text, rfl, rfl, hend⟩ := escapedEnd_of_find_some previous hfind
      have hlast : (before ++ skipped).getLast? = some (skipped.getLast?.getD previous) := by
        rw [List.getLast?_append, hprevious]
        cases skipped.getLast? <;> rfl
      have hclosing := escapedQuoteIsClosing_eq quote text hlast
      rw [List.append_assoc, byteLen_append] at hclosing
      simp only [hclosing, Option.bind_some, hend]
      by_cases hescaped : skipped.getLast?.getD previous = '\\'
      · have hshort : text.length < fuel := by
          simp only [List.length_append, List.length_cons] at hfuel
          omega
        have hlast' : (before ++ skipped ++ ['\\', quote]).getLast? = some quote := by simp
        obtain ⟨next, hnext, hstart⟩ := ih _ hlast' hshort
        simp only [List.append_assoc, List.cons_append, List.nil_append, byteLen_append, ← add_assoc]
          at hnext hstart
        refine ⟨next, ?_, ?_⟩
        · simpa [hescaped] using hnext
        · rw [if_pos hescaped]
          exact hstart
      · refine ⟨byteLen before + byteLen skipped, by simp [hescaped], ?_⟩
        rw [if_neg hescaped]
        exact ⟨before ++ skipped, by rw [List.append_assoc], by rw [byteLen_append]⟩

theorem quotedEnd_append (quote : Char) (text : List Char) :
    ∃ inner, text = inner ++ quotedEnd quote text ∧ quotedLength quote text = byteLen inner := by
  fun_induction quotedEnd quote text with
  | case1 => exact ⟨[], rfl, rfl⟩
  | case2 => exact ⟨[], rfl, by simp [quotedLength]⟩
  | case3 c h => exact ⟨[c], rfl, by simp [quotedLength, h]⟩
  | case4 => exact ⟨[], rfl, by simp [quotedLength]⟩
  | case5 escaped rest h ih =>
    obtain ⟨inner, hinner, hlen⟩ := ih
    refine ⟨'\\' :: escaped :: inner, ?_, ?_⟩
    · rw [List.cons_append, List.cons_append, ← hinner]
    · rw [quotedLength, if_neg h, if_pos rfl, hlen, byteLen_cons, byteLen_cons, add_assoc]
  | case6 c escaped rest h hescape ih =>
    obtain ⟨inner, hinner, hlen⟩ := ih
    refine ⟨c :: inner, by rw [List.cons_append, ← hinner], ?_⟩
    rw [quotedLength, if_neg h, if_neg hescape, hlen, byteLen_cons]

theorem escapedQuotedValueSpan_eq_none (quote : Char) (h : StartsAt input offset rest)
    (hmatched : ¬['\\', quote].isPrefixOf rest = true) :
    escapedQuotedValueSpan input offset ['\\', quote] = some none := by
  simp only [escapedQuotedValueSpan, h.sliceFrom, Option.bind_eq_bind, Option.bind_some]
  rw [if_neg hmatched]
  rfl

theorem escapedQuotedValueSpan_eq_some
    (h : StartsAt input offset ('\\' :: quote :: rest)) :
    ∃ start stop, escapedQuotedValueSpan input offset ['\\', quote] = some (some (start, stop)) ∧
      StartsAt input start rest ∧ StartsAt input stop (escapedEnd quote quote rest) := by
  have hstart := StartsAt.advance ['\\', quote] h
  have hle := hstart.length_le
  obtain ⟨before, rfl, rfl⟩ := h
  have hlast : (before ++ ['\\', quote]).getLast? = some quote := by simp
  obtain ⟨stop, hstop, hend⟩ := escapedValueEndFrom_eq quote _ hlast (Nat.lt_succ_of_le hle)
  simp only [List.append_assoc, List.cons_append, List.nil_append, byteLen_append] at hstop hend
  refine ⟨byteLen before + byteLen ['\\', quote], stop, ?_, hstart, hend⟩
  simp only [escapedQuotedValueSpan, sliceFrom_byteLen, Option.bind_eq_bind, Option.bind_some]
  rw [if_pos (by simp)]
  simp only [byteLen_append, hstop, Option.bind_some]
  rfl

/-- A value without an opening quote. -/
def Unquoted (text : List Char) : Prop :=
  quoteRest text = text ∧ ∀ key, valueEnd key text = tokenEnd key text

theorem unquoted_nil : Unquoted [] := by
  refine ⟨rfl, fun key ↦ ?_⟩
  rw [valueEnd]
  exact (List.suffix_nil.mp (tokenEnd_suffix key [])).symm

theorem quoted_cons {c : Char} {text : List Char} (hescaped : ¬startsEscapedQuote (c :: text) = true)
    (hquote : isQuote c = true) :
    quoteRest (c :: text) = text ∧ ∀ key, valueEnd key (c :: text) = quotedEnd c text := by
  cases text with
  | nil => exact ⟨by rw [quoteRest_singleton, if_pos hquote], fun key ↦ by
      rw [valueEnd, if_pos hquote, quotedEnd]⟩
  | cons d text =>
    rw [startsEscapedQuote_cons_cons, Bool.and_eq_true, decide_eq_true_eq] at hescaped
    exact ⟨by rw [quoteRest_cons_cons, if_neg hescaped, if_pos hquote], fun key ↦ by
      rw [valueEnd, if_neg hescaped, if_pos hquote]⟩

theorem unquoted_cons {c : Char} {text : List Char}
    (hescaped : ¬startsEscapedQuote (c :: text) = true) (hquote : ¬isQuote c = true) :
    Unquoted (c :: text) := by
  cases text with
  | nil => exact ⟨by rw [quoteRest_singleton, if_neg hquote], fun key ↦ by
      rw [valueEnd, if_neg hquote]⟩
  | cons d text =>
    rw [startsEscapedQuote_cons_cons, Bool.and_eq_true, decide_eq_true_eq] at hescaped
    exact ⟨by rw [quoteRest_cons_cons, if_neg hescaped, if_neg hquote], fun key ↦ by
      rw [valueEnd, if_neg hescaped, if_neg hquote]⟩

/-- The offsets of a value start the texts that are left there. -/
def Spans (input key value : List Char) (span : ℕ × ℕ) : Prop :=
  StartsAt input span.1 (quoteRest value) ∧ StartsAt input span.2 (valueEnd key value)

theorem quotedValueSpan_eq (h : StartsAt input offset rest) :
    ∃ span, quotedValueSpan input offset = some span ∧
      (span = none ∧ Unquoted rest ∨ ∃ bounds, span = some bounds ∧ ∀ key, Spans input key rest bounds) := by
  by_cases hescaped : startsEscapedQuote rest = true
  · obtain ⟨quote, text, hquote, rfl⟩ := startsEscapedQuote_eq_true hescaped
    obtain ⟨start, stop, hspan, hstart, hstop⟩ := escapedQuotedValueSpan_eq_some h
    refine ⟨some (start, stop), ?_, Or.inr ⟨(start, stop), rfl, fun key ↦ ⟨?_, ?_⟩⟩⟩
    · obtain rfl | rfl := isQuote_cases hquote
      · simp only [quotedValueSpan, hspan]
        rfl
      · have hother := escapedQuotedValueSpan_eq_none '"' h (by simp)
        simp only [quotedValueSpan, hother, hspan]
        rfl
    · rw [quoteRest_cons_cons, if_pos ⟨rfl, hquote⟩]
      exact hstart
    · rw [valueEnd, if_pos ⟨rfl, hquote⟩]
      exact hstop
  · have hnone := hescaped
    simp only [startsEscapedQuote, Bool.or_eq_true, not_or] at hnone
    have hdouble := escapedQuotedValueSpan_eq_none '"' h hnone.1
    have hsingle := escapedQuotedValueSpan_eq_none '\'' h hnone.2
    simp only [quotedValueSpan, hdouble, hsingle, h.sliceFrom, Option.bind_eq_bind, Option.bind_some]
    cases rest with
    | nil => exact ⟨none, rfl, Or.inl ⟨rfl, unquoted_nil⟩⟩
    | cons c text =>
      by_cases hquote : isQuote c = true
      · obtain ⟨hstart, hstop⟩ := quoted_cons hescaped hquote
        obtain ⟨inner, hinner, hlen⟩ := quotedEnd_append c text
        have hadvance := StartsAt.advance [c] h
        rw [byteLen_cons, byteLen_nil, add_zero] at hadvance
        refine ⟨some (offset + c.utf8Size, offset + c.utf8Size + quotedLength c text), ?_,
          Or.inr ⟨_, rfl, fun key ↦ ⟨?_, ?_⟩⟩⟩
        · simp only [if_pos hquote]
          rfl
        · rw [hstart]
          exact hadvance
        · rw [hstop, hlen]
          apply StartsAt.advance
          rw [← hinner]
          exact hadvance
      · refine ⟨none, ?_, Or.inl ⟨rfl, unquoted_cons hescaped hquote⟩⟩
        simp only [if_neg hquote]
        rfl

theorem secretValueSpan_eq (key : List Char) (h : StartsAt input offset rest) :
    ∃ bounds, secretValueSpan input offset key = some bounds ∧ Spans input key rest bounds := by
  obtain ⟨span, hspan, ⟨rfl, hquote, hend⟩ | ⟨bounds, rfl, hbounds⟩⟩ := quotedValueSpan_eq h
  · obtain ⟨first, hfirst, hstart⟩ := nextUnquotedValueEnd_eq h
    obtain ⟨second, hsecond, hstart'⟩ := skipWhitespace_eq hstart
    obtain ⟨last, hlast, hstart''⟩ := nextUnquotedValueEnd_eq hstart'
    have hlonger := hstart.lt_iff_length hstart'
    simp only [secretValueSpan, hspan, hfirst, hsecond, hlast, Option.bind_eq_bind, Option.bind_some,
      Spans, hquote, hend, tokenEnd, ← hlonger]
    by_cases hauthorization : key = authorizationKey
    · by_cases hlt : first < second
      · have hinput : first < byteLen input := by
          have hle := (StartsAt.lt_iff_length hstart (StartsAt.finish input)).mpr
          apply hle
          rw [hlonger] at hlt
          simp only [List.length_nil]
          omega
        refine ⟨(offset, last), ?_, h, ?_⟩
        · simp only [if_pos (And.intro hauthorization hinput), if_pos hlt]
          rfl
        · rw [if_pos ⟨hauthorization, hlt⟩]
          exact hstart''
      · refine ⟨(offset, first), ?_, h, ?_⟩
        · simp only [if_neg hlt, ite_self]
          rfl
        · rw [if_neg fun hboth ↦ hlt hboth.2]
          exact hstart
    · refine ⟨(offset, first), ?_, h, ?_⟩
      · simp only [if_neg fun hboth : key = authorizationKey ∧ first < byteLen input ↦
          hauthorization hboth.1]
        rfl
      · rw [if_neg fun hboth ↦ hauthorization hboth.1]
        exact hstart
  · exact ⟨bounds, by simp only [secretValueSpan, hspan]; rfl, hbounds key⟩

end Value

/-! ### A pass -/

theorem redactInlineKeyValuesFrom_eq {key : List Char} (hkey : key ≠ []) {input rest : List Char}
    {fuel offset : ℕ} (output : List Char) (h : StartsAt input offset rest)
    (hfuel : rest.length < fuel) :
    redactInlineKeyValuesFrom input key fuel offset output = some (output ++ redactAll key rest) := by
  induction fuel generalizing offset rest output with
  | zero => omega
  | succ fuel ih =>
    obtain ⟨next, hnext, hrel⟩ := findNextMarker_eq hkey h
    simp only [redactInlineKeyValuesFrom, hnext, Option.bind_eq_bind, Option.bind_some]
    cases hvalue : nextValue key rest with
    | none =>
      rw [hvalue] at hrel
      cases hrel
      simp only [h.sliceFrom, redactAll_of_none hvalue]
      rfl
    | some value =>
      rw [hvalue] at hrel
      cases hrel with
      | some hrel =>
        obtain ⟨⟨start, stop⟩, hspan, hstart, hstop⟩ := secretValueSpan_eq key hrel
        obtain ⟨hsuffix, hlt⟩ := nextValue_suffix hvalue
        have hshort : (valueEnd key value).length < fuel := by
          have hle := ((valueEnd_suffix key value).trans (quoteRest_suffix value)).length_le
          omega
        have hslice := h.slice hstart ((quoteRest_suffix value).trans hsuffix)
        simp only [hspan, hslice, Option.bind_some]
        rw [ih _ hstop hshort, redactAll_of_some hvalue]
        simp only [List.append_assoc]

/-- A pass neither panics nor loops, and computes `redactAll`. -/
theorem redactInlineKeyValues_eq {key : List Char} (hkey : key ≠ []) (input : List Char) :
    redactInlineKeyValues input key = some (redactAll key input) :=
  redactInlineKeyValuesFrom_eq hkey [] (StartsAt.start input)
    (Nat.lt_succ_of_le (length_le_byteLen input))

end FerrisBridge
