import FerrisBridge.Runtime.Redaction

/-!
# Redacted values do not reach the log

A marked value is compared over two runs of the redactor. A pass either writes the same text for all
values of the field, or it leaves the field as it is and rewrites only what stands around it; the
pass of a key in the name of the field cannot leave it. Which of the two happens is decided by the
text before the field: the scans stop there, or run over the value to the end of it.
-/

namespace FerrisBridge

/-- No scan stops at the character. -/
def isPlain (c : Char) : Bool :=
  !isUnquotedValueDelimiter c && !isQuote c && !isSeparator c && c ≠ '\\'

/-- ASCII letters, digits, underscore and hyphen. -/
def isKeyChar (c : Char) : Bool := c.isAlphanum || c = '_' || c = '-'

theorem isKeyChar_iff (c : Char) : isKeyChar c = true ↔
    (48 ≤ c.toNat ∧ c.toNat ≤ 57) ∨ (65 ≤ c.toNat ∧ c.toNat ≤ 90) ∨
      (97 ≤ c.toNat ∧ c.toNat ≤ 122) ∨ c.toNat = 95 ∨ c.toNat = 45 := by
  have hunderscore : c = '_' ↔ c.toNat = 95 := ⟨fun h ↦ by rw [h]; rfl, fun h ↦ char_eq_of_toNat h⟩
  have hhyphen : c = '-' ↔ c.toNat = 45 := ⟨fun h ↦ by rw [h]; rfl, fun h ↦ char_eq_of_toNat h⟩
  simp only [isKeyChar, Char.isAlphanum, Char.isAlpha, Char.isUpper, Char.isLower, Char.isDigit,
    Bool.or_eq_true, Bool.and_eq_true, decide_eq_true_eq, hunderscore, hhyphen, ge_iff_le,
    UInt32.le_iff_toNat_le, Char.reduceVal, UInt32.reduceToNat, Char.toNat]
  tauto

theorem isPlain_iff (c : Char) : isPlain c = true ↔
    isUnquotedValueDelimiter c = false ∧ isQuote c = false ∧ isSeparator c = false ∧ c ≠ '\\' := by
  simp only [isPlain, Bool.and_eq_true, Bool.not_eq_true', decide_eq_true_eq, and_assoc]

theorem isPlain_of_isKeyChar {c : Char} (h : isKeyChar c = true) : isPlain c = true := by
  rw [isKeyChar_iff] at h
  have hne (d : Char) (hd : ¬isKeyChar d = true) : c ≠ d := by
    rintro rfl
    exact hd ((isKeyChar_iff c).mpr h)
  simp only [isPlain_iff, isUnquotedValueDelimiter, isQuote, isSeparator, Bool.or_eq_false_iff,
    decide_eq_false_iff_not]
  refine ⟨⟨⟨⟨⟨?_, hne _ (by decide)⟩, hne _ (by decide)⟩, hne _ (by decide)⟩, hne _ (by decide)⟩,
    ⟨hne _ (by decide), hne _ (by decide)⟩, ⟨hne _ (by decide), hne _ (by decide)⟩,
    hne _ (by decide)⟩
  simp only [isWhitespace, Bool.or_eq_false_iff, Bool.and_eq_false_iff, decide_eq_false_iff_not,
    beq_eq_false_iff_ne]
  omega

theorem isKeyChar_of_toLower {c : Char} (h : isKeyChar c.toLower = true) : isKeyChar c = true := by
  rw [isKeyChar_iff, toNat_toLower] at h
  rw [isKeyChar_iff]
  split_ifs at h <;> omega

/-- A field of a log text, without the text before it and without its value. -/
structure Field where
  name : List Char
  separator : Char
  rest : List Char
  name_nonempty : name ≠ []
  name_plain : ∀ c ∈ name, isPlain c = true
  separator_separates : isSeparator separator = true
  rest_delimits : rest.head?.all isUnquotedValueDelimiter = true

/-- What the redactor cannot tell from other values: no scan stops in it, no key is in it. -/
structure Inert (key value : List Char) : Prop where
  nonempty : value ≠ []
  plain : ∀ c ∈ value, isPlain c = true
  keyless : ¬key <:+: toAsciiLowercase value

/-! ## The scans up to a field -/

section Append

variable {d : Char} {text : List Char}

theorem startsEscapedQuote_append (hd : isPlain d = true) (before : List Char) :
    startsEscapedQuote (before ++ d :: text) = startsEscapedQuote before := by
  rw [isPlain_iff] at hd
  cases before with
  | nil =>
    rw [List.nil_append]
    cases text with
    | nil => exact startsEscapedQuote_singleton d
    | cons e text =>
      rw [startsEscapedQuote_cons_cons, decide_eq_false hd.2.2.2, Bool.false_and]
      rfl
  | cons c before =>
    cases before with
    | nil =>
      rw [List.cons_append, List.nil_append, startsEscapedQuote_cons_cons,
        startsEscapedQuote_singleton, hd.2.1, Bool.and_false]
    | cons e before =>
      rw [List.cons_append, List.cons_append, startsEscapedQuote_cons_cons,
        startsEscapedQuote_cons_cons]

/-- A value that starts with a plain character has no opening quote. -/
theorem unquoted_of_isPlain (hd : isPlain d = true) : Unquoted (d :: text) := by
  have hescaped : startsEscapedQuote (d :: text) = false := startsEscapedQuote_append hd []
  rw [isPlain_iff] at hd
  exact unquoted_cons (by rw [hescaped]; simp) (by rw [hd.2.1]; simp)

theorem quoteRest_append (hd : isPlain d = true) (before : List Char) :
    quoteRest (before ++ d :: text) = quoteRest before ++ d :: text := by
  cases before with
  | nil => exact (unquoted_of_isPlain hd).1
  | cons c before =>
    cases before with
    | nil =>
      rw [isPlain_iff] at hd
      rw [List.cons_append, List.nil_append, quoteRest_cons_cons, quoteRest_singleton, if_neg]
      · split_ifs <;> rfl
      · rw [hd.2.1]
        simp
    | cons e before =>
      rw [List.cons_append, List.cons_append, quoteRest_cons_cons, quoteRest_cons_cons]
      split_ifs <;> rfl

theorem isWhitespace_of_isPlain (hd : isPlain d = true) : isWhitespace d = false := by
  rw [isPlain_iff] at hd
  simp only [isUnquotedValueDelimiter, Bool.or_eq_false_iff] at hd
  exact hd.1.1.1.1.1

theorem spaceRest_append (hd : isPlain d = true) (before : List Char) :
    spaceRest (before ++ d :: text) = spaceRest before ++ d :: text := by
  induction before with
  | nil =>
    simp only [spaceRest, List.nil_append, List.dropWhile_nil]
    rw [List.dropWhile_cons_of_neg (by rw [isWhitespace_of_isPlain hd]; simp)]
  | cons c before ih =>
    simp only [spaceRest, List.cons_append, List.dropWhile_cons] at ih ⊢
    split_ifs
    · exact ih
    · rfl

theorem nameRest_append_none (hd : isPlain d = true) {before : List Char}
    (h : nameRest before = none) : nameRest (before ++ d :: text) = none := by
  induction before with
  | nil => cases h
  | cons c before ih =>
    rw [List.cons_append, nameRest, ← List.cons_append, startsEscapedQuote_append hd]
    rw [nameRest] at h
    split_ifs at h ⊢
    · rfl
    · exact ih h

/-- A name that ends before the field. -/
theorem nameRest_append_cons (hd : isPlain d = true) {before rest : List Char} {c : Char}
    (h : nameRest before = some (c :: rest)) :
    nameRest (before ++ d :: text) = some (c :: rest ++ d :: text) := by
  induction before with
  | nil => cases h
  | cons e before ih =>
    rw [List.cons_append, nameRest, ← List.cons_append, startsEscapedQuote_append hd]
    rw [nameRest] at h
    split_ifs at h ⊢
    · rw [Option.some.inj h]
    · rw [Option.some.inj h]
    · exact ih h

/-- A name that goes on in the field. -/
theorem nameRest_append_nil (hd : isPlain d = true) {before : List Char}
    (h : nameRest before = some []) : nameRest (before ++ d :: text) = nameRest (d :: text) := by
  induction before with
  | nil => rfl
  | cons e before ih =>
    rw [List.cons_append, nameRest, ← List.cons_append, startsEscapedQuote_append hd]
    rw [nameRest] at h
    split_ifs at h ⊢
    · cases h
    · cases h
    · exact ih h

end Append

theorem nameRest_plain {name : List Char} (hname : ∀ c ∈ name, isPlain c = true) {separator : Char}
    (hseparator : isSeparator separator = true) (text : List Char) :
    nameRest (name ++ separator :: text) = some (separator :: text) := by
  induction name with
  | nil =>
    have hspace : isWhitespace separator = false := by
      obtain rfl | rfl := isSeparator_cases hseparator <;> decide
    rw [List.nil_append, nameRest, hspace, hseparator]
    rfl
  | cons c name ih =>
    have hc := hname c List.mem_cons_self
    have hescaped : startsEscapedQuote (c :: (name ++ separator :: text)) = false :=
      startsEscapedQuote_append hc []
    rw [List.cons_append, nameRest, isWhitespace_of_isPlain hc, hescaped]
    rw [isPlain_iff] at hc
    simp only [hc.2.1, hc.2.2.1, Bool.or_self, Bool.false_eq_true, if_false]
    exact ih fun e he ↦ hname e (List.mem_cons_of_mem c he)

/-- A name that runs into the separator has the value right after it. -/
theorem afterName_of_separator {name text : List Char} {separator d : Char}
    (hname : nameRest name = some (separator :: d :: text))
    (hseparator : isSeparator separator = true) (hd : isPlain d = true) :
    afterName name = .ok (d :: text) := by
  have hquote : Unquoted (separator :: d :: text) := by
    obtain rfl | rfl := isSeparator_cases hseparator
    · exact unquoted_cons (by rw [startsEscapedQuote_cons_cons]; simp) (by decide)
    · exact unquoted_cons (by rw [startsEscapedQuote_cons_cons]; simp) (by decide)
  have hspace : spaceRest (separator :: d :: text) = separator :: d :: text := by
    obtain rfl | rfl := isSeparator_cases hseparator <;> rfl
  have hvalue : spaceRest (d :: text) = d :: text := spaceRest_append hd []
  have hok := afterName_eq_ok hname (by rw [hquote.1, hspace]) hseparator
  rw [hok, hvalue]

/-! ## The ends of a value up to a field -/

section Ends

variable {body rest : List Char}

theorem unquotedEnd_append_nil {before : List Char} (h : unquotedEnd before = []) :
    unquotedEnd (before ++ rest) = unquotedEnd rest := by
  rw [unquotedEnd, List.dropWhile_eq_nil_iff] at h
  exact List.dropWhile_append_of_pos h

theorem unquotedEnd_append_cons {before after : List Char} {c : Char}
    (h : unquotedEnd before = c :: after) : unquotedEnd (before ++ rest) = c :: after ++ rest := by
  rw [unquotedEnd] at h ⊢
  rw [List.dropWhile_append, h]
  rfl

theorem unquotedEnd_delimited (hrest : rest.head?.all isUnquotedValueDelimiter = true) :
    unquotedEnd rest = rest := by
  cases rest with
  | nil => rfl
  | cons c rest =>
    have hc : isUnquotedValueDelimiter c = true := hrest
    rw [unquotedEnd, List.dropWhile_cons_of_neg (by rw [hc]; simp)]

theorem quotedEnd_append_cons {quote c : Char} {before after : List Char}
    (h : quotedEnd quote before = c :: after) :
    quotedEnd quote (before ++ rest) = c :: after ++ rest := by
  fun_induction quotedEnd quote before with
  | case1 => cases h
  | case2 =>
    obtain ⟨rfl, rfl⟩ := List.cons.inj h
    cases rest with
    | nil => rw [List.append_nil, quotedEnd, if_pos rfl]
    | cons d rest => rw [List.cons_append, List.nil_append, quotedEnd, if_pos rfl]
  | case3 => cases h
  | case4 escaped text =>
    obtain ⟨rfl, rfl⟩ := List.cons.inj h
    rw [List.cons_append, List.cons_append, quotedEnd, if_pos rfl]
  | case5 escaped text hquote ih =>
    rw [List.cons_append, List.cons_append, quotedEnd, if_neg hquote, if_pos rfl, ih h]
  | case6 d escaped text hquote hescape ih =>
    rw [List.cons_append, List.cons_append, quotedEnd, if_neg hquote, if_neg hescape,
      ← List.cons_append, ih h]

/-- A quoted value runs over a text without quotes and backslashes. -/
theorem quotedEnd_quoteless {quote : Char} (hbody : ∀ c ∈ body, c ≠ quote ∧ c ≠ '\\') :
    quotedEnd quote (body ++ rest) = quotedEnd quote rest := by
  induction body with
  | nil => rfl
  | cons c body ih =>
    obtain ⟨hquote, hescape⟩ := hbody c List.mem_cons_self
    have htail := ih fun e he ↦ hbody e (List.mem_cons_of_mem c he)
    rw [List.cons_append, ← htail]
    cases body ++ rest with
    | nil => simp only [quotedEnd, if_neg hquote]
    | cons d text => rw [quotedEnd, if_neg hquote, if_neg hescape]

theorem quotedEnd_append_nil {quote : Char} {before : List Char} (h : quotedEnd quote before = [])
    (hbody : ∀ c ∈ body, c ≠ quote ∧ c ≠ '\\') (hnonempty : body ≠ []) :
    quotedEnd quote (before ++ (body ++ rest)) = quotedEnd quote rest := by
  fun_induction quotedEnd quote before with
  | case1 => exact quotedEnd_quoteless hbody
  | case2 => cases h
  | case3 c hquote =>
    -- a backslash right before the body takes its first character along
    obtain ⟨d, body, rfl⟩ := List.exists_cons_of_ne_nil hnonempty
    rw [List.cons_append, List.nil_append, List.cons_append, quotedEnd, if_neg hquote]
    split_ifs
    · exact quotedEnd_quoteless fun e he ↦ hbody e (List.mem_cons_of_mem d he)
    · rw [← List.cons_append]
      exact quotedEnd_quoteless hbody
  | case4 => cases h
  | case5 escaped text hquote ih =>
    rw [List.cons_append, List.cons_append, quotedEnd, if_neg hquote, if_pos rfl, ih h]
  | case6 d escaped text hquote hescape ih =>
    rw [List.cons_append, List.cons_append, quotedEnd, if_neg hquote, if_neg hescape,
      ← List.cons_append, ih h]

theorem escapedEnd_append_cons {quote previous c : Char} {before after : List Char}
    (h : escapedEnd quote previous before = c :: after) :
    escapedEnd quote previous (before ++ rest) = c :: after ++ rest := by
  fun_induction escapedEnd quote previous before with
  | case1 => cases h
  | case2 => cases h
  | case3 d e text hescaped ih =>
    rw [List.cons_append, List.cons_append, escapedEnd, if_pos hescaped, if_pos rfl, ih h]
  | case4 previous d e text hescaped hprevious =>
    obtain ⟨rfl, rfl⟩ := List.cons.inj h
    rw [List.cons_append, List.cons_append, escapedEnd, if_pos hescaped, if_neg hprevious]
  | case5 previous d e text hescaped ih =>
    rw [List.cons_append, List.cons_append, escapedEnd, if_neg hescaped, ← List.cons_append, ih h]

theorem escapedEnd_cons {quote previous c : Char} (hc : c ≠ '\\') (text : List Char) :
    escapedEnd quote previous (c :: text) = escapedEnd quote c text := by
  cases text with
  | nil => rw [escapedEnd, escapedEnd]
  | cons d text => rw [escapedEnd, if_neg fun h ↦ hc h.1]

/-- Where the text does not start with a backslash, the character before it does not matter. -/
theorem escapedEnd_previous {quote : Char} (hrest : rest.head?.all (· ≠ '\\') = true)
    (previous other : Char) : escapedEnd quote previous rest = escapedEnd quote other rest := by
  cases rest with
  | nil => rw [escapedEnd, escapedEnd]
  | cons c rest =>
    have hc : c ≠ '\\' := of_decide_eq_true hrest
    rw [escapedEnd_cons hc, escapedEnd_cons hc]

theorem escapedEnd_quoteless {quote previous : Char} (hbody : ∀ c ∈ body, c ≠ '\\')
    (hrest : rest.head?.all (· ≠ '\\') = true) :
    escapedEnd quote previous (body ++ rest) = escapedEnd quote quote rest := by
  induction body generalizing previous with
  | nil => exact escapedEnd_previous hrest previous quote
  | cons c body ih =>
    rw [List.cons_append, escapedEnd_cons (hbody c List.mem_cons_self)]
    exact ih fun e he ↦ hbody e (List.mem_cons_of_mem c he)

theorem escapedEnd_append_nil {quote previous : Char} {before : List Char}
    (h : escapedEnd quote previous before = []) (hbody : ∀ c ∈ body, c ≠ quote ∧ c ≠ '\\')
    (hnonempty : body ≠ []) (hrest : rest.head?.all (· ≠ '\\') = true) :
    escapedEnd quote previous (before ++ (body ++ rest)) = escapedEnd quote quote rest := by
  have hslash : ∀ c ∈ body, c ≠ '\\' := fun c hc ↦ (hbody c hc).2
  fun_induction escapedEnd quote previous before with
  | case1 => exact escapedEnd_quoteless hslash hrest
  | case2 previous c =>
    -- a backslash right before the body escapes no quote
    obtain ⟨d, body, rfl⟩ := List.exists_cons_of_ne_nil hnonempty
    rw [List.cons_append, List.nil_append, List.cons_append, escapedEnd, if_neg, ← List.cons_append]
    · exact escapedEnd_quoteless hslash hrest
    · exact fun hescaped ↦ (hbody d List.mem_cons_self).1 hescaped.2
  | case3 d e text hescaped ih =>
    rw [List.cons_append, List.cons_append, escapedEnd, if_pos hescaped, if_pos rfl, ih h]
  | case4 => cases h
  | case5 previous d e text hescaped ih =>
    rw [List.cons_append, List.cons_append, escapedEnd, if_neg hescaped, ← List.cons_append, ih h]

end Ends

namespace Field

variable (field : Field) {key : List Char}

/-- The field with its value. -/
def text (value : List Char) : List Char := field.name ++ field.separator :: (value ++ field.rest)

/-- The field up to the end of its value. -/
def body (value : List Char) : List Char := field.name ++ field.separator :: value

theorem text_eq (value : List Char) : field.text value = field.body value ++ field.rest := by
  rw [text, body, List.append_assoc, List.cons_append]

theorem body_nonempty (value : List Char) : field.body value ≠ [] :=
  List.append_ne_nil_of_left_ne_nil field.name_nonempty _

/-- The field starts with a plain character. -/
theorem exists_text_eq_cons (value : List Char) :
    ∃ d text, isPlain d = true ∧ field.text value = d :: text := by
  obtain ⟨d, name, hname⟩ := List.exists_cons_of_ne_nil field.name_nonempty
  exact ⟨d, name ++ field.separator :: (value ++ field.rest),
    field.name_plain d (by rw [hname]; exact List.mem_cons_self), by rw [text, hname, List.cons_append]⟩

theorem body_unquoted {value : List Char} (hvalue : ∀ c ∈ value, isPlain c = true) :
    ∀ c ∈ field.body value, isUnquotedValueDelimiter c = false ∧ isQuote c = false ∧ c ≠ '\\' := by
  intro c hc
  have hplain (hc : isPlain c = true) :
      isUnquotedValueDelimiter c = false ∧ isQuote c = false ∧ c ≠ '\\' := by
    rw [isPlain_iff] at hc
    exact ⟨hc.1, hc.2.1, hc.2.2.2⟩
  obtain hname | hrest := List.mem_append.mp hc
  · exact hplain (field.name_plain c hname)
  · obtain rfl | hmem := List.mem_cons.mp hrest
    · obtain heq | heq := isSeparator_cases field.separator_separates <;> rw [heq] <;> decide
    · exact hplain (hvalue c hmem)

theorem body_quoteless {value : List Char} (hvalue : ∀ c ∈ value, isPlain c = true) {quote : Char}
    (hquote : isQuote quote = true) : ∀ c ∈ field.body value, c ≠ quote ∧ c ≠ '\\' := by
  intro c hc
  obtain ⟨_, hunquoted, hescape⟩ := field.body_unquoted hvalue c hc
  refine ⟨?_, hescape⟩
  rintro rfl
  rw [hquote] at hunquoted
  cases hunquoted

theorem rest_unescaped : field.rest.head?.all (· ≠ '\\') = true := by
  have hrest := field.rest_delimits
  cases hhead : field.rest.head? with
  | none => rfl
  | some c =>
    rw [hhead, Option.all_some] at hrest
    rw [Option.all_some, decide_eq_true_eq]
    rintro rfl
    exact absurd hrest (by decide)

theorem unquotedEnd_text {value : List Char} (hvalue : ∀ c ∈ value, isPlain c = true) :
    unquotedEnd (field.text value) = field.rest := by
  have hbody : unquotedEnd (field.body value) = [] := by
    rw [unquotedEnd, List.dropWhile_eq_nil_iff]
    intro c hc
    rw [(field.body_unquoted hvalue c hc).1]
    rfl
  rw [text_eq, unquotedEnd_append_nil hbody, unquotedEnd_delimited field.rest_delimits]

/-- A scan that starts before the field either stops there, or ends past the value at a place that
does not depend on it. -/
def Decided (scan : List Char → List Char) (before : List Char) : Prop :=
  (∃ after, after <:+ before ∧ ∀ value, (∀ c ∈ value, isPlain c = true) →
    scan (before ++ field.text value) = after ++ field.text value) ∨
  ∃ rest, ∀ value, (∀ c ∈ value, isPlain c = true) → scan (before ++ field.text value) = rest

theorem unquotedEnd_decided (before : List Char) : field.Decided unquotedEnd before := by
  cases hend : unquotedEnd before with
  | nil =>
    refine Or.inr ⟨field.rest, fun value hvalue ↦ ?_⟩
    rw [unquotedEnd_append_nil hend, field.unquotedEnd_text hvalue]
  | cons c after =>
    refine Or.inl ⟨c :: after, ?_, fun value _ ↦ unquotedEnd_append_cons hend⟩
    rw [← hend]
    exact unquotedEnd_suffix before

theorem tokenEnd_decided (key before : List Char) : field.Decided (tokenEnd key) before := by
  cases hend : unquotedEnd before with
  | nil =>
    -- the first token runs over the value, and a second one starts in what follows it
    refine Or.inr ⟨tokenEnd key field.rest, fun value hvalue ↦ ?_⟩
    simp only [tokenEnd, unquotedEnd_append_nil hend, field.unquotedEnd_text hvalue,
      unquotedEnd_delimited field.rest_delimits]
  | cons c after =>
    have hsuffix : c :: after <:+ before := hend ▸ unquotedEnd_suffix before
    have hsecond (value : List Char) : spaceRest (c :: after ++ field.text value) =
        spaceRest (c :: after) ++ field.text value := by
      obtain ⟨d, text, hd, htext⟩ := field.exists_text_eq_cons value
      rw [htext, spaceRest_append hd]
    have hend' (value : List Char) : tokenEnd key (before ++ field.text value) =
        if key = authorizationKey ∧ (spaceRest (c :: after)).length < (c :: after).length then
          unquotedEnd (spaceRest (c :: after) ++ field.text value)
        else c :: after ++ field.text value := by
      simp only [tokenEnd, unquotedEnd_append_cons hend, hsecond, List.length_append,
        Nat.add_lt_add_iff_right]
    by_cases htwo : key = authorizationKey ∧ (spaceRest (c :: after)).length < (c :: after).length
    · obtain ⟨last, hlast, hscan⟩ | ⟨rest, hscan⟩ := field.unquotedEnd_decided (spaceRest (c :: after))
      · refine Or.inl ⟨last, (hlast.trans (spaceRest_suffix _)).trans hsuffix, fun value hvalue ↦ ?_⟩
        rw [hend', if_pos htwo, hscan value hvalue]
      · refine Or.inr ⟨rest, fun value hvalue ↦ ?_⟩
        rw [hend', if_pos htwo, hscan value hvalue]
    · refine Or.inl ⟨c :: after, hsuffix, fun value _ ↦ ?_⟩
      rw [hend', if_neg htwo]

theorem quotedEnd_decided {quote : Char} (hquote : isQuote quote = true) (before : List Char) :
    field.Decided (quotedEnd quote) before := by
  cases hend : quotedEnd quote before with
  | nil =>
    refine Or.inr ⟨quotedEnd quote field.rest, fun value hvalue ↦ ?_⟩
    rw [text_eq]
    exact quotedEnd_append_nil hend (field.body_quoteless hvalue hquote) (field.body_nonempty value)
  | cons c after =>
    refine Or.inl ⟨c :: after, ?_, fun value _ ↦ quotedEnd_append_cons hend⟩
    rw [← hend]
    exact quotedEnd_suffix quote before

theorem escapedEnd_decided {quote : Char} (hquote : isQuote quote = true) (previous : Char)
    (before : List Char) : field.Decided (escapedEnd quote previous) before := by
  cases hend : escapedEnd quote previous before with
  | nil =>
    refine Or.inr ⟨escapedEnd quote quote field.rest, fun value hvalue ↦ ?_⟩
    rw [text_eq]
    exact escapedEnd_append_nil hend (field.body_quoteless hvalue hquote)
      (field.body_nonempty value) field.rest_unescaped
  | cons c after =>
    refine Or.inl ⟨c :: after, ?_, fun value _ ↦ escapedEnd_append_cons hend⟩
    rw [← hend]
    exact escapedEnd_suffix quote previous before

/-- What decides a scan decides it behind a skipped start of the text. -/
theorem Decided.of_eq {scan scan' : List Char → List Char} {before : List Char}
    (skipped : List Char) (h : field.Decided scan before)
    (heq : ∀ value, scan' (skipped ++ before ++ field.text value) = scan (before ++ field.text value)) :
    field.Decided scan' (skipped ++ before) := by
  obtain ⟨after, hafter, hscan⟩ | ⟨rest, hscan⟩ := h
  · refine Or.inl ⟨after, hafter.trans (List.suffix_append skipped before), fun value hvalue ↦ ?_⟩
    rw [heq, hscan value hvalue]
  · refine Or.inr ⟨rest, fun value hvalue ↦ ?_⟩
    rw [heq, hscan value hvalue]

theorem startsEscapedQuote_text (before value : List Char) :
    startsEscapedQuote (before ++ field.text value) = startsEscapedQuote before := by
  obtain ⟨d, text, hd, htext⟩ := field.exists_text_eq_cons value
  rw [htext, startsEscapedQuote_append hd]

theorem quoteRest_text (before value : List Char) :
    quoteRest (before ++ field.text value) = quoteRest before ++ field.text value := by
  obtain ⟨d, text, hd, htext⟩ := field.exists_text_eq_cons value
  rw [htext, quoteRest_append hd]

theorem spaceRest_text (before value : List Char) :
    spaceRest (before ++ field.text value) = spaceRest before ++ field.text value := by
  obtain ⟨d, text, hd, htext⟩ := field.exists_text_eq_cons value
  rw [htext, spaceRest_append hd]

theorem valueEnd_decided (key before : List Char) : field.Decided (valueEnd key) before := by
  by_cases hescaped : startsEscapedQuote before = true
  · obtain ⟨quote, before, hquote, rfl⟩ := startsEscapedQuote_eq_true hescaped
    apply Decided.of_eq field ['\\', quote] (field.escapedEnd_decided hquote quote before)
    intro value
    exact if_pos ⟨rfl, hquote⟩
  · have hplain (value : List Char) : ¬startsEscapedQuote (before ++ field.text value) = true := by
      rw [startsEscapedQuote_text]
      exact hescaped
    cases before with
    | nil =>
      apply Decided.of_eq field [] (field.tokenEnd_decided key [])
      intro value
      obtain ⟨d, text, hd, htext⟩ := field.exists_text_eq_cons value
      rw [List.nil_append, List.nil_append, htext]
      exact (unquoted_of_isPlain hd).2 key
    | cons c before =>
      by_cases hquote : isQuote c = true
      · apply Decided.of_eq field [c] (field.quotedEnd_decided hquote before)
        intro value
        exact (quoted_cons (hplain value) hquote).2 key
      · apply Decided.of_eq field [] (field.tokenEnd_decided key (c :: before))
        intro value
        exact (unquoted_cons (hplain value) hquote).2 key

end Field

/-! ## A pass over a field -/

/-- A key of ASCII letters, digits, underscore and hyphen. -/
structure IsKey (key : List Char) : Prop where
  nonempty : key ≠ []
  chars : ∀ c ∈ key, isKeyChar c = true

namespace IsKey

variable {key : List Char}

/-- An occurrence of the key stops before a character that is in no key. -/
theorem prefix_left (hkey : IsKey key) (first : List Char) {second : List Char}
    (hsecond : ∀ c ∈ second.head?, isKeyChar c = false)
    (h : key.isPrefixOf (toAsciiLowercase (first ++ second)) = true) :
    key <+: toAsciiLowercase first := by
  have hmatched := List.isPrefixOf_iff_prefix.mp h
  rw [toAsciiLowercase, List.map_append] at hmatched
  obtain hle | hle := List.prefix_or_prefix_of_prefix hmatched (List.prefix_append _ _)
  · exact hle
  · obtain ⟨rest, rfl⟩ := hle
    have hrest := (List.prefix_append_right_inj _).mp hmatched
    cases rest with
    | nil =>
      rw [List.append_nil]
      exact List.prefix_refl _
    | cons d rest =>
      cases second with
      | nil => cases List.prefix_nil.mp hrest
      | cons c second =>
        have hd : d = c.toLower := (List.cons_prefix_cons.mp hrest).1
        have hchar := hkey.chars d (List.mem_append_right _ List.mem_cons_self)
        rw [hd] at hchar
        have hfalse := hsecond c rfl
        rw [isKeyChar_of_toLower hchar] at hfalse
        cases hfalse

theorem nextValue_of_not_key (hkey : IsKey key) {c : Char} (hc : isKeyChar c = false)
    (text : List Char) : nextValue key (c :: text) = nextValue key text := by
  apply nextValue_cons_of_no_match
  intro h
  have hmatched := hkey.prefix_left [] (by simpa using hc) h
  exact hkey.nonempty (List.prefix_nil.mp hmatched)

end IsKey

theorem isKeyChar_eq_false {c : Char} (h : isPlain c = false) : isKeyChar c = false := by
  cases hchar : isKeyChar c with
  | false => rfl
  | true =>
    rw [isPlain_of_isKeyChar hchar] at h
    cases h

theorem isKeyChar_of_isSeparator {c : Char} (h : isSeparator c = true) : isKeyChar c = false :=
  isKeyChar_eq_false (by simp [isPlain, h])

theorem isKeyChar_of_delimiter {c : Char} (h : isUnquotedValueDelimiter c = true) :
    isKeyChar c = false :=
  isKeyChar_eq_false (by simp [isPlain, h])

namespace Field

variable (field : Field) {key : List Char}

theorem rest_not_key : ∀ c ∈ field.rest.head?, isKeyChar c = false := by
  intro c hc
  have hrest := field.rest_delimits
  rw [Option.mem_def.mp hc, Option.all_some] at hrest
  exact isKeyChar_of_delimiter hrest

theorem separator_not_key (value : List Char) :
    ∀ c ∈ (field.separator :: (value ++ field.rest)).head?, isKeyChar c = false := by
  simpa using isKeyChar_of_isSeparator field.separator_separates

/-- A pass keeps the first character of what follows the field. -/
theorem redactAll_rest_delimits (hkey : IsKey key) :
    (redactAll key field.rest).head?.all isUnquotedValueDelimiter = true := by
  have hrest := field.rest_delimits
  cases hcons : field.rest with
  | nil =>
    rw [redactAll_of_none (by rw [nextValue])]
    rfl
  | cons c rest =>
    rw [hcons] at hrest
    have hnext := hkey.nextValue_of_not_key (isKeyChar_of_delimiter hrest) rest
    have hpass := redactAll_append [c] hnext
    rw [List.cons_append, List.nil_append] at hpass
    rw [hpass]
    exact hrest

/-- The field behind a pass that leaves it. -/
def redacted (hkey : IsKey key) : Field :=
  { field with
    rest := redactAll key field.rest
    rest_delimits := field.redactAll_rest_delimits hkey }

/-- The pass writes the same text for all values. -/
def Erased (key before : List Char) : Prop :=
  ∃ output, ∀ value, Inert key value → redactAll key (before ++ field.text value) = output

/-- The key is not in the name, and the pass only rewrites what stands around the field. -/
def Kept (hkey : IsKey key) (before : List Char) : Prop :=
  ¬key <:+: toAsciiLowercase field.name ∧
    ∃ output, ∀ value, Inert key value →
      redactAll key (before ++ field.text value) = output ++ (field.redacted hkey).text value

/-- A pass that comes to a later place before the field does what it does from there. -/
theorem erased_or_kept_of_append {hkey : IsKey key} {before after : List Char}
    (output : List Char) (h : ∀ value, Inert key value →
      redactAll key (before ++ field.text value) = output ++ redactAll key (after ++ field.text value))
    (hafter : field.Erased key after ∨ field.Kept hkey after) :
    field.Erased key before ∨ field.Kept hkey before := by
  obtain ⟨result, hresult⟩ | ⟨hname, result, hresult⟩ := hafter
  · refine Or.inl ⟨output ++ result, fun value hvalue ↦ ?_⟩
    rw [h value hvalue, hresult value hvalue]
  · refine Or.inr ⟨hname, output ++ result, fun value hvalue ↦ ?_⟩
    rw [h value hvalue, hresult value hvalue, List.append_assoc]

theorem nextValue_value (hkey : IsKey key) {value : List Char}
    (hvalue : ¬key <:+: toAsciiLowercase value) :
    nextValue key (value ++ field.rest) = nextValue key field.rest := by
  induction value with
  | nil => rfl
  | cons c value ih =>
    have htail : ¬key <:+: toAsciiLowercase value := fun h ↦
      hvalue (h.trans (List.suffix_cons _ _).isInfix)
    rw [List.cons_append, nextValue_cons_of_no_match, ih htail]
    intro hmatched
    exact hvalue (hkey.prefix_left _ field.rest_not_key hmatched).isInfix

/-- The value of a marker in the field is the value of the field. -/
theorem nextValue_text (hkey : IsKey key) {name value : List Char}
    (hname : ∀ c ∈ name, isPlain c = true) (hvalue : Inert key value) :
    nextValue key (name ++ field.separator :: (value ++ field.rest)) =
      if key <:+: toAsciiLowercase name then some (value ++ field.rest)
      else nextValue key field.rest := by
  have hstop := field.separator_not_key value
  induction name with
  | nil =>
    have hnone : ¬key <:+: toAsciiLowercase [] := fun h ↦ hkey.nonempty (List.infix_nil.mp h)
    rw [if_neg hnone, List.nil_append, hkey.nextValue_of_not_key (hstop _ rfl),
      field.nextValue_value hkey hvalue.keyless]
  | cons c name ih =>
    by_cases hmatched : key.isPrefixOf
        (toAsciiLowercase (c :: name ++ field.separator :: (value ++ field.rest))) = true
    · have hinside := hkey.prefix_left _ hstop hmatched
      have hle := hinside.length_le
      simp only [toAsciiLowercase, List.length_map] at hle
      rw [if_pos hinside.isInfix]
      apply nextValue_of_ok hkey.nonempty hmatched
      obtain ⟨d, value, rfl⟩ := List.exists_cons_of_ne_nil hvalue.nonempty
      rw [List.drop_append_of_le_length hle]
      apply afterName_of_separator _ field.separator_separates (hvalue.plain d List.mem_cons_self)
      exact nameRest_plain (fun e he ↦ hname e (List.mem_of_mem_drop he)) field.separator_separates _
    · have hiff : key <:+: toAsciiLowercase (c :: name) ↔ key <:+: toAsciiLowercase name := by
        refine ⟨fun h ↦ ?_, fun h ↦ h.trans (List.suffix_cons _ _).isInfix⟩
        obtain hhead | htail := List.infix_cons_iff.mp h
        · refine absurd (List.isPrefixOf_iff_prefix.mpr ?_) hmatched
          rw [toAsciiLowercase, List.map_append]
          exact hhead.trans (List.prefix_append _ _)
        · exact htail
      have htail := ih fun e he ↦ hname e (List.mem_cons_of_mem c he)
      rw [List.cons_append] at hmatched ⊢
      rw [nextValue_cons_of_no_match hmatched, htail]
      simp only [hiff]

/-- A key before the field has its value before it, in it, or none; the search for the next marker
then goes on before the field. -/
theorem afterName_text (key before : List Char) :
    (∀ value, Inert key value → afterName (before ++ field.text value) = .ok (value ++ field.rest)) ∨
    (∃ after, after <:+ before ∧ ∀ value, Inert key value →
      afterName (before ++ field.text value) = .ok (after ++ field.text value)) ∨
    ∃ after, after <:+ before ∧ ∀ value, Inert key value →
      afterName (before ++ field.text value) = .error (after ++ field.text value) := by
  cases hname : nameRest before with
  | none =>
    refine Or.inr (Or.inr ⟨before, List.suffix_refl _, fun value _ ↦ ?_⟩)
    obtain ⟨d, text, hd, htext⟩ := field.exists_text_eq_cons value
    simp only [afterName, htext, nameRest_append_none hd hname]
  | some suffix =>
    cases suffix with
    | nil =>
      refine Or.inl fun value hvalue ↦ ?_
      have hrest : nameRest (before ++ field.text value) =
          some (field.separator :: (value ++ field.rest)) := by
        obtain ⟨d, text, hd, htext⟩ := field.exists_text_eq_cons value
        rw [htext, nameRest_append_nil hd hname, ← htext]
        exact nameRest_plain field.name_plain field.separator_separates _
      obtain ⟨d, value, rfl⟩ := List.exists_cons_of_ne_nil hvalue.nonempty
      exact afterName_of_separator hrest field.separator_separates (hvalue.plain d List.mem_cons_self)
    | cons c suffix =>
      have hsuffix : spaceRest (quoteRest (c :: suffix)) <:+ before :=
        ((spaceRest_suffix _).trans (quoteRest_suffix _)).trans (nameRest_suffix hname)
      have hrest (value : List Char) :
          nameRest (before ++ field.text value) = some (c :: suffix ++ field.text value) ∧
            spaceRest (quoteRest (c :: suffix ++ field.text value)) =
              spaceRest (quoteRest (c :: suffix)) ++ field.text value := by
        refine ⟨?_, by rw [quoteRest_text, spaceRest_text]⟩
        obtain ⟨d, text, hd, htext⟩ := field.exists_text_eq_cons value
        rw [htext, nameRest_append_cons hd hname]
      cases hspace : spaceRest (quoteRest (c :: suffix)) with
      | nil =>
        refine Or.inr (Or.inr ⟨[], List.nil_suffix, fun value _ ↦ ?_⟩)
        obtain ⟨hrest, hvalue⟩ := hrest value
        rw [hspace] at hvalue
        apply afterName_eq_error hrest hvalue
        obtain ⟨d, text, hd, htext⟩ := field.exists_text_eq_cons value
        rw [isPlain_iff] at hd
        simpa [htext] using hd.2.2.1
      | cons e after =>
        rw [hspace] at hsuffix
        by_cases hseparator : isSeparator e = true
        · refine Or.inr (Or.inl ⟨spaceRest after, ?_, fun value _ ↦ ?_⟩)
          · exact ((spaceRest_suffix after).trans (List.suffix_cons e after)).trans hsuffix
          · obtain ⟨hrest, hvalue⟩ := hrest value
            have hcons := hvalue.trans (by rw [hspace, List.cons_append])
            rw [afterName_eq_ok hrest hcons hseparator, spaceRest_text]
        · refine Or.inr (Or.inr ⟨e :: after, hsuffix, fun value _ ↦ ?_⟩)
          obtain ⟨hrest, hvalue⟩ := hrest value
          rw [hspace] at hvalue
          exact afterName_eq_error hrest hvalue (by simpa using hseparator)

theorem tokenEnd_value (key : List Char) {value : List Char}
    (hvalue : ∀ c ∈ value, isPlain c = true) :
    tokenEnd key (value ++ field.rest) = tokenEnd key field.rest := by
  have hend : unquotedEnd value = [] := by
    rw [unquotedEnd, List.dropWhile_eq_nil_iff]
    intro c hc
    rw [((isPlain_iff c).mp (hvalue c hc)).1]
    rfl
  simp only [tokenEnd, unquotedEnd_append_nil hend]

/-- A pass that finds the value of the field replaces it. -/
theorem erased_of_nextValue {before : List Char} (h : ∀ value, Inert key value →
    nextValue key (before ++ field.text value) = some (value ++ field.rest)) :
    field.Erased key before := by
  refine ⟨before ++ field.name ++ [field.separator] ++ placeholder ++
    redactAll key (tokenEnd key field.rest), fun value hvalue ↦ ?_⟩
  have hunquoted : Unquoted (value ++ field.rest) := by
    obtain ⟨d, value, rfl⟩ := List.exists_cons_of_ne_nil hvalue.nonempty
    exact unquoted_of_isPlain (hvalue.plain d List.mem_cons_self)
  have htext : before ++ field.text value =
      before ++ field.name ++ [field.separator] ++ (value ++ field.rest) := by
    simp only [text, List.append_assoc, List.cons_append, List.nil_append]
  rw [redactAll_of_some (h value hvalue), hunquoted.1, hunquoted.2, field.tokenEnd_value key hvalue.plain,
    htext, List.length_append, Nat.add_sub_cancel, List.take_left]

theorem append_text_eq (before value : List Char) : before ++ field.text value =
    (before ++ field.name) ++ field.separator :: (value ++ field.rest) := by
  rw [text, List.append_assoc]

/-- Whether a key starts before the field is decided without its value. -/
theorem isPrefixOf_text_iff (hkey : IsKey key) (before value : List Char) :
    key.isPrefixOf (toAsciiLowercase (before ++ field.text value)) = true ↔
      key <+: toAsciiLowercase (before ++ field.name) := by
  rw [append_text_eq]
  refine ⟨hkey.prefix_left _ (field.separator_not_key value), fun h ↦ ?_⟩
  rw [List.isPrefixOf_iff_prefix, toAsciiLowercase, List.map_append]
  exact h.trans (List.prefix_append _ _)

/-- A key that starts before the field and ends in its name has the value of the field. -/
theorem erased_of_overlap (hkey : IsKey key) {before : List Char}
    (hmatched : key <+: toAsciiLowercase (before ++ field.name))
    (hlt : before.length < key.length) : field.Erased key before := by
  refine field.erased_of_nextValue fun value hvalue ↦ ?_
  apply nextValue_of_ok hkey.nonempty ((field.isPrefixOf_text_iff hkey before value).mpr hmatched)
  have hlength := hmatched.length_le
  simp only [toAsciiLowercase, List.length_map] at hlength
  obtain ⟨d, value, rfl⟩ := List.exists_cons_of_ne_nil hvalue.nonempty
  rw [append_text_eq, List.drop_append_of_le_length hlength, List.drop_append,
    List.drop_eq_nil_of_le hlt.le, List.nil_append]
  apply afterName_of_separator _ field.separator_separates (hvalue.plain d List.mem_cons_self)
  exact nameRest_plain (fun e he ↦ field.name_plain e (List.mem_of_mem_drop he))
    field.separator_separates _

/-- A marker whose value starts before the field: the value ends before the field too, or it takes the
field along. -/
theorem erased_or_kept_of_value {hkey : IsKey key} {before after : List Char}
    (hnext : ∀ value, Inert key value →
      nextValue key (before ++ field.text value) = some (after ++ field.text value))
    (hlater : ∀ last, last <:+ after → field.Erased key last ∨ field.Kept hkey last) :
    field.Erased key before ∨ field.Kept hkey before := by
  have hpass (value : List Char) (hinert : Inert key value) :
      redactAll key (before ++ field.text value) =
        before.take (before.length - (quoteRest after).length) ++ placeholder ++
          redactAll key (valueEnd key (after ++ field.text value)) := by
    rw [redactAll_of_some (hnext value hinert), field.quoteRest_text, List.length_append,
      List.length_append, Nat.add_sub_add_right, List.take_append_of_le_length (Nat.sub_le _ _)]
  obtain ⟨last, hlast, hscan⟩ | ⟨rest, hscan⟩ := field.valueEnd_decided key after
  · apply field.erased_or_kept_of_append
      (before.take (before.length - (quoteRest after).length) ++ placeholder) _ (hlater last hlast)
    intro value hinert
    rw [hpass value hinert, hscan value hinert.plain]
  · refine Or.inl ⟨before.take (before.length - (quoteRest after).length) ++ placeholder ++
      redactAll key rest, fun value hinert ↦ ?_⟩
    rw [hpass value hinert, hscan value hinert.plain]

/-- The induction is on the text before the field: the pass finds a key at its start or goes on. -/
theorem erased_or_kept (hkey : IsKey key) (before : List Char) :
    field.Erased key before ∨ field.Kept hkey before := by
  induction hlength : before.length using Nat.strong_induction_on generalizing before with
  | _ length ih =>
    subst hlength
    have hresume {after : List Char} (hafter : after <:+ before) (hlt : after.length < before.length)
        (hnext : ∀ value, Inert key value →
          nextValue key (before ++ field.text value) = nextValue key (after ++ field.text value)) :
        field.Erased key before ∨ field.Kept hkey before := by
      obtain ⟨skipped, rfl⟩ := hafter
      apply field.erased_or_kept_of_append skipped _ (ih after.length hlt after rfl)
      intro value hvalue
      rw [List.append_assoc]
      apply redactAll_append
      rw [← List.append_assoc]
      exact hnext value hvalue
    cases before with
    | nil =>
      have hnext (value : List Char) (hvalue : Inert key value) :=
        field.nextValue_text hkey field.name_plain hvalue
      by_cases hname : key <:+: toAsciiLowercase field.name
      · refine Or.inl (field.erased_of_nextValue fun value hvalue ↦ ?_)
        rw [List.nil_append, text, hnext value hvalue, if_pos hname]
      · refine Or.inr ⟨hname, [], fun value hvalue ↦ ?_⟩
        have hskip := hnext value hvalue
        rw [if_neg hname, ← text, text_eq] at hskip
        rw [List.nil_append, List.nil_append, text_eq, redactAll_append _ hskip, text_eq]
        rfl
    | cons c before =>
      have hmatch := field.isPrefixOf_text_iff hkey (c :: before)
      by_cases hmatched : key <+: toAsciiLowercase (c :: before ++ field.name)
      · by_cases hlt : (c :: before).length < key.length
        · exact Or.inl (field.erased_of_overlap hkey hmatched hlt)
        have hdrop (value : List Char) : (c :: before ++ field.text value).drop key.length =
            (c :: before).drop key.length ++ field.text value :=
          List.drop_append_of_le_length (not_lt.mp hlt)
        have hsuffix : (c :: before).drop key.length <:+ c :: before := List.drop_suffix _ _
        have hshort : ((c :: before).drop key.length).length < (c :: before).length := by
          have hpos := List.length_pos_of_ne_nil hkey.nonempty
          rw [List.length_drop]
          simp only [List.length_cons] at hlt ⊢
          omega
        obtain hvalue | ⟨after, hafter, hvalue⟩ | ⟨after, hafter, hvalue⟩ :=
          field.afterName_text key ((c :: before).drop key.length)
        · refine Or.inl (field.erased_of_nextValue fun value hinert ↦ ?_)
          apply nextValue_of_ok hkey.nonempty ((hmatch value).mpr hmatched)
          rw [hdrop, hvalue value hinert]
        · apply field.erased_or_kept_of_value
          · intro value hinert
            apply nextValue_of_ok hkey.nonempty ((hmatch value).mpr hmatched)
            rw [hdrop, hvalue value hinert]
          · intro last hlast
            exact ih last.length (lt_of_le_of_lt (hlast.trans hafter).length_le hshort) last rfl
        · apply hresume (hafter.trans hsuffix) (lt_of_le_of_lt hafter.length_le hshort)
          intro value hinert
          apply nextValue_of_error hkey.nonempty ((hmatch value).mpr hmatched)
          rw [hdrop, hvalue value hinert]
      · apply hresume (List.suffix_cons c before) (by simp)
        intro value _
        exact nextValue_cons_of_no_match fun h ↦ hmatched ((hmatch value).mp h)

end Field

/-! ## The redactor -/

/-- The passes of all keys. -/
def redactKeys (keys : List (List Char)) (input : List Char) : List Char :=
  keys.foldl (fun text key ↦ redactAll key text) input

theorem foldlM_redactInlineKeyValues {keys : List (List Char)} (hkeys : ∀ key ∈ keys, key ≠ [])
    (input : List Char) : keys.foldlM redactInlineKeyValues input = some (redactKeys keys input) := by
  induction keys generalizing input with
  | nil => rfl
  | cons key keys ih =>
    rw [List.foldlM_cons, redactInlineKeyValues_eq (hkeys key List.mem_cons_self)]
    exact ih (fun other hother ↦ hkeys other (List.mem_cons_of_mem key hother)) _

theorem Redactor.redactValue_eq (self : Redactor) (input : List Char) :
    self.redactValue input = some (redactKeys self.secretKeys input) :=
  foldlM_redactInlineKeyValues self.nonempty input

/-- No pass takes the name from its value before the pass of a key in the name comes. -/
theorem redactKeys_text {keys : List (List Char)} (hkeys : ∀ key ∈ keys, IsKey key) (field : Field)
    (hname : ∃ key ∈ keys, key <:+: toAsciiLowercase field.name) {value value' : List Char}
    (hvalue : ∀ key ∈ keys, Inert key value) (hvalue' : ∀ key ∈ keys, Inert key value')
    (before : List Char) :
    redactKeys keys (before ++ field.text value) = redactKeys keys (before ++ field.text value') := by
  induction keys generalizing field before with
  | nil =>
    obtain ⟨key, hkey, _⟩ := hname
    cases hkey
  | cons key keys ih =>
    have hinert := hvalue key List.mem_cons_self
    have hinert' := hvalue' key List.mem_cons_self
    simp only [redactKeys, List.foldl_cons] at ih ⊢
    obtain ⟨output, houtput⟩ | ⟨hmissing, output, houtput⟩ :=
      field.erased_or_kept (hkeys key List.mem_cons_self) before
    · rw [houtput value hinert, houtput value' hinert']
    · rw [houtput value hinert, houtput value' hinert']
      obtain ⟨other, hother, hinside⟩ := hname
      obtain rfl | hother := List.mem_cons.mp hother
      · exact absurd hinside hmissing
      · exact ih (fun other hother ↦ hkeys other (List.mem_cons_of_mem key hother))
          (field.redacted (hkeys key List.mem_cons_self)) ⟨other, hother, hinside⟩ (fun other hother ↦ hvalue other (List.mem_cons_of_mem key hother))
          (fun other hother ↦ hvalue' other (List.mem_cons_of_mem key hother)) output

/-- The value is not empty, no scan stops in it and no key is in it, ignoring case. -/
structure Redactor.Conceals (redactor : Redactor) (value : List Char) : Prop where
  nonempty : value ≠ []
  plain : ∀ c ∈ value, isPlain c = true
  keyless : ∀ key ∈ redactor.secretKeys, ¬key <:+: toAsciiLowercase value

/-- Two texts that differ in the value of a marked field only are written the same. -/
theorem Redactor.redacted_value_independent (self : Redactor)
    (hkeys : ∀ key ∈ self.secretKeys, ∀ c ∈ key, isKeyChar c = true)
    {before name suffix rest value value' : List Char} {separator : Char}
    (hname : toAsciiLowercase name ∈ self.secretKeys) (hsuffix : ∀ c ∈ suffix, isPlain c = true)
    (hseparator : separator = '=' ∨ separator = ':')
    (hrest : ∀ c ∈ rest.head?, isUnquotedValueDelimiter c = true)
    (hvalue : self.Conceals value) (hvalue' : self.Conceals value') :
    ∃ output,
      self.redactValue (before ++ name ++ suffix ++ [separator] ++ value ++ rest) = some output ∧
      self.redactValue (before ++ name ++ suffix ++ [separator] ++ value' ++ rest) = some output := by
  have hkey (key : List Char) (hkey : key ∈ self.secretKeys) : IsKey key :=
    ⟨self.nonempty key hkey, hkeys key hkey⟩
  have hplain : ∀ c ∈ name, isPlain c = true := fun c hc ↦ isPlain_of_isKeyChar
    (isKeyChar_of_toLower ((hkey _ hname).chars _ (List.mem_map_of_mem hc)))
  let field : Field :=
    { name := name ++ suffix
      separator
      rest
      name_nonempty := by
        refine List.append_ne_nil_of_left_ne_nil ?_ _
        rintro rfl
        exact self.nonempty _ hname rfl
      name_plain := fun c hc ↦ (List.mem_append.mp hc).elim (hplain c) (hsuffix c)
      separator_separates := by simpa [isSeparator] using hseparator
      rest_delimits := by
        cases rest with
        | nil => rfl
        | cons c rest => exact hrest c rfl }
  have htext (value : List Char) : before ++ name ++ suffix ++ [separator] ++ value ++ rest =
      before ++ field.text value := by
    simp only [field, Field.text, List.append_assoc, List.cons_append, List.nil_append]
  have hinert {value : List Char} (h : self.Conceals value) :
      ∀ key ∈ self.secretKeys, Inert key value := fun key hmem ↦
    ⟨h.nonempty, h.plain, h.keyless key hmem⟩
  refine ⟨redactKeys self.secretKeys (before ++ field.text value), ?_, ?_⟩
  · rw [htext, redactValue_eq]
  · rw [htext, redactValue_eq]
    congr 1
    apply redactKeys_text hkey field ⟨_, hname, ?_⟩ (hinert hvalue') (hinert hvalue)
    simp only [field, toAsciiLowercase, List.map_append]
    exact (List.prefix_append _ _).isInfix

theorem Redactor.redacted_value_independent_token : ∃ output,
    Redactor.default.redactValue ("password=\"half open ".toList ++ "Token".toList ++ "_id".toList ++
      ['='] ++ "abc123".toList ++ ", secret: \"x\"".toList) = some output ∧
    Redactor.default.redactValue ("password=\"half open ".toList ++ "Token".toList ++ "_id".toList ++
      ['='] ++ "zz".toList ++ ", secret: \"x\"".toList) = some output := by
  have hall {text : List Char} (h : text.all isPlain = true) : ∀ c ∈ text, isPlain c = true :=
    List.all_eq_true.mp h
  have hkeys : ∀ key ∈ Redactor.default.secretKeys, key.all isKeyChar = true := by decide +kernel
  apply Redactor.default.redacted_value_independent
  · exact fun key hkey ↦ List.all_eq_true.mp (hkeys key hkey)
  · decide +kernel
  · exact hall (by decide +kernel)
  · exact Or.inl rfl
  · intro c hc
    obtain rfl := Option.some.inj hc
    decide +kernel
  · exact ⟨by decide, hall (by decide +kernel), by decide +kernel⟩
  · exact ⟨by decide, hall (by decide +kernel), by decide +kernel⟩

end FerrisBridge
