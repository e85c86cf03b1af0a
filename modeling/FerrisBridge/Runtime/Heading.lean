import FerrisBridge.Runtime.Confidentiality
import FerrisBridge.Runtime.Markers

/-!
# A name with its value

A name may be quoted, and whitespace may stand on both sides of its separator. Behind a quoted name
the scan skips it; a bare name ends there, so it has no value and the text goes on as if it were not
a marker. The passes over such a text are passes over its value.
-/

open Foundations

namespace FerrisBridge

/-! ## Headings -/

/-- A character in which no name ends. -/
def isNameChar (c : Char) : Bool := !isWhitespace c && !isQuote c && !isSeparator c

theorem isNameChar_iff (c : Char) : isNameChar c = true ↔
    isWhitespace c = false ∧ isQuote c = false ∧ isSeparator c = false := by
  simp only [isNameChar, Bool.and_eq_true, Bool.not_eq_true', and_assoc]

/-- What may close a name: nothing, a quote, or an escaped quote. -/
def closings : List (List Char) := [[], ['"'], ['\''], ['\\', '"'], ['\\', '\'']]

/-- A name with its closing quote, in the text behind `before` and in front of a separator. -/
structure Heading where
  before : List Char
  name : List Char
  closing : List Char
  separator : Char
  name_chars : ∀ c ∈ name, isNameChar c = true
  closing_closes : closing ∈ closings
  separates : isSeparator separator = true

namespace Heading

/-- The name in the text. -/
def label (self : Heading) : List Char := self.before ++ (self.name ++ self.closing)

/-- The text with its spaces and what follows them. -/
def text (self : Heading) (spaces spaces' value : List Char) : List Char :=
  self.label ++ (spaces ++ self.separator :: (spaces' ++ value))

end Heading

/-- The quote that opens a value. -/
def openingQuote : List Char → List Char
  | [] => []
  | [c] => if isQuote c then [c] else []
  | c :: d :: _ => if c = '\\' ∧ isQuote d then [c, d] else if isQuote c then [c] else []

theorem openingQuote_append_quoteRest (text : List Char) :
    openingQuote text ++ quoteRest text = text := by
  fun_cases openingQuote text with
  | case1 => rfl
  | case2 c hquote =>
    rw [quoteRest_singleton, if_pos hquote]
    rfl
  | case3 c hquote => rw [quoteRest_singleton, if_neg hquote, List.nil_append]
  | case4 c d rest hescaped =>
    rw [quoteRest_cons_cons, if_pos hescaped]
    rfl
  | case5 c d rest hescaped hquote =>
    rw [quoteRest_cons_cons, if_neg hescaped, if_pos hquote]
    rfl
  | case6 c d rest hescaped hquote =>
    rw [quoteRest_cons_cons, if_neg hescaped, if_neg hquote, List.nil_append]

/-- All characters are whitespace. -/
def Blank (spaces : List Char) : Prop := ∀ c ∈ spaces, isWhitespace c = true

theorem isWhitespace_toLower (c : Char) : isWhitespace c.toLower = isWhitespace c := by
  by_cases h : 65 ≤ c.toNat ∧ c.toNat ≤ 90
  · have hlower : c.toLower.toNat = c.toNat + 32 := by rw [toNat_toLower, if_pos h]
    have hno (d : Char) (hd : 65 ≤ d.toNat ∧ d.toNat ≤ 122) : isWhitespace d = false := by
      simp only [isWhitespace, Bool.or_eq_false_iff, Bool.and_eq_false_iff, decide_eq_false_iff_not,
        beq_eq_false_iff_ne]
      omega
    rw [hno c (by omega), hno c.toLower (by omega)]
  · have hlower : c.toLower = c := by
      apply char_eq_of_toNat
      rw [toNat_toLower, if_neg h]
    rw [hlower]

theorem head_spaceRest {text : List Char} {c : Char} (h : c ∈ (spaceRest text).head?) :
    isWhitespace c = false := by
  rw [spaceRest] at h
  cases hdrop : text.dropWhile isWhitespace with
  | nil =>
    rw [hdrop] at h
    cases h
  | cons d rest =>
    rw [hdrop] at h
    obtain rfl := Option.some.inj h
    have hhead := List.head_dropWhile_not isWhitespace (hdrop ▸ List.cons_ne_nil d rest)
    simpa [hdrop] using hhead

/-- A key without quotes and separators that neither starts nor ends with whitespace. -/
structure WordKey (key : List Char) : Prop extends Joined key where
  quoteless : ∀ c ∈ key, isQuote c = false
  first : ∀ c ∈ key.head?, isWhitespace c = false
  last : ∀ c ∈ key.getLast?, isWhitespace c = false

section Blank

variable {spaces key : List Char}

theorem spaceRest_blank (h : Blank spaces) (rest : List Char) :
    spaceRest (spaces ++ rest) = spaceRest rest :=
  List.dropWhile_append_of_pos h

theorem spaceRest_value (h : Blank spaces) {value : List Char}
    (hvalue : ∀ c ∈ value.head?, isWhitespace c = false) : spaceRest (spaces ++ value) = value := by
  rw [spaceRest_blank h]
  cases value with
  | nil => rfl
  | cons c value => exact List.dropWhile_cons_of_neg (by rw [hvalue c rfl]; simp)

/-- No marker starts in whitespace. -/
theorem nextValue_blank (hkey : WordKey key) (h : Blank spaces) (rest : List Char) :
    nextValue key (spaces ++ rest) = nextValue key rest := by
  induction spaces with
  | nil => rfl
  | cons c spaces ih =>
    have hskip : nextValue key (c :: (spaces ++ rest)) = nextValue key (spaces ++ rest) := by
      apply nextValue_cons_of_no_match
      intro hmatched
      obtain ⟨first, others, rfl⟩ := List.exists_cons_of_ne_nil hkey.nonempty
      have hcons := List.isPrefixOf_iff_prefix.mp hmatched
      obtain ⟨rfl, -⟩ := List.cons_prefix_cons.mp hcons
      have hspace := hkey.first _ rfl
      rw [isWhitespace_toLower, h c List.mem_cons_self] at hspace
      cases hspace
    rw [List.cons_append, hskip, ih fun d hd ↦ h d (List.mem_cons_of_mem c hd)]

/-- A key that ends in front of whitespace does not end in it. -/
theorem infix_of_infix_blank (hkey : WordKey key) (h : Blank spaces) {front : List Char}
    (hinside : key <:+: toAsciiLowercase (front ++ spaces)) : key <:+: toAsciiLowercase front := by
  rw [toAsciiLowercase, List.map_append] at hinside
  apply infix_of_infix_append hkey.nonempty _ hinside
  intro c hc hmem
  obtain ⟨d, hd, rfl⟩ := List.mem_map.mp hmem
  have hspace := hkey.last _ hc
  rw [isWhitespace_toLower, h d hd] at hspace
  cases hspace

end Blank

/-! ## The end of a name -/

section Name

variable {name closing rest : List Char}

theorem nameRest_stop {c : Char} (h : isSeparator c = true ∨ isQuote c = true) (rest : List Char) :
    nameRest (c :: rest) = some (c :: rest) := by
  have hspace : isWhitespace c = false := by
    obtain h | h := h
    · obtain rfl | rfl := isSeparator_cases h <;> decide
    · obtain rfl | rfl := isQuote_cases h <;> decide
  have hstop : (isSeparator c || isQuote c) = true := by
    obtain h | h := h <;> simp [h]
  rw [nameRest, hspace, if_neg Bool.false_ne_true, if_pos hstop]

/-- The closing quote ends a name and is skipped. -/
theorem nameRest_quote {quote : Char} (h : isQuote quote = true) (rest : List Char) :
    ∃ suffix, nameRest (quote :: rest) = some suffix ∧ quoteRest suffix = rest := by
  refine ⟨quote :: rest, nameRest_stop (Or.inr h) rest, ?_⟩
  apply (quoted_cons _ h).1
  cases rest with
  | nil => simp [startsEscapedQuote_singleton]
  | cons d rest =>
    rw [startsEscapedQuote_cons_cons]
    obtain rfl | rfl := isQuote_cases h <;> simp

theorem nameRest_escapedQuote {quote : Char} (h : isQuote quote = true) (rest : List Char) :
    ∃ suffix, nameRest ('\\' :: quote :: rest) = some suffix ∧ quoteRest suffix = rest := by
  have hescaped : startsEscapedQuote ('\\' :: quote :: rest) = true := by
    rw [startsEscapedQuote_cons_cons, h]
    rfl
  refine ⟨'\\' :: quote :: rest, ?_, ?_⟩
  · have hspace : ¬isWhitespace '\\' = true := by decide
    have hstop : ¬(isSeparator '\\' || isQuote '\\') = true := by decide
    rw [nameRest, if_neg hspace, if_neg hstop, if_pos hescaped]
  · rw [quoteRest_cons_cons, if_pos ⟨rfl, h⟩]

theorem closings_cases (h : closing ∈ closings) :
    closing = [] ∨ ∃ quote, isQuote quote = true ∧ (closing = [quote] ∨ closing = ['\\', quote]) := by
  simp only [closings, List.mem_cons, List.not_mem_nil, or_false] at h
  rcases h with rfl | rfl | rfl | rfl | rfl
  · exact Or.inl rfl
  · exact Or.inr ⟨'"', rfl, Or.inl rfl⟩
  · exact Or.inr ⟨'\'', rfl, Or.inl rfl⟩
  · exact Or.inr ⟨'"', rfl, Or.inr rfl⟩
  · exact Or.inr ⟨'\'', rfl, Or.inr rfl⟩

/-- The scan of a quoted name, or of one right before its separator, comes to what follows it. A
backslash at the end of the name may make the closing quote an escaped one. -/
theorem nameRest_closed (hname : ∀ c ∈ name, isNameChar c = true) (hclosing : closing ∈ closings)
    (hbare : closing = [] → ∀ c ∈ rest.head?, isSeparator c = true) (hrest : rest ≠ []) :
    ∃ suffix, nameRest (name ++ (closing ++ rest)) = some suffix ∧ quoteRest suffix = rest := by
  induction name with
  | nil =>
    obtain rfl | ⟨quote, hquote, rfl | rfl⟩ := closings_cases hclosing
    · obtain ⟨separator, after, rfl⟩ := List.exists_cons_of_ne_nil hrest
      have hseparator := hbare rfl separator rfl
      exact ⟨_, nameRest_stop (Or.inl hseparator) after, quoteRest_separator hseparator after⟩
    · exact nameRest_quote hquote _
    · exact nameRest_escapedQuote hquote _
  | cons c name ih =>
    obtain ⟨suffix, hsuffix, hquoteRest⟩ := ih fun d hd ↦ hname d (List.mem_cons_of_mem c hd)
    obtain ⟨hspace, hquote, hmark⟩ := (isNameChar_iff c).mp (hname c List.mem_cons_self)
    by_cases hescaped : startsEscapedQuote (c :: (name ++ (closing ++ rest))) = true
    · obtain ⟨quote, after, hquote', htext⟩ := startsEscapedQuote_eq_true hescaped
      obtain ⟨rfl, hafter⟩ := List.cons.inj htext
      rw [List.cons_append, hafter]
      rw [hafter, nameRest_stop (Or.inr hquote')] at hsuffix
      obtain ⟨suffix', hsuffix', hquoteRest'⟩ := nameRest_escapedQuote hquote' after
      refine ⟨suffix', hsuffix', ?_⟩
      rw [hquoteRest', ← hquoteRest, ← Option.some.inj hsuffix]
      obtain ⟨_, hstop, hskip⟩ := nameRest_quote hquote' after
      rw [nameRest_stop (Or.inr hquote')] at hstop
      rw [Option.some.inj hstop, hskip]
    · refine ⟨suffix, ?_, hquoteRest⟩
      rw [List.cons_append, nameRest, if_neg (by rw [hspace]; simp), if_neg (by rw [hmark, hquote]; simp),
        if_neg hescaped]
      exact hsuffix

/-- Whitespace ends a bare name. -/
theorem nameRest_bare (hname : ∀ c ∈ name, isNameChar c = true) {space : Char}
    (hspace : isWhitespace space = true) (rest : List Char) :
    nameRest (name ++ space :: rest) = none := by
  induction name with
  | nil => rw [List.nil_append, nameRest, if_pos hspace]
  | cons c name ih =>
    have hnone := ih fun d hd ↦ hname d (List.mem_cons_of_mem c hd)
    obtain ⟨hspace', hquote, hmark⟩ := (isNameChar_iff c).mp (hname c List.mem_cons_self)
    have hescaped : ¬startsEscapedQuote (c :: (name ++ space :: rest)) = true := by
      intro hescaped
      obtain ⟨quote, after, hquote', htext⟩ := startsEscapedQuote_eq_true hescaped
      rw [(List.cons.inj htext).2, nameRest_stop (Or.inr hquote')] at hnone
      cases hnone
    rw [List.cons_append, nameRest, if_neg (by rw [hspace']; simp), if_neg (by rw [hmark, hquote]; simp),
      if_neg hescaped]
    exact hnone

end Name

/-! ## The marker of a heading -/

/-- A name that a key reaches into ends as the whole name does. -/
theorem closing_of_suffix {name closing used left : List Char} (hclosing : closing ∈ closings)
    (hsplit : name ++ closing = used ++ left) (hleft : left = [] → closing = []) :
    ∃ name' closing', left = name' ++ closing' ∧ name' <:+ name ∧ closing' ∈ closings ∧
      (closing' = [] → closing = []) := by
  obtain ⟨skipped, rfl, rfl⟩ | ⟨name', rfl, rfl⟩ := List.append_eq_append_iff.mp hsplit
  · cases skipped with
    | nil => exact ⟨[], left, rfl, List.nil_suffix, hclosing, fun h ↦ by rw [h, List.append_nil]⟩
    | cons c skipped =>
      obtain hnil | ⟨quote, hquote, hone | htwo⟩ := closings_cases hclosing
      · cases hnil
      · rw [List.cons_append, List.cons.injEq, List.append_eq_nil_iff] at hone
        exact absurd (hleft hone.2.2) (by simp)
      · cases skipped with
        | nil =>
          obtain ⟨-, rfl⟩ := List.cons.inj htwo
          refine ⟨[], [quote], rfl, List.nil_suffix, ?_, fun h ↦ by cases h⟩
          obtain rfl | rfl := isQuote_cases hquote <;> simp [closings]
        | cons d skipped =>
          rw [List.cons_append, List.cons_append, List.cons.injEq, List.cons.injEq,
            List.append_eq_nil_iff] at htwo
          exact absurd (hleft htwo.2.2.2) (by simp)
  · exact ⟨name', closing, rfl, List.suffix_append _ _, hclosing, id⟩

namespace Heading

variable (self : Heading) {key spaces spaces' value : List Char}

/-- A key that is not in the text before a name ends in the name. -/
theorem ends_in_name {before name used left : List Char} (hbefore : ¬key <:+: toAsciiLowercase before)
    (hsplit : before ++ name = used ++ left) (hused : key <:+ toAsciiLowercase used) :
    ∃ front, name = front ++ left := by
  obtain ⟨more, hmore, -⟩ | ⟨front, -, hname⟩ := List.append_eq_append_iff.mp hsplit.symm
  · refine absurd ?_ hbefore
    rw [hmore, toAsciiLowercase, List.map_append]
    exact hused.isInfix.trans (List.prefix_append _ _).isInfix
  · exact ⟨front, hname⟩

/-- The value of a key in the label of a heading that is quoted, or has no whitespace in front of its
separator. -/
theorem nextValue_marked (hkey : WordKey key) (hbefore : ¬key <:+: toAsciiLowercase self.before)
    (hlabel : key <:+: toAsciiLowercase self.label) (hspaces : Blank spaces)
    (hbare : self.closing = [] → spaces = []) (spaces' value : List Char) :
    nextValue key (self.text spaces spaces' value) = some (spaceRest (spaces' ++ value)) := by
  obtain ⟨used, left, hsplit, hused, hnext⟩ := nextValue_of_present hkey.nonempty hlabel
  obtain ⟨front, hfront⟩ := ends_in_name hbefore hsplit hused
  have hleft : left = [] → self.closing = [] := by
    -- no key ends in the closing quote
    rintro rfl
    rw [List.append_nil] at hsplit
    obtain hnil | ⟨quote, hquote, hclosing⟩ := closings_cases self.closing_closes
    · exact hnil
    · have hlast : self.label.getLast? = some quote := by
        obtain hclosing | hclosing := hclosing <;> simp [label, hclosing]
      obtain ⟨rest, hrest⟩ := hused
      have hkeyLast : key.getLast? = some quote.toLower := by
        rw [hsplit] at hlast
        have hmap : (toAsciiLowercase used).getLast? = some quote.toLower := by
          rw [toAsciiLowercase, List.getLast?_map, hlast, Option.map_some]
        rwa [← hrest, List.getLast?_append_of_ne_nil _ hkey.nonempty] at hmap
      have hquoteless := hkey.quoteless _ (List.mem_of_getLast? hkeyLast)
      obtain rfl | rfl := isQuote_cases hquote <;> cases hquoteless
  obtain ⟨name, closing, rfl, hname, hclosing, hends⟩ :=
    closing_of_suffix self.closing_closes hfront hleft
  have hchars : ∀ c ∈ name, isNameChar c = true := fun c hc ↦
    self.name_chars c (hname.subset hc)
  obtain ⟨suffix, hsuffix, hskip⟩ : ∃ suffix, nameRest (name ++ (closing ++
      (spaces ++ self.separator :: (spaces' ++ value)))) = some suffix ∧
      quoteRest suffix = spaces ++ self.separator :: (spaces' ++ value) := by
    apply nameRest_closed hchars hclosing _ (by simp)
    intro hnil c hc
    rw [hbare (hends hnil)] at hc
    obtain rfl := Option.some.inj hc
    exact self.separates
  have hspace : spaceRest (quoteRest suffix) = self.separator :: (spaces' ++ value) := by
    rw [hskip]
    apply spaceRest_value hspaces
    intro c hc
    obtain rfl := Option.some.inj hc
    obtain h | h := isSeparator_cases self.separates <;> rw [h] <;> decide
  have hok := afterName_eq_ok hsuffix hspace self.separates
  rw [← List.append_assoc] at hok
  exact (hnext (spaces ++ self.separator :: (spaces' ++ value))).1 _ hok

/-- No key has a value behind a bare name with whitespace in front of its separator. The induction is
on the text up to the spaces: behind an occurrence of the key the scan goes on in the rest of the
name. -/
theorem nextValue_spaced (hkey : WordKey key) {before name : List Char}
    (hname : ∀ c ∈ name, isNameChar c = true) (hbefore : ¬key <:+: toAsciiLowercase before)
    (hspaces : Blank spaces) (hne : spaces ≠ []) (rest : List Char) :
    nextValue key (before ++ name ++ (spaces ++ self.separator :: rest)) = nextValue key rest := by
  induction hlength : (before ++ name).length using Nat.strong_induction_on generalizing before name with
  | _ length ih =>
    subst hlength
    by_cases hinside : key <:+: toAsciiLowercase (before ++ name)
    · obtain ⟨used, left, hsplit, hused, hnext⟩ := nextValue_of_present hkey.nonempty hinside
      obtain ⟨front, rfl⟩ := ends_in_name hbefore hsplit hused
      have hleft : ∀ c ∈ left, isNameChar c = true := fun c hc ↦
        hname c (List.mem_append_right front hc)
      have herror : afterName (left ++ (spaces ++ self.separator :: rest)) =
          .error (left ++ (spaces ++ self.separator :: rest)) := by
        obtain ⟨space, others, rfl⟩ := List.exists_cons_of_ne_nil hne
        have hnone := nameRest_bare hleft (hspaces space List.mem_cons_self)
          (others ++ self.separator :: rest)
        simp only [afterName, List.cons_append, hnone]
      have hshort : ([] ++ left).length < (before ++ (front ++ left)).length := by
        have hpos : used ≠ [] := by
          rintro rfl
          exact hkey.nonempty (List.suffix_nil.mp hused)
        have hlength := List.length_pos_of_ne_nil hpos
        rw [hsplit, List.length_append]
        simpa using hlength
      have habsent : ¬key <:+: toAsciiLowercase [] := fun h ↦
        hkey.nonempty (List.infix_nil.mp h)
      calc
        nextValue key (before ++ (front ++ left) ++ (spaces ++ self.separator :: rest)) =
            nextValue key (left ++ (spaces ++ self.separator :: rest)) := (hnext _).2 _ herror
        _ = nextValue key rest := ih _ hshort hleft habsent rfl
    · have habsent : ¬key <:+: toAsciiLowercase (before ++ name ++ spaces) := fun h ↦
        hinside (infix_of_infix_blank hkey hspaces h)
      have hskip := nextValue_of_absent hkey.toJoined habsent self.separates rest
      rw [List.append_assoc _ spaces] at hskip
      exact hskip

end Heading

/-! ## The passes over a heading -/

theorem openingQuote_mem (text : List Char) : openingQuote text ∈ closings := by
  fun_cases openingQuote text with
  | case1 => simp [closings]
  | case2 c hquote => obtain rfl | rfl := isQuote_cases hquote <;> simp [closings]
  | case3 => simp [closings]
  | case4 c d rest hescaped =>
    obtain ⟨rfl, hquote⟩ := hescaped
    obtain rfl | rfl := isQuote_cases hquote <;> simp [closings]
  | case5 c d rest hescaped hquote => obtain rfl | rfl := isQuote_cases hquote <;> simp [closings]
  | case6 => simp [closings]

/-- The opening quote is told by the first two characters. -/
theorem openingQuote_of_separator {c : Char} (h : isSeparator c = true) (rest : List Char) :
    openingQuote (c :: rest) = [] := by
  obtain rfl | rfl := isSeparator_cases h <;> cases rest <;> rfl

theorem openingQuote_placeholder {opening : List Char} (h : opening ∈ closings) (rest : List Char) :
    openingQuote (opening ++ (placeholder ++ rest)) = opening := by
  simp only [closings, List.mem_cons, List.not_mem_nil, or_false] at h
  rcases h with rfl | rfl | rfl | rfl | rfl <;> rfl

theorem openingQuote_append {opening : List Char} (h : opening ∈ closings) (hne : opening ≠ [])
    (rest : List Char) : openingQuote (opening ++ rest) = opening := by
  obtain hnil | ⟨quote, hquote, rfl | rfl⟩ := closings_cases h
  · exact absurd hnil hne
  · obtain rfl | rfl := isQuote_cases hquote <;> cases rest <;> rfl
  · obtain rfl | rfl := isQuote_cases hquote <;> rfl

/-- A pass leaves the opening quote of a text. -/
theorem openingQuote_redactAll (key text : List Char) :
    openingQuote (redactAll key text) = openingQuote text := by
  cases text with
  | nil => rw [redactAll_of_none (nextValue.eq_1 key)]
  | cons c text =>
    by_cases hseparator : isSeparator c = true
    · obtain ⟨output, houtput⟩ := redactAll_keeps key (List.forall_mem_nil _) c text
      rw [List.nil_append, List.nil_append] at houtput
      rw [houtput, openingQuote_of_separator hseparator, openingQuote_of_separator hseparator]
    · have hfirst : ∀ d ∈ [c], isSeparator d = false := by simpa using hseparator
      cases text with
      | nil => rw [redactAll_of_separatorless key hfirst]
      | cons d text =>
        obtain ⟨output, houtput⟩ := redactAll_keeps key hfirst d text
        rw [List.cons_append, List.nil_append] at houtput
        rw [houtput]
        rfl

theorem head_openingQuote {text : List Char} {c : Char} (h : c ∈ (openingQuote text).head?) :
    isWhitespace c = false := by
  have hmem := openingQuote_mem text
  simp only [closings, List.mem_cons, List.not_mem_nil, or_false] at hmem
  rcases hmem with hmem | hmem | hmem | hmem | hmem <;> rw [hmem] at h <;>
    simp only [List.head?_nil, List.head?_cons, Option.mem_def, Option.some.injEq, reduceCtorEq] at h <;>
    rw [← h] <;> decide

namespace Heading

variable (self : Heading) {key spaces spaces' value : List Char}

/-- What the pass of a key makes of the value of the heading. -/
def pass (value key : List Char) : List Char :=
  if key <:+: toAsciiLowercase self.label then
    openingQuote value ++ (placeholder ++ redactAll key (valueEnd key value))
  else redactAll key value

/-- The value starts right there. -/
def Starts (value : List Char) : Prop := ∀ c ∈ value.head?, isWhitespace c = false

theorem starts_pass (hvalue : Starts value) (key : List Char) : Starts (self.pass value key) := by
  intro c hc
  rw [pass] at hc
  split_ifs at hc
  · cases hopening : openingQuote value with
    | nil =>
      rw [hopening] at hc
      obtain rfl := Option.some.inj hc
      decide
    | cons d rest =>
      have hfirst : c ∈ (openingQuote value).head? := by
        rw [hopening] at hc ⊢
        exact hc
      exact head_openingQuote hfirst
  · cases value with
    | nil =>
      rw [redactAll_of_none (nextValue.eq_1 key)] at hc
      cases hc
    | cons d value =>
      obtain ⟨output, houtput⟩ := redactAll_keeps key (List.forall_mem_nil _) d value
      rw [List.nil_append, List.nil_append] at houtput
      rw [houtput] at hc
      exact hvalue c hc

/-- A pass over the text is one over the value. -/
theorem redactAll_text (hkey : WordKey key) (hbefore : ¬key <:+: toAsciiLowercase self.before)
    (hspaces : Blank spaces) (hspaces' : Blank spaces') (hvalue : Starts value)
    (hbare : self.closing = [] → spaces = []) :
    redactAll key (self.text spaces spaces' value) =
      self.text spaces spaces' (self.pass value key) := by
  have htext (value : List Char) : self.text spaces spaces' value =
      (self.label ++ (spaces ++ self.separator :: spaces')) ++ value := by
    simp only [text, List.append_assoc, List.cons_append]
  rw [pass]
  by_cases hlabel : key <:+: toAsciiLowercase self.label
  · have hnext := self.nextValue_marked hkey hbefore hlabel hspaces hbare spaces' value
    rw [spaceRest_value hspaces' hvalue] at hnext
    have hquote : self.text spaces spaces' value =
        (self.label ++ (spaces ++ self.separator :: spaces')) ++ openingQuote value ++
          quoteRest value := by
      rw [htext, List.append_assoc _ (openingQuote value), openingQuote_append_quoteRest]
    rw [if_pos hlabel, redactAll_of_value hnext hquote, htext]
    simp only [List.append_assoc]
  · have habsent : ¬key <:+: toAsciiLowercase (self.label ++ spaces) := fun h ↦
      hlabel (infix_of_infix_blank hkey hspaces h)
    have hskip := nextValue_of_absent hkey.toJoined habsent self.separates (spaces' ++ value)
    rw [nextValue_blank hkey hspaces', List.append_assoc self.label] at hskip
    rw [if_neg hlabel, htext, htext]
    apply redactAll_append
    rw [← htext]
    exact hskip

/-- The pass over a heading without a value comes to what follows its separator. -/
theorem redactAll_spaced (hkey : WordKey key) (hbefore : ¬key <:+: toAsciiLowercase self.before)
    (hspaces : Blank spaces) (hne : spaces ≠ []) (hclosing : self.closing = []) (rest : List Char) :
    redactAll key (self.label ++ (spaces ++ self.separator :: rest)) =
      self.label ++ (spaces ++ self.separator :: redactAll key rest) := by
  have hsplit (rest : List Char) : self.label ++ (spaces ++ self.separator :: rest) =
      (self.label ++ (spaces ++ [self.separator])) ++ rest := by
    simp only [List.append_assoc, List.cons_append, List.nil_append]
  have hskip := self.nextValue_spaced hkey self.name_chars hbefore hspaces hne rest
  have hlabel : self.label = self.before ++ self.name := by rw [label, hclosing, List.append_nil]
  rw [← hlabel, hsplit] at hskip
  rw [hsplit, redactAll_append _ hskip, hsplit (redactAll key rest)]

theorem redactKeys_text {keys : List (List Char)} (hkeys : ∀ key ∈ keys, WordKey key)
    (hbefore : ∀ key ∈ keys, ¬key <:+: toAsciiLowercase self.before) (hspaces : Blank spaces)
    (hspaces' : Blank spaces') (hvalue : Starts value) (hbare : self.closing = [] → spaces = []) :
    redactKeys keys (self.text spaces spaces' value) =
      self.text spaces spaces' (keys.foldl self.pass value) := by
  induction keys generalizing value with
  | nil => rfl
  | cons key keys ih =>
    have hpass := self.redactAll_text (hkeys key List.mem_cons_self) (hbefore key List.mem_cons_self)
      hspaces hspaces' hvalue hbare
    rw [redactKeys, List.foldl_cons, hpass, List.foldl_cons]
    exact ih (fun other hother ↦ hkeys other (List.mem_cons_of_mem key hother))
      (fun other hother ↦ hbefore other (List.mem_cons_of_mem key hother)) (self.starts_pass hvalue key)

theorem redactKeys_spaced {keys : List (List Char)} (hkeys : ∀ key ∈ keys, WordKey key)
    (hbefore : ∀ key ∈ keys, ¬key <:+: toAsciiLowercase self.before) (hspaces : Blank spaces)
    (hne : spaces ≠ []) (hclosing : self.closing = []) (rest : List Char) :
    redactKeys keys (self.label ++ (spaces ++ self.separator :: rest)) =
      self.label ++ (spaces ++ self.separator :: redactKeys keys rest) := by
  induction keys generalizing rest with
  | nil => rfl
  | cons key keys ih =>
    have hpass := self.redactAll_spaced (hkeys key List.mem_cons_self)
      (hbefore key List.mem_cons_self) hspaces hne hclosing rest
    rw [redactKeys, List.foldl_cons, hpass]
    exact ih (fun other hother ↦ hkeys other (List.mem_cons_of_mem key hother))
      (fun other hother ↦ hbefore other (List.mem_cons_of_mem key hother)) _

end Heading

end FerrisBridge
