import FerrisBridge.Runtime.Remnants

/-!
# Fields of a text

A field ends where every scan begins anew: behind whitespace, if the field has no quotes and does not
end in a separator, or behind a quoted value that is closed. The passes go over such fields one by one.
-/

open Foundations

namespace FerrisBridge

variable {key : List Char}

/-- A key in which no scan stops. -/
structure PlainKey (key : List Char) : Prop where
  nonempty : key ≠ []
  plain : ∀ c ∈ key, isPlain c = true

theorem PlainKey.joined (h : PlainKey key) : Joined key where
  nonempty := h.nonempty
  separatorless c hc := ((isPlain_iff c).mp (h.plain c hc)).2.2.1

theorem PlainKey.undelimited (h : PlainKey key) : unquotedEnd key = [] := by
  rw [unquotedEnd, List.dropWhile_eq_nil_iff]
  intro c hc
  rw [((isPlain_iff c).mp (h.plain c hc)).1]
  rfl

theorem PlainKey.not_mem (h : PlainKey key) {c : Char} (hc : isPlain c = false) : c ∉ key := by
  intro hmem
  rw [h.plain c hmem] at hc
  cases hc

theorem PlainKey.wordKey (h : PlainKey key) : WordKey key where
  toJoined := h.joined
  quoteless c hc := ((isPlain_iff c).mp (h.plain c hc)).2.1
  first c hc := isWhitespace_of_isPlain (h.plain c (List.mem_of_mem_head? hc))
  last c hc := isWhitespace_of_isPlain (h.plain c (List.mem_of_getLast? hc))

theorem isPlain_of_isWhitespace {c : Char} (h : isWhitespace c = true) : isPlain c = false := by
  cases hplain : isPlain c with
  | false => rfl
  | true =>
    rw [isWhitespace_of_isPlain hplain] at h
    cases h

theorem toLower_of_isWhitespace {c : Char} (h : isWhitespace c = true) : c.toLower = c := by
  by_cases hupper : 65 ≤ c.toNat ∧ c.toNat ≤ 90
  · simp only [isWhitespace, Bool.or_eq_true, Bool.and_eq_true, decide_eq_true_eq, beq_iff_eq] at h
    omega
  · apply char_eq_of_toNat
    rw [toNat_toLower, if_neg hupper]

/-- A text is a name, or has a first character in which no name ends. -/
theorem name_or_stop (text : List Char) : (∀ c ∈ text, isNameChar c = true) ∨
    ∃ name d rest, text = name ++ d :: rest ∧ (∀ c ∈ name, isNameChar c = true) ∧
      isNameChar d = false := by
  cases hstop : text.dropWhile isNameChar with
  | nil => exact Or.inl (List.dropWhile_eq_nil_iff.mp hstop)
  | cons d rest =>
    have hhead := List.head_dropWhile_not isNameChar (hstop ▸ List.cons_ne_nil d rest)
    refine Or.inr ⟨text.takeWhile isNameChar, d, rest, ?_, fun c hc ↦ List.mem_takeWhile_imp hc, ?_⟩
    · rw [← hstop, List.takeWhile_append_dropWhile]
    · simpa [hstop] using hhead

/-! ## Fields without quotes -/

/-- A text without quotes that ends in whitespace behind a character which is no separator, and is a
delimiter if the keys have one whose values can have two tokens. -/
structure Closed (keys : List (List Char)) (field : List Char) : Prop where
  quoteless : ∀ c ∈ field, isQuote c = false
  ends : ∃ body space, field = body ++ [space] ∧ isWhitespace space = true ∧
    ∀ last ∈ body.getLast?, isWhitespace last = false ∧ isSeparator last = false ∧
      (authorizationKey ∈ keys → isUnquotedValueDelimiter last = true)

namespace Closed

variable {keys : List (List Char)} {field rest : List Char}

theorem ne_nil (h : Closed keys field) : field ≠ [] := by
  obtain ⟨body, space, rfl, -, -⟩ := h.ends
  simp

/-- The end of a field is one. -/
theorem of_suffix (h : Closed keys field) (hsuffix : rest <:+ field) (hrest : rest ≠ []) :
    Closed keys rest := by
  obtain ⟨body, space, rfl, hspace, hlast⟩ := h.ends
  refine ⟨fun c hc ↦ h.quoteless c (hsuffix.subset hc), ?_⟩
  obtain rfl | hsuffix' := List.suffix_concat_iff.mp hsuffix
  · exact absurd rfl hrest
  · obtain ⟨body', rfl, front, rfl⟩ := hsuffix'
    refine ⟨body', space, rfl, hspace, fun last hmem ↦ hlast last ?_⟩
    rw [List.getLast?_append, Option.mem_def.mp hmem]
    rfl

theorem unquoted (h : Closed keys field) (rest : List Char) : Unquoted (field ++ rest) := by
  cases field with
  | nil => exact absurd rfl h.ne_nil
  | cons c text =>
    have hquote : ¬isQuote c = true := by simp [h.quoteless c List.mem_cons_self]
    apply unquoted_cons _ hquote
    cases text with
    | nil =>
      obtain ⟨body, space, htext, hspace, -⟩ := h.ends
      have hlast := congrArg List.getLast? htext
      have hc : c ≠ '\\' := by
        rintro rfl
        simp only [List.getLast?_singleton, List.getLast?_concat, Option.some.injEq] at hlast
        rw [← hlast] at hspace
        exact absurd hspace (by decide)
      cases rest with
      | nil => simp [startsEscapedQuote_singleton]
      | cons d rest => simp [startsEscapedQuote_cons_cons, hc]
    | cons d text =>
      have hsecond := h.quoteless d (List.mem_cons_of_mem c List.mem_cons_self)
      simp [startsEscapedQuote_cons_cons, hsecond]

theorem exists_body (h : Closed keys field) (hlong : 1 < field.length) :
    ∃ body last space, field = body ++ [last] ++ [space] ∧ isWhitespace last = false ∧
      (authorizationKey ∈ keys → isUnquotedValueDelimiter last = true) := by
  obtain ⟨body, space, rfl, -, hlast⟩ := h.ends
  cases body using List.reverseRecOn with
  | nil => simp at hlong
  | append_singleton body last =>
    obtain ⟨hspace, -, hdelimits⟩ := hlast last (by simp)
    exact ⟨body, last, space, rfl, hspace, hdelimits⟩

/-- The spaces in front of a value do not reach the end of the field. -/
theorem spaceRest_append (h : Closed keys field) (hlong : 1 < field.length) :
    Closed keys (spaceRest field) ∧ ∀ rest, spaceRest (field ++ rest) = spaceRest field ++ rest := by
  obtain ⟨body, last, space, rfl, hlast, -⟩ := h.exists_body hlong
  cases hstart : spaceRest (body ++ [last]) with
  | nil =>
    have hall := List.dropWhile_eq_nil_iff.mp hstart last (by simp)
    rw [hlast] at hall
    cases hall
  | cons c text =>
    have hsplit (rest : List Char) : spaceRest (body ++ [last] ++ rest) = c :: text ++ rest := by
      rw [spaceRest] at hstart ⊢
      rw [List.dropWhile_append, hstart]
      rfl
    constructor
    · apply h.of_suffix (spaceRest_suffix _)
      rw [hsplit]
      simp
    · intro rest
      rw [List.append_assoc _ [space] rest, hsplit, hsplit, List.append_assoc]

theorem unquotedEnd_append (h : Closed keys field) :
    Closed keys (unquotedEnd field) ∧ ∀ rest, unquotedEnd (field ++ rest) = unquotedEnd field ++ rest := by
  cases hend : unquotedEnd field with
  | nil =>
    obtain ⟨body, space, rfl, hspace, -⟩ := h.ends
    have hall := List.dropWhile_eq_nil_iff.mp hend space (by simp)
    simp [isUnquotedValueDelimiter, hspace] at hall
  | cons c text =>
    refine ⟨?_, fun rest ↦ unquotedEnd_append_cons hend⟩
    exact h.of_suffix (hend ▸ unquotedEnd_suffix field) (List.cons_ne_nil c text)

theorem tokenEnd_append (h : Closed keys field) (hkey : key ∈ keys)
    (hstart : ∀ c ∈ field.head?, isWhitespace c = false) :
    Closed keys (tokenEnd key field) ∧ ∀ rest, tokenEnd key (field ++ rest) = tokenEnd key field ++ rest := by
  obtain ⟨hclosed, hend⟩ := h.unquotedEnd_append
  by_cases hauthorization : key = authorizationKey
  · have hlong : 1 < field.length := by
      obtain ⟨body, space, rfl, hspace, -⟩ := h.ends
      cases body with
      | nil =>
        rw [hstart space rfl] at hspace
        cases hspace
      | cons c body => simp
    have hlong' : 1 < (unquotedEnd field).length := by
      obtain ⟨body, last, space, rfl, -, hdelimits⟩ := h.exists_body hlong
      cases hfirst : unquotedEnd (body ++ [last]) with
      | nil =>
        have hall := List.dropWhile_eq_nil_iff.mp hfirst last (by simp)
        rw [hdelimits (hauthorization ▸ hkey)] at hall
        cases hall
      | cons c text =>
        rw [unquotedEnd_append_cons hfirst]
        simp
    obtain ⟨hclosed', hspaces⟩ := hclosed.spaceRest_append hlong'
    obtain ⟨hclosed'', hend'⟩ := hclosed'.unquotedEnd_append
    refine ⟨?_, fun rest ↦ ?_⟩
    · rw [tokenEnd]
      split_ifs
      · exact hclosed''
      · exact hclosed
    · simp only [tokenEnd, hend, hspaces, hend', List.length_append, Nat.add_lt_add_iff_right]
      split_ifs <;> rfl
  · have htoken (text : List Char) : tokenEnd key text = unquotedEnd text := by
      rw [tokenEnd, if_neg fun htwo ↦ hauthorization htwo.1]
    rw [htoken]
    exact ⟨hclosed, fun rest ↦ (htoken _).trans (hend rest)⟩

/-- Neither of the last two characters of a field is a separator. -/
theorem length_of_separator {front : List Char} {c : Char} (h : Closed keys (front ++ c :: field))
    (hc : isSeparator c = true) : 1 < field.length := by
  obtain ⟨body, space, htext, hspace, hlast⟩ := h.ends
  cases field using List.reverseRecOn with
  | nil =>
    obtain ⟨-, hspaceEq⟩ := List.append_inj' htext rfl
    obtain rfl := List.singleton_inj.mp hspaceEq
    obtain rfl | rfl := isSeparator_cases hc <;> exact absurd hspace (by decide)
  | append_singleton field d =>
    rw [← List.cons_append, ← List.append_assoc] at htext
    obtain ⟨rfl, -⟩ := List.append_inj' htext rfl
    cases field with
    | nil =>
      have hnot := (hlast c (by simp)).2.1
      rw [hc] at hnot
      cases hnot
    | cons e field => simp

/-- A name in a field is decided in the field, and so is its value. -/
theorem afterName_append (h : Closed keys field) :
    (∀ rest, afterName (field ++ rest) = .error (field ++ rest)) ∨
      ∃ value, Closed keys value ∧ (∀ c ∈ value.head?, isWhitespace c = false) ∧
        ∀ rest, afterName (field ++ rest) = .ok (value ++ rest) := by
  obtain hall | ⟨name, d, text, rfl, hname, hd⟩ := name_or_stop field
  · obtain ⟨body, space, rfl, hspace, -⟩ := h.ends
    have hchar := hall space (by simp)
    simp [isNameChar, hspace] at hchar
  have hquote := h.quoteless d (by simp)
  simp only [isNameChar, hquote, Bool.not_false, Bool.and_true, Bool.and_eq_false_iff,
    Bool.not_eq_false'] at hd
  obtain hspace | hseparator := hd
  · refine Or.inl fun rest ↦ ?_
    have hnone := nameRest_bare hname hspace (text ++ rest)
    rw [List.append_assoc, List.cons_append, afterName, hnone]
  · have hclosed : Closed keys text := by
      apply h.of_suffix ((List.suffix_cons d text).trans (List.suffix_append name _))
      exact List.ne_nil_of_length_pos (Nat.zero_lt_of_lt (h.length_of_separator hseparator))
    obtain ⟨hvalue, hspaces⟩ := hclosed.spaceRest_append (h.length_of_separator hseparator)
    refine Or.inr ⟨spaceRest text, hvalue, fun c hc ↦ head_spaceRest hc, fun rest ↦ ?_⟩
    have hbare : ([] : List Char) = [] → ∀ c ∈ (d :: (text ++ rest)).head?, isSeparator c = true := by
      intro _ c hc
      obtain rfl := Option.some.inj hc
      exact hseparator
    obtain ⟨suffix, hsuffix, hskip⟩ :=
      nameRest_closed hname List.mem_cons_self hbare (List.cons_ne_nil _ _)
    have hspace : spaceRest (quoteRest suffix) = d :: (text ++ rest) := by
      rw [hskip]
      obtain rfl | rfl := isSeparator_cases hseparator <;> rfl
    rw [List.append_assoc, ← hspaces]
    exact afterName_eq_ok hsuffix hspace hseparator

/-- A placeholder may stand in front of the end of a field. -/
theorem of_placeholder {front : List Char} (h : Closed keys field)
    (hfront : ∀ c ∈ front, isQuote c = false) : Closed keys (front ++ placeholder ++ field) := by
  obtain ⟨body, space, hfield, hspace, hlast⟩ := h.ends
  refine ⟨fun c hc ↦ ?_, front ++ placeholder ++ body, space, ?_, hspace, fun last hmem ↦ ?_⟩
  · have hmark : placeholder.all (!isQuote ·) = true := by decide
    obtain hc | hc := List.mem_append.mp hc
    · obtain hc | hc := List.mem_append.mp hc
      · exact hfront c hc
      · simpa using List.all_eq_true.mp hmark c hc
    · exact h.quoteless c hc
  · simp only [hfield, List.append_assoc]
  · cases hbody : body.getLast? with
    | none =>
      rw [List.getLast?_append, hbody, Option.none_or,
        List.getLast?_append_of_ne_nil _ placeholder_ne_nil] at hmem
      obtain rfl : last = ']' := (Option.some.inj hmem).symm
      exact ⟨by decide, by decide, fun _ ↦ by decide⟩
    | some d =>
      rw [List.getLast?_append, hbody, Option.some_or] at hmem
      exact hlast last (hbody ▸ hmem)

/-- A key at the start of a field ends in the field, in front of its last character. -/
theorem key_inside (hkey : PlainKey key) (h : Closed keys field) :
    ∃ body space, field = body ++ [space] ∧
      ∀ rest, key <+: toAsciiLowercase (field ++ rest) → key <+: toAsciiLowercase body := by
  obtain ⟨body, space, hfield, hspace, -⟩ := h.ends
  refine ⟨body, space, hfield, fun rest hinitial ↦ ?_⟩
  rw [hfield, List.append_assoc, toAsciiLowercase, List.map_append, List.cons_append,
    List.map_cons, toLower_of_isWhitespace hspace] at hinitial
  exact prefix_of_prefix_append_cons hinitial (hkey.not_mem (isPlain_of_isWhitespace hspace))

/-- Behind a key at its start a field goes on. -/
theorem drop_key (hkey : PlainKey key) (h : Closed keys field)
    (hmatched : key <+: toAsciiLowercase field) :
    Closed keys (field.drop key.length) ∧
      ∀ rest, (field ++ rest).drop key.length = field.drop key.length ++ rest := by
  obtain ⟨body, space, hfield, hinside⟩ := h.key_inside hkey
  have hbody : key.length ≤ body.length := by
    have hle := (hinside [] (by rwa [List.append_nil])).length_le
    rwa [toAsciiLowercase, List.length_map] at hle
  constructor
  · apply h.of_suffix (List.drop_suffix _ _)
    rw [hfield, List.drop_append_of_le_length hbody]
    simp
  · intro rest
    apply List.drop_append_of_le_length
    rw [hfield, List.length_append]
    omega

/-- A pass finds the first value of a field in the field, whatever follows. The induction is on the
length of the field. -/
theorem nextValue_append (hkey : PlainKey key) (h : Closed keys field) :
    (∀ rest, nextValue key (field ++ rest) = nextValue key rest) ∨
      ∃ value, Closed keys value ∧ (∀ c ∈ value.head?, isWhitespace c = false) ∧
        ∀ rest, nextValue key (field ++ rest) = some (value ++ rest) := by
  induction hlength : field.length using Nat.strong_induction_on generalizing field with
  | _ length ih =>
    subst hlength
    by_cases hmatched : key <+: toAsciiLowercase field
    · obtain ⟨hclosed, hdrop⟩ := h.drop_key hkey hmatched
      have hmatched' (rest : List Char) : key.isPrefixOf (toAsciiLowercase (field ++ rest)) = true := by
        rw [List.isPrefixOf_iff_prefix, toAsciiLowercase, List.map_append]
        exact hmatched.trans (List.prefix_append _ _)
      obtain hname | ⟨value, hvalue, hstart, hname⟩ := hclosed.afterName_append
      · have hshort : (field.drop key.length).length < field.length := by
          have hpos := List.length_pos_of_ne_nil hkey.nonempty
          have hpos' := List.length_pos_of_ne_nil h.ne_nil
          rw [List.length_drop]
          omega
        have hresume (rest : List Char) : nextValue key (field ++ rest) =
            nextValue key (field.drop key.length ++ rest) := by
          apply nextValue_of_error hkey.nonempty (hmatched' rest)
          rw [hdrop]
          exact hname rest
        simp only [hresume]
        exact ih _ hshort hclosed rfl
      · refine Or.inr ⟨value, hvalue, hstart, fun rest ↦ ?_⟩
        apply nextValue_of_ok hkey.nonempty (hmatched' rest)
        rw [hdrop]
        exact hname rest
    · obtain ⟨c, text, rfl⟩ := List.exists_cons_of_ne_nil h.ne_nil
      have hskip (rest : List Char) : nextValue key (c :: text ++ rest) = nextValue key (text ++ rest) := by
        apply nextValue_cons_of_no_match
        rw [List.isPrefixOf_iff_prefix]
        intro hinitial
        obtain ⟨body, space, hfield, hinside⟩ := h.key_inside hkey
        apply hmatched
        rw [hfield, toAsciiLowercase, List.map_append]
        exact (hinside rest hinitial).trans (List.prefix_append _ _)
      simp only [hskip]
      cases text with
      | nil => exact Or.inl fun rest ↦ rfl
      | cons d text =>
        have hsuffix : d :: text <:+ c :: d :: text := List.suffix_cons c (d :: text)
        exact ih _ (Nat.lt_succ_self _) (h.of_suffix hsuffix (List.cons_ne_nil d text)) rfl

/-- A pass goes over a field by itself. -/
theorem redactAll_field (hkey : PlainKey key) (hmem : key ∈ keys) (h : Closed keys field) :
    Closed keys (redactAll key field) ∧
      ∀ rest, redactAll key (field ++ rest) = redactAll key field ++ redactAll key rest := by
  induction hlength : field.length using Nat.strong_induction_on generalizing field with
  | _ length ih =>
    subst hlength
    obtain hnone | ⟨value, hvalue, hstart, hnext⟩ := h.nextValue_append hkey
    · have hfield : redactAll key field = field := by
        have hnil := hnone []
        rw [List.append_nil] at hnil
        exact redactAll_of_none (hnil.trans (nextValue.eq_1 key))
      rw [hfield]
      exact ⟨h, fun rest ↦ redactAll_append field (hnone rest)⟩
    · have hself := hnext []
      rw [List.append_nil, List.append_nil] at hself
      obtain ⟨⟨front, rfl⟩, hlt⟩ := nextValue_suffix hself
      obtain ⟨hclosed, hend⟩ := hvalue.tokenEnd_append hmem hstart
      have hpass (rest : List Char) : redactAll key (front ++ value ++ rest) =
          front ++ placeholder ++ redactAll key (tokenEnd key value ++ rest) := by
        obtain ⟨hquote, hvalueEnd⟩ := hvalue.unquoted rest
        have htext : front ++ value ++ rest = front ++ quoteRest (value ++ rest) := by
          rw [hquote, List.append_assoc]
        rw [redactAll_of_value (hnext rest) htext, hvalueEnd, hend]
      have hshort := lt_of_le_of_lt (tokenEnd_suffix key value).length_le hlt
      obtain ⟨hclosed', hrest⟩ := ih _ hshort hclosed rfl
      have hfield := hpass []
      rw [List.append_nil, List.append_nil] at hfield
      rw [hfield]
      refine ⟨hclosed'.of_placeholder fun c hc ↦ h.quoteless c (List.mem_append_left value hc), ?_⟩
      intro rest
      rw [hpass, hrest]
      simp only [List.append_assoc]

end Closed

/-! ## Quoted fields -/

theorem toLower_of_not_plain {c : Char} (h : isPlain c = false) : c.toLower = c := by
  by_cases hupper : 65 ≤ c.toNat ∧ c.toNat ≤ 90
  · rw [isPlain_of_isKeyChar ((isKeyChar_iff c).mpr (Or.inr (Or.inl hupper)))] at h
    cases h
  · apply char_eq_of_toNat
    rw [toNat_toLower, if_neg hupper]

/-- A text of characters at which a scan stops is passed over. -/
theorem nextValue_of_not_plain (hkey : PlainKey key) {head : List Char}
    (h : ∀ c ∈ head, isPlain c = false) (rest : List Char) :
    nextValue key (head ++ rest) = nextValue key rest := by
  induction head with
  | nil => rfl
  | cons c head ih =>
    have hc := h c List.mem_cons_self
    have habsent : ¬key <:+: toAsciiLowercase [] := fun hnil ↦ hkey.nonempty (List.infix_nil.mp hnil)
    have hskip := nextValue_of_stop (toLower_of_not_plain hc) (hkey.not_mem hc) habsent (head ++ rest)
    rw [List.cons_append, ← ih fun d hd ↦ h d (List.mem_cons_of_mem c hd)]
    exact hskip

theorem isSeparator_of_delimiter {c : Char} (h : isUnquotedValueDelimiter c = true) :
    isSeparator c = false := by
  cases hseparator : isSeparator c with
  | false => rfl
  | true => obtain rfl | rfl := isSeparator_cases hseparator <;> exact absurd h (by decide)

theorem closings_not_plain {opening : List Char} (h : opening ∈ closings) :
    ∀ c ∈ opening, isPlain c = false := by
  have hall : (closings.all fun opening ↦ opening.all (!isPlain ·)) = true := by decide
  simpa only [Bool.not_eq_true'] using List.all_eq_true.mp (List.all_eq_true.mp hall _ h)

section Quoted

variable {opening body rest : List Char} {delimiter : Char}

/-- A quote that a delimiter follows ends a name which marks nothing. -/
theorem afterName_quote {name : List Char} (hname : ∀ c ∈ name, isNameChar c = true)
    (hopening : opening ∈ closings) (hne : opening ≠ [])
    (hdelimiter : isUnquotedValueDelimiter delimiter = true) (hspace : isWhitespace delimiter = false)
    (rest : List Char) :
    afterName (name ++ (opening ++ delimiter :: rest)) = .error (delimiter :: rest) := by
  obtain ⟨suffix, hsuffix, hskip⟩ :=
    nameRest_closed hname hopening (fun hnil ↦ absurd hnil hne) (List.cons_ne_nil delimiter rest)
  have hstay : spaceRest (quoteRest suffix) = delimiter :: rest := by
    rw [hskip]
    exact List.dropWhile_cons_of_neg (by simp [hspace])
  exact afterName_eq_error hsuffix hstay (by simp [isSeparator_of_delimiter hdelimiter])

/-- No marker has its name in a quoted value that a delimiter follows. The induction is on the length of
the value: behind an occurrence of the key the scan goes on in the rest of it. -/
theorem nextValue_inner (hkey : PlainKey key) (hopening : opening ∈ closings) (hne : opening ≠ [])
    (hbody : Inner body) (hdelimiter : isUnquotedValueDelimiter delimiter = true)
    (hspace : isWhitespace delimiter = false) (rest : List Char) :
    nextValue key (body ++ (opening ++ delimiter :: rest)) = nextValue key rest := by
  have hplain : isPlain delimiter = false := by simp [isPlain, hdelimiter]
  have hdelimited (rest : List Char) : nextValue key (delimiter :: rest) = nextValue key rest := by
    have hone : ∀ c ∈ [delimiter], isPlain c = false := by simpa using hplain
    exact nextValue_of_not_plain hkey hone rest
  induction hlength : body.length using Nat.strong_induction_on generalizing body with
  | _ length ih =>
    subst hlength
    by_cases hinside : key <:+: toAsciiLowercase body
    · obtain ⟨used, left, rfl, hused, hnext⟩ := nextValue_of_present hkey.nonempty hinside
      obtain hname | ⟨name, d, more, hleft, hname, hd⟩ := name_or_stop left
      · -- the closing quote ends the name
        have herror := afterName_quote hname hopening hne hdelimiter hspace rest
        exact ((hnext _).2 _ herror).trans (hdelimited rest)
      · obtain ⟨hseparator, hquote, -⟩ := hbody d (by rw [hleft]; simp)
        have hblank : isWhitespace d = true := by simpa [isNameChar, hseparator, hquote] using hd
        have hnone := nameRest_bare hname hblank (more ++ (opening ++ delimiter :: rest))
        rw [← List.cons_append, ← List.append_assoc, ← hleft] at hnone
        have herror : afterName (left ++ (opening ++ delimiter :: rest)) =
            .error (left ++ (opening ++ delimiter :: rest)) := by
          rw [afterName, hnone]
        have hshort : left.length < (used ++ left).length := by
          have hpos : used ≠ [] := by
            rintro rfl
            exact hkey.nonempty (List.suffix_nil.mp hused)
          have hlength := List.length_pos_of_ne_nil hpos
          rw [List.length_append]
          omega
        have hinner : Inner left := fun c hc ↦ hbody c (List.mem_append_right used hc)
        exact ((hnext _).2 _ herror).trans (ih _ hshort hinner rfl)
    · obtain ⟨c, others, rfl⟩ := List.exists_cons_of_ne_nil hne
      have hmarks := closings_not_plain hopening
      have hc := hmarks c List.mem_cons_self
      have hskip := nextValue_of_stop (toLower_of_not_plain hc) (hkey.not_mem hc) hinside
        (others ++ delimiter :: rest)
      have hothers := nextValue_of_not_plain hkey (fun d hd ↦ hmarks d (List.mem_cons_of_mem c hd))
        (delimiter :: rest)
      exact hskip.trans (hothers.trans (hdelimited rest))

/-- A quoted value ends at its closing quote. -/
theorem valueEnd_inner (hopening : opening ∈ closings) (hne : opening ≠ []) (hbody : Inner body)
    (key rest : List Char) : valueEnd key (opening ++ (body ++ (opening ++ rest))) = opening ++ rest := by
  obtain ⟨ends, hends, hvalue, hclosed⟩ := exists_closes hopening hne
  rw [hvalue, hends.inner _ hbody, hclosed]

end Quoted

/-- A part of a text behind which every scan begins anew. -/
inductive Separate (keys : List (List Char)) : List Char → Prop
  | closed {field : List Char} (hclosed : Closed keys field) : Separate keys field
  | quoted (heading : Heading) {spaces spaces' opening body : List Char} {delimiter : Char}
    (hbefore : ∀ key ∈ keys, ¬key <:+: toAsciiLowercase heading.before)
    (hspaces : Blank spaces) (hspaces' : Blank spaces') (hbare : heading.closing = [] → spaces = [])
    (hopening : opening ∈ closings) (hne : opening ≠ []) (hbody : Inner body)
    (hdelimiter : isUnquotedValueDelimiter delimiter = true) (hspace : isWhitespace delimiter = false) :
    Separate keys (heading.text spaces spaces' (opening ++ (body ++ (opening ++ [delimiter]))))

namespace Separate

variable {keys : List (List Char)} {field : List Char}

/-- A pass over a quoted field replaces its value, or leaves it. -/
theorem redactAll_quoted (hkey : PlainKey key) (heading : Heading) {spaces spaces' opening body : List Char}
    {delimiter : Char} (hbefore : ¬key <:+: toAsciiLowercase heading.before)
    (hspaces : Blank spaces) (hspaces' : Blank spaces') (hbare : heading.closing = [] → spaces = [])
    (hopening : opening ∈ closings) (hne : opening ≠ []) (hbody : Inner body)
    (hdelimiter : isUnquotedValueDelimiter delimiter = true) (hspace : isWhitespace delimiter = false) :
    ∃ body', Inner body' ∧ ∀ rest,
      redactAll key (heading.text spaces spaces' (opening ++ (body ++ (opening ++ delimiter :: rest)))) =
        heading.text spaces spaces' (opening ++ (body' ++ (opening ++ delimiter :: redactAll key rest))) := by
  have hmarks := closings_not_plain hopening
  have hplain : isPlain delimiter = false := by simp [isPlain, hdelimiter]
  have hquote (text : List Char) : openingQuote (opening ++ text) = opening :=
    openingQuote_append hopening hne text
  have hstarts (text : List Char) : Heading.Starts (opening ++ text) := by
    intro c hc
    have hfirst : c ∈ (openingQuote (opening ++ text)).head? := by
      rw [hquote]
      rwa [List.head?_append_of_ne_nil _ hne] at hc
    exact head_openingQuote hfirst
  have hpass (rest : List Char) := heading.redactAll_text hkey.wordKey hbefore hspaces hspaces'
    (hstarts (body ++ (opening ++ delimiter :: rest))) hbare
  by_cases hlabel : key <:+: toAsciiLowercase heading.label
  · refine ⟨placeholder, inner_placeholder, fun rest ↦ ?_⟩
    have hend : ∀ c ∈ opening ++ [delimiter], isPlain c = false := by
      intro c hc
      obtain hc | hc := List.mem_append.mp hc
      · exact hmarks c hc
      · obtain rfl := List.mem_singleton.mp hc
        exact hplain
    have hrest := redactAll_append (opening ++ [delimiter]) (nextValue_of_not_plain hkey hend rest)
    rw [List.append_assoc, List.append_assoc] at hrest
    rw [hpass, Heading.pass, if_pos hlabel, hquote, valueEnd_inner hopening hne hbody]
    exact congrArg (fun text ↦ heading.text spaces spaces' (opening ++ (placeholder ++ text))) hrest
  · refine ⟨body, hbody, fun rest ↦ ?_⟩
    have hskip : nextValue key (opening ++ (body ++ (opening ++ [delimiter])) ++ rest) =
        nextValue key rest := by
      calc
        nextValue key (opening ++ (body ++ (opening ++ [delimiter])) ++ rest) =
            nextValue key (opening ++ (body ++ (opening ++ delimiter :: rest))) := by
          simp only [List.append_assoc, List.cons_append, List.nil_append]
        _ = nextValue key (body ++ (opening ++ delimiter :: rest)) := nextValue_of_not_plain hkey hmarks _
        _ = nextValue key rest := nextValue_inner hkey hopening hne hbody hdelimiter hspace rest
    have hrest := redactAll_append _ hskip
    simp only [List.append_assoc, List.cons_append, List.nil_append] at hrest
    rw [hpass, Heading.pass, if_neg hlabel, hrest]

/-- A pass goes over each part by itself. -/
theorem redactAll_part (hkey : PlainKey key) (hmem : key ∈ keys) (h : Separate keys field) :
    Separate keys (redactAll key field) ∧
      ∀ rest, redactAll key (field ++ rest) = redactAll key field ++ redactAll key rest := by
  cases h with
  | closed hclosed =>
    obtain ⟨hredacted, hrest⟩ := hclosed.redactAll_field hkey hmem
    exact ⟨closed hredacted, hrest⟩
  | @quoted heading spaces spaces' opening body delimiter hbefore hspaces hspaces' hbare hopening hne
      hbody hdelimiter hspace =>
    obtain ⟨body', hbody', hpass⟩ := redactAll_quoted hkey heading (hbefore key hmem) hspaces hspaces'
      hbare hopening hne hbody hdelimiter hspace
    have hself := hpass []
    rw [redactAll_of_none (nextValue.eq_1 key)] at hself
    rw [hself]
    refine ⟨quoted heading hbefore hspaces hspaces' hbare hopening hne hbody' hdelimiter hspace, ?_⟩
    intro rest
    have hsplit (body rest : List Char) :
        heading.text spaces spaces' (opening ++ (body ++ (opening ++ [delimiter]))) ++ rest =
          heading.text spaces spaces' (opening ++ (body ++ (opening ++ delimiter :: rest))) := by
      simp only [Heading.text, List.append_assoc, List.cons_append, List.nil_append]
    rw [hsplit, hpass, hsplit]

end Separate

/-! ## Texts of fields -/

section Fields

variable {keys passes : List (List Char)} {fields : List (List Char)}

theorem separate_redactKeys (hkeys : ∀ key ∈ keys, PlainKey key) (hpasses : passes ⊆ keys)
    {field : List Char} (h : Separate keys field) :
    Separate keys (redactKeys passes field) ∧ ∀ rest,
      redactKeys passes (field ++ rest) = redactKeys passes field ++ redactKeys passes rest := by
  induction passes generalizing field with
  | nil => exact ⟨h, fun rest ↦ rfl⟩
  | cons key passes ih =>
    have hmem := hpasses List.mem_cons_self
    obtain ⟨hpart, hrest⟩ := h.redactAll_part (hkeys key hmem) hmem
    obtain ⟨hparts, hrests⟩ := ih (fun other hother ↦ hpasses (List.mem_cons_of_mem key hother)) hpart
    simp only [redactKeys, List.foldl_cons] at hparts hrests ⊢
    exact ⟨hparts, fun rest ↦ by rw [hrest, hrests]⟩

/-- The passes over a text of fields are passes over each field. -/
theorem redactKeys_flatten (hkeys : ∀ key ∈ keys, PlainKey key) (hpasses : passes ⊆ keys)
    (hfields : ∀ field ∈ fields, Separate keys field) (last : List Char) :
    redactKeys passes (fields.flatten ++ last) =
      (fields.map (redactKeys passes)).flatten ++ redactKeys passes last := by
  induction fields with
  | nil => rfl
  | cons field fields ih =>
    obtain ⟨-, hrest⟩ := separate_redactKeys hkeys hpasses (hfields field List.mem_cons_self)
    rw [List.flatten_cons, List.append_assoc, hrest,
      ih fun other hother ↦ hfields other (List.mem_cons_of_mem field hother), List.map_cons,
      List.flatten_cons, List.append_assoc]

end Fields

end FerrisBridge
