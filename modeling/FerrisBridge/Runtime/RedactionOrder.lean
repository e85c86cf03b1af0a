import FerrisBridge.Runtime.Confidentiality
import FerrisBridge.Runtime.Fields
import FerrisBridge.Runtime.Spacing

/-!
# More keys can reveal more

The keys make their passes one behind the other, and each pass reads what the ones before it have
left. A pass by itself reveals nothing. But an earlier one may cut off the value that a later one
would have hidden: the placeholder ends at a bracket, where an unquoted value ends, too.
-/

open Foundations

namespace FerrisBridge

/-! ## A pass reveals nothing -/

variable {key text shown : List Char}

theorem placeholder_separatorless : ∀ c ∈ placeholder, isSeparator c = false := by
  have hall : placeholder.all (!isSeparator ·) = true := by decide
  simpa using hall

theorem infix_of_masked {output : List Char} (hshown : ∀ c ∈ placeholder, c ∉ shown)
    (h : Masked marks text output) (hinside : shown <:+: output) : shown <:+: text :=
  h.infix_of_output mark_ne_nil (disjoint_marks hshown) hinside

theorem redactKeys_append (first second : List (List Char)) (text : List Char) :
    redactKeys (first ++ second) text = redactKeys second (redactKeys first text) :=
  List.foldl_append

/-- The passes of keys without a marker leave the text. -/
theorem redactKeys_of_none {keys : List (List Char)} (h : ∀ key ∈ keys, nextValue key text = none) :
    redactKeys keys text = text := by
  induction keys with
  | nil => rfl
  | cons key keys ih =>
    rw [redactKeys, List.foldl_cons, redactAll_of_none (h key List.mem_cons_self)]
    exact ih fun other hother ↦ h other (List.mem_cons_of_mem key hother)

theorem findNextMarker_eq_none (hkey : key ≠ [])
    (h : findNextMarker text key 0 = some none) : nextValue key text = none := by
  obtain ⟨next, hnext, hrel⟩ := findNextMarker_eq hkey (StartsAt.start text)
  rw [h] at hnext
  obtain rfl := Option.some.inj hnext
  cases hvalue : nextValue key text with
  | none => rfl
  | some value =>
    rw [hvalue] at hrel
    cases hrel

namespace Redactor

variable (self : Redactor)

/-- No key has a marker in the text. -/
def Unmarked (keys : List (List Char)) (text : List Char) : Prop :=
  ∀ key ∈ keys, findNextMarker text key 0 = some none

/-- The text is in the output. -/
def Shows (text shown : List Char) : Prop :=
  ∃ output, self.redactValue text = some output ∧ shown <:+: output

theorem shows_iff (text shown : List Char) :
    self.Shows text shown ↔ shown <:+: redactKeys self.secretKeys text := by
  rw [Shows, redactValue_eq]
  constructor
  · rintro ⟨output, houtput, hshown⟩
    obtain rfl := Option.some.inj houtput
    exact hshown
  · exact fun hshown ↦ ⟨_, rfl, hshown⟩

/-- What `alone` hides of the text stays hidden. -/
def KeepsHidden (alone : Redactor) (text : List Char) : Prop :=
  ∀ shown, (∀ c ∈ placeholder, c ∉ shown) → ¬alone.Shows text shown → ¬self.Shows text shown

/-- The keys whose passes come before the pass of the key of `alone`. -/
def passesBefore (alone : Redactor) : List (List Char) :=
  alone.secretKeys.flatMap fun key ↦ self.secretKeys.takeWhile (· ≠ key)

theorem secretKeys_new (keys : List String) : (new keys).secretKeys =
    (keys.map fun value ↦ toAsciiLowercase (trim value.toList)).filter (· ≠ []) := rfl

/-- A key alone makes its pass, or none if it is blank. -/
theorem secretKeys_singleton {keys : List String} {key : String} (hkey : key ∈ keys) :
    (new [key]).secretKeys = [] ∨
      ∃ secret, (new [key]).secretKeys = [secret] ∧ secret ∈ (new keys).secretKeys := by
  by_cases hblank : toAsciiLowercase (trim key.toList) = []
  · refine Or.inl ?_
    simp [secretKeys_new, hblank]
  · refine Or.inr ⟨toAsciiLowercase (trim key.toList), ?_, ?_⟩
    · simp [secretKeys_new, hblank]
    · rw [secretKeys_new]
      apply List.mem_filter.mpr
      exact ⟨List.mem_map_of_mem hkey, by simpa using hblank⟩

/-- Where the passes before the one of the key leave a part of the text, or this pass does, what this
pass hides of it stays hidden. -/
theorem masked_of_unmarked {first : List (List Char)} {secret field : List Char}
    (hsecret : secret ≠ []) (hfirst : ∀ key ∈ first, key ≠ [])
    (h : Unmarked [secret] field ∨ Unmarked first field) :
    Masked marks (redactKeys [secret] field) (redactKeys (first ++ [secret]) field) := by
  obtain hunmarked | hunmarked := h
  · have hnone : ∀ key ∈ [secret], nextValue key field = none := by
      intro key hkey
      obtain rfl := List.mem_singleton.mp hkey
      exact findNextMarker_eq_none hsecret (hunmarked key hkey)
    rw [redactKeys_of_none hnone]
    exact masked_redactKeys (Masked.refl field) _
  · have hnone : ∀ key ∈ first, nextValue key field = none := fun key hkey ↦
      findNextMarker_eq_none (hfirst key hkey) (hunmarked key hkey)
    rw [redactKeys_append, redactKeys_of_none hnone]
    exact Masked.refl _

/-- What a pass hides stays hidden if in each field it finds nothing or no pass before it does. -/
theorem keepsHidden_of_fields {alone : Redactor}
    (halone : alone.secretKeys = [] ∨
      ∃ secret, alone.secretKeys = [secret] ∧ secret ∈ self.secretKeys)
    {fields : List (List Char)} {last : List Char}
    (hplain : fields = [] ∨ ∀ secret ∈ self.secretKeys, ∀ c ∈ secret, isPlain c = true)
    (hfields : ∀ field ∈ fields, Separate (self.passesBefore alone ++ alone.secretKeys) field)
    (hparts : ∀ field ∈ fields ++ [last], Unmarked alone.secretKeys field ∨
      Unmarked (self.passesBefore alone) field) :
    self.KeepsHidden alone (fields.flatten ++ last) := by
  intro shown hshown halone'
  rw [shows_iff] at halone' ⊢
  refine fun hinside ↦ halone' ?_
  obtain hblank | ⟨secret, hsecret, hmem⟩ := halone
  · rw [hblank]
    exact infix_of_masked hshown (masked_redactKeys (Masked.refl _) _) hinside
  obtain ⟨first, later, hkeys, hfirst⟩ := List.eq_append_cons_of_mem hmem
  have htake : self.secretKeys.takeWhile (· ≠ secret) = first := by
    rw [hkeys, List.takeWhile_append_of_pos, List.takeWhile_cons_of_neg, List.append_nil]
    · simp
    · exact fun other hother ↦ decide_eq_true fun heq ↦ hfirst (heq ▸ hother)
  rw [passesBefore, hsecret, List.flatMap_singleton, htake] at hfields hparts
  have hsubset : first ++ [secret] ⊆ self.secretKeys := by
    rw [hkeys]
    simp
  have hsplit (passes : List (List Char)) (hpasses : passes ⊆ first ++ [secret]) :
      redactKeys passes (fields.flatten ++ last) =
        (fields.map (redactKeys passes)).flatten ++ redactKeys passes last := by
    obtain rfl | hplain := hplain
    · rfl
    · apply redactKeys_flatten (fun key hkey ↦ ?_) hpasses hfields
      exact ⟨self.nonempty key (hsubset hkey), hplain key (hsubset hkey)⟩
  have hmasked (field : List Char) (hfield : field ∈ fields ++ [last]) :
      Masked marks (redactKeys [secret] field) (redactKeys (first ++ [secret]) field) := by
    apply masked_of_unmarked (self.nonempty secret hmem) _ (hparts field hfield)
    exact fun key hkey ↦ self.nonempty key (hsubset (List.mem_append_left _ hkey))
  have hall : Masked marks (redactKeys [secret] (fields.flatten ++ last))
      (redactKeys (first ++ [secret]) (fields.flatten ++ last)) := by
    rw [hsplit [secret] (List.subset_append_right _ _), hsplit _ (List.Subset.refl _)]
    apply Masked.append
    · exact Masked.flatten_map fun field hfield ↦ hmasked field (List.mem_append_left _ hfield)
    · exact hmasked last (List.mem_append_right _ List.mem_cons_self)
  have hlater : self.secretKeys = (first ++ [secret]) ++ later := by
    rw [hkeys, List.append_assoc, List.singleton_append]
  rw [hlater, redactKeys_append] at hinside
  rw [hsecret]
  exact infix_of_masked hshown (masked_redactKeys hall later) hinside

end Redactor

/-! ## An earlier pass in front of a value -/

/-- The value of a key in a plain name stands behind the separator of the name. -/
theorem nextValue_name (hkey : Joined key) {name : List Char} (hname : ∀ c ∈ name, isPlain c = true)
    {separator : Char} (hseparator : isSeparator separator = true) (rest : List Char) :
    nextValue key (name ++ separator :: rest) =
      if key <:+: toAsciiLowercase name then some (spaceRest rest) else nextValue key rest := by
  by_cases hinside : key <:+: toAsciiLowercase name
  · obtain ⟨used, left, rfl, -, hnext⟩ := nextValue_of_present hkey.nonempty hinside
    have hleft : nameRest (left ++ separator :: rest) = some (separator :: rest) :=
      nameRest_plain (fun c hc ↦ hname c (List.mem_append_right used hc)) hseparator rest
    have hspace : spaceRest (quoteRest (separator :: rest)) = separator :: rest := by
      rw [quoteRest_separator hseparator]
      obtain rfl | rfl := isSeparator_cases hseparator <;> rfl
    rw [if_pos hinside]
    exact (hnext (separator :: rest)).1 _ (afterName_eq_ok hleft hspace hseparator)
  · rw [if_neg hinside, nextValue_of_absent hkey hinside hseparator]

/-- A value that starts with a key has no opening quote and no whitespace in front of it. -/
theorem PlainKey.value (h : PlainKey key) (rest : List Char) :
    spaceRest (key ++ rest) = key ++ rest ∧ Unquoted (key ++ rest) := by
  obtain ⟨first, others, rfl⟩ := List.exists_cons_of_ne_nil h.nonempty
  have hfirst := h.plain first List.mem_cons_self
  exact ⟨spaceRest_append hfirst [], unquoted_of_isPlain hfirst⟩

theorem tokenEnd_of_nil (h : unquotedEnd text = []) : tokenEnd key text = [] := by
  simp only [tokenEnd, h, List.length_nil, Nat.not_lt_zero, and_false, if_false]

/-- The name of a key with a placeholder as its value. -/
def opened (name rest : List Char) : List Char := name ++ '=' :: (placeholder ++ rest)

theorem separatorless_cons {c : Char} {rest : List Char} (hc : isSeparator c = false)
    (hrest : ∀ d ∈ rest, isSeparator d = false) : ∀ d ∈ c :: rest, isSeparator d = false := by
  intro d hd
  obtain rfl | hd := List.mem_cons.mp hd
  · exact hc
  · exact hrest d hd

/-- A pass replaces the placeholder up to its bracket, and shows the rest. -/
theorem redactAll_opened (hkey : PlainKey key) {name rest : List Char}
    (hname : ∀ c ∈ name, isPlain c = true) (hrest : ∀ c ∈ rest, isSeparator c = false) :
    ∃ shown, redactAll key (opened name rest) = opened name shown ∧ rest <:+ shown ∧
      ∀ c ∈ shown, isSeparator c = false := by
  have hnext : nextValue key (opened name rest) = _ :=
    nextValue_name hkey.joined hname (by decide : isSeparator '=' = true) (placeholder ++ rest)
  by_cases hinside : key <:+: toAsciiLowercase name
  · rw [if_pos hinside] at hnext
    have hend : valueEnd key (placeholder ++ rest) = ']' :: rest := by
      have hunquoted : unquotedEnd (placeholder ++ rest) = ']' :: rest := rfl
      exact tokenEnd_of_mark hunquoted (by decide)
    have hshown := separatorless_cons (by decide : isSeparator ']' = false) hrest
    refine ⟨']' :: rest, ?_, List.suffix_cons _ _, hshown⟩
    have htext : opened name rest =
        (name ++ ['=']) ++ quoteRest (spaceRest (placeholder ++ rest)) := by
      rw [List.append_assoc]
      rfl
    rw [redactAll_of_value hnext htext]
    have hspace : spaceRest (placeholder ++ rest) = placeholder ++ rest := rfl
    rw [hspace, hend, redactAll_of_separatorless key hshown]
    simp only [opened, List.append_assoc, List.cons_append, List.nil_append]
  · rw [if_neg hinside] at hnext
    refine ⟨rest, redactAll_of_none (hnext.trans (nextValue_of_separatorless key ?_)),
      List.suffix_refl _, hrest⟩
    intro c hc
    obtain hmark | hc := List.mem_append.mp hc
    · exact placeholder_separatorless c hmark
    · exact hrest c hc

theorem redactKeys_opened {keys : List (List Char)} (hkeys : ∀ key ∈ keys, PlainKey key)
    {name rest : List Char} (hname : ∀ c ∈ name, isPlain c = true)
    (hrest : ∀ c ∈ rest, isSeparator c = false) : rest <:+: redactKeys keys (opened name rest) := by
  induction keys generalizing rest with
  | nil =>
    have hsuffix : rest <:+ opened name rest :=
      (List.suffix_append placeholder rest).trans
        ((List.suffix_cons _ _).trans (List.suffix_append name _))
    exact hsuffix.isInfix
  | cons key keys ih =>
    obtain ⟨shown, hpass, hsuffix, hshown⟩ :=
      redactAll_opened (hkeys key List.mem_cons_self) hname hrest
    rw [redactKeys, List.foldl_cons, hpass]
    exact hsuffix.isInfix.trans
      (ih (fun other hother ↦ hkeys other (List.mem_cons_of_mem key hother)) hshown)

/-! ## A text that an earlier key opens -/

/-- A value of letters. -/
def letters (n : ℕ) : List Char := List.replicate n 'x'

theorem letters_forall {p : Char → Prop} (hp : p 'x') (n : ℕ) : ∀ c ∈ letters n, p c := by
  intro c hc
  rwa [List.eq_of_mem_replicate hc]

/-- The key starts a quoted value, which an unquoted value in front of it cuts short. -/
def cutText (earlier key : List Char) (n : ℕ) : List Char :=
  earlier ++ '=' :: (key ++ '=' :: '"' :: 'x' :: ' ' :: 'y' :: ' ' :: letters n)

/-- The value of the key holds another marker, whose placeholder ends it. -/
def nestedText (earlier key : List Char) (n : ℕ) : List Char :=
  key ++ '=' :: (earlier ++ '=' :: '\'' :: 'x' :: '\'' :: letters n)

variable {earlier : List Char}

/-- The key alone hides the letters. -/
theorem redactAll_cutText (hkey : PlainKey key) (hlower : toAsciiLowercase key = key)
    (hearlier : PlainKey earlier) (habsent : ¬key <:+: toAsciiLowercase earlier) (n : ℕ) :
    redactAll key (cutText earlier key n) = earlier ++ '=' :: (key ++ ['=', '"']) ++ placeholder := by
  let inner := 'x' :: ' ' :: 'y' :: ' ' :: letters n
  have hnext : nextValue key (cutText earlier key n) = some ('"' :: inner) := by
    have hseparator : isSeparator '=' = true := by decide
    have hinside : key <:+: toAsciiLowercase key := by rw [hlower]
    rw [cutText, nextValue_name hkey.joined hearlier.plain hseparator, if_neg habsent,
      nextValue_name hkey.joined hkey.plain hseparator, if_pos hinside]
    rfl
  have hescaped : ¬startsEscapedQuote ('"' :: inner) = true := by
    rw [startsEscapedQuote_cons_cons]
    decide
  obtain ⟨hquote, hend⟩ := quoted_cons hescaped (by decide)
  have hquoteless : ∀ c ∈ inner, c ≠ '"' ∧ c ≠ '\\' := by
    have hletters := letters_forall (p := fun c ↦ c ≠ '"' ∧ c ≠ '\\') (by decide) n
    simpa [inner] using hletters
  have hclosed : valueEnd key ('"' :: inner) = [] := by
    rw [hend, ← List.append_nil inner, quotedEnd_quoteless hquoteless, quotedEnd]
  have htext : cutText earlier key n =
      (earlier ++ '=' :: (key ++ ['=', '"'])) ++ quoteRest ('"' :: inner) := by
    rw [hquote]
    simp only [cutText, inner, List.append_assoc, List.cons_append, List.nil_append]
  rw [redactAll_of_value hnext htext, hclosed, redactAll_of_none (nextValue.eq_1 key), List.append_nil]

theorem separatorless_letters (n : ℕ) : ∀ c ∈ letters n, isSeparator c = false :=
  letters_forall (by decide) n

/-- The pass of the other key leaves the letters, and a placeholder in front of them. -/
theorem redactAll_cutText_earlier (hkey : PlainKey key) (hearlier : PlainKey earlier)
    (hlower : toAsciiLowercase earlier = earlier) (n : ℕ) :
    ∃ rest, redactAll earlier (cutText earlier key n) = opened earlier rest ∧
      letters n <:+ rest ∧ ∀ c ∈ rest, isSeparator c = false := by
  let rest := ' ' :: 'y' :: ' ' :: letters n
  let value := key ++ '=' :: '"' :: 'x' :: rest
  obtain ⟨hspace, hquote, hend⟩ := hkey.value ('=' :: '"' :: 'x' :: rest)
  have hnext : nextValue earlier (cutText earlier key n) = some value := by
    have hinside : earlier <:+: toAsciiLowercase earlier := by rw [hlower]
    rw [cutText, nextValue_name hearlier.joined hearlier.plain (by decide), if_pos hinside, hspace]
  have htext : cutText earlier key n = (earlier ++ ['=']) ++ quoteRest value := by
    rw [hquote, List.append_assoc]
    rfl
  have hunquoted : unquotedEnd value = rest := unquotedEnd_append_nil hkey.undelimited
  have hlast : ∀ c ∈ ' ' :: letters n, isSeparator c = false :=
    separatorless_cons (by decide) (separatorless_letters n)
  have hall : ∀ c ∈ rest, isSeparator c = false :=
    separatorless_cons (by decide) (separatorless_cons (by decide) hlast)
  have hopened (shown : List Char) (hshown : valueEnd earlier value = shown)
      (hseparatorless : ∀ c ∈ shown, isSeparator c = false) :
      redactAll earlier (cutText earlier key n) = opened earlier shown := by
    rw [redactAll_of_value hnext htext, hshown, redactAll_of_separatorless earlier hseparatorless]
    simp only [opened, List.append_assoc, List.cons_append, List.nil_append]
  -- an authorization takes the second token along
  by_cases hauthorization : earlier = authorizationKey
  · refine ⟨' ' :: letters n, hopened _ ?_ hlast, List.suffix_cons _ _, hlast⟩
    have htwo : earlier = authorizationKey ∧ (spaceRest rest).length < rest.length := by
      refine ⟨hauthorization, ?_⟩
      change ('y' :: ' ' :: letters n).length < _
      simp [rest]
    rw [hend, tokenEnd, hunquoted, if_pos htwo]
    rfl
  · refine ⟨rest, hopened _ ?_ hall, List.suffix_append [' ', 'y', ' '] _, hall⟩
    rw [hend, tokenEnd, hunquoted, if_neg fun htwo ↦ hauthorization htwo.1]

theorem redactAll_nestedText (hkey : PlainKey key) (hlower : toAsciiLowercase key = key)
    (hearlier : PlainKey earlier) (n : ℕ) :
    redactAll key (nestedText earlier key n) = key ++ ['='] ++ placeholder := by
  let value := earlier ++ '=' :: '\'' :: 'x' :: '\'' :: letters n
  obtain ⟨hspace, hquote, hend⟩ := hearlier.value ('=' :: '\'' :: 'x' :: '\'' :: letters n)
  have hnext : nextValue key (nestedText earlier key n) = some value := by
    have hinside : key <:+: toAsciiLowercase key := by rw [hlower]
    rw [nestedText, nextValue_name hkey.joined hkey.plain (by decide), if_pos hinside, hspace]
  have htext : nestedText earlier key n = (key ++ ['=']) ++ quoteRest value := by
    rw [hquote, List.append_assoc]
    rfl
  have hunquoted : unquotedEnd value = [] := by
    have hletters : unquotedEnd (letters n) = [] := by
      rw [unquotedEnd, List.dropWhile_eq_nil_iff]
      exact letters_forall (p := fun c ↦ (!isUnquotedValueDelimiter c) = true) (by decide) n
    exact (unquotedEnd_append_nil hearlier.undelimited).trans hletters
  rw [redactAll_of_value hnext htext, hend, tokenEnd_of_nil hunquoted,
    redactAll_of_none (nextValue.eq_1 key), List.append_nil]

/-- The nested marker with a placeholder as its value. -/
def closedText (earlier key rest : List Char) : List Char :=
  key ++ '=' :: (earlier ++ '=' :: '\'' :: (placeholder ++ '\'' :: rest))

theorem nextValue_quoted (hkey : PlainKey key) {name : List Char}
    (hname : ∀ c ∈ name, isPlain c = true) {value : List Char} (hinside : key <:+: toAsciiLowercase name) :
    nextValue key (name ++ '=' :: '\'' :: value) = some ('\'' :: value) := by
  rw [nextValue_name hkey.joined hname (by decide), if_pos hinside]
  rfl

/-- A pass that finds a quoted value ends before the quote that closes it. -/
theorem redactAll_quoted {front inner rest : List Char}
    (hnext : nextValue key (front ++ '\'' :: (inner ++ '\'' :: rest)) =
      some ('\'' :: (inner ++ '\'' :: rest)))
    (hinner : ∀ c ∈ inner, c ≠ '\'' ∧ c ≠ '\\') (hnonempty : inner ≠ [])
    (hrest : ∀ c ∈ rest, isSeparator c = false) :
    redactAll key (front ++ '\'' :: (inner ++ '\'' :: rest)) =
      front ++ '\'' :: (placeholder ++ '\'' :: rest) := by
  obtain ⟨first, others, rfl⟩ := List.exists_cons_of_ne_nil hnonempty
  have hescaped : ¬startsEscapedQuote ('\'' :: (first :: others ++ '\'' :: rest)) = true := by
    rw [List.cons_append, startsEscapedQuote_cons_cons]
    simp
  obtain ⟨hquote, hend⟩ := quoted_cons hescaped (by decide)
  have hclosing : quotedEnd '\'' ('\'' :: rest) = '\'' :: rest := by
    cases rest with
    | nil => rw [quotedEnd, if_pos rfl]
    | cons c rest => rw [quotedEnd, if_pos rfl]
  have hshown := separatorless_cons (by decide : isSeparator '\'' = false) hrest
  have htext : front ++ '\'' :: (first :: others ++ '\'' :: rest) =
      (front ++ ['\'']) ++ quoteRest ('\'' :: (first :: others ++ '\'' :: rest)) := by
    rw [hquote, List.append_assoc]
    rfl
  rw [redactAll_of_value hnext htext, hend, quotedEnd_quoteless hinner, hclosing,
    redactAll_of_separatorless key hshown]
  simp only [List.append_assoc, List.cons_append, List.nil_append]

theorem redactAll_nestedText_earlier (hkey : PlainKey key) (hlower : toAsciiLowercase earlier = earlier)
    (hearlier : PlainKey earlier) (habsent : ¬earlier <:+: toAsciiLowercase key) (n : ℕ) :
    redactAll earlier (nestedText earlier key n) = closedText earlier key (letters n) := by
  have hinside : earlier <:+: toAsciiLowercase earlier := by rw [hlower]
  have hnext : nextValue earlier (nestedText earlier key n) = some ('\'' :: 'x' :: '\'' :: letters n) := by
    rw [nestedText, nextValue_name hearlier.joined hkey.plain (by decide), if_neg habsent]
    exact nextValue_quoted hearlier hearlier.plain hinside
  have hsplit (value : List Char) : key ++ '=' :: (earlier ++ '=' :: value) =
      (key ++ '=' :: (earlier ++ ['='])) ++ value := by
    simp only [List.append_assoc, List.cons_append, List.nil_append]
  have hinner : ∀ c ∈ ['x'], c ≠ '\'' ∧ c ≠ '\\' := by simp
  rw [nestedText, hsplit] at hnext
  rw [nestedText, closedText, hsplit, hsplit ('\'' :: (placeholder ++ '\'' :: letters n))]
  exact redactAll_quoted hnext hinner (by simp) (separatorless_letters n)

/-- A pass leaves the closed marker, or opens the name of the key. -/
theorem redactAll_closedText {other rest : List Char} (hother : PlainKey other) (hkey : PlainKey key)
    (hearlier : PlainKey earlier) (hrest : ∀ c ∈ rest, isSeparator c = false) :
    redactAll other (closedText earlier key rest) = closedText earlier key rest ∨
      redactAll other (closedText earlier key rest) = opened key (']' :: '\'' :: rest) := by
  have hseparator : isSeparator '=' = true := by decide
  have hshown := separatorless_cons (by decide : isSeparator '\'' = false) hrest
  let quoted := '\'' :: (placeholder ++ '\'' :: rest)
  have hquoted : ∀ c ∈ quoted, isSeparator c = false := by
    intro c hc
    obtain rfl | hc := List.mem_cons.mp hc
    · decide
    · obtain hmark | hc := List.mem_append.mp hc
      · exact placeholder_separatorless c hmark
      · exact hshown c hc
  have hnext : nextValue other (closedText earlier key rest) = _ :=
    nextValue_name hother.joined hkey.plain hseparator (earlier ++ '=' :: quoted)
  by_cases hname : other <:+: toAsciiLowercase key
  · refine Or.inr ?_
    obtain ⟨hspace, hquote, hend⟩ := hearlier.value ('=' :: quoted)
    have hunquoted : unquotedEnd (earlier ++ '=' :: quoted) = ']' :: '\'' :: rest := by
      rw [unquotedEnd_append_nil hearlier.undelimited]
      rfl
    have htext : closedText earlier key rest =
        (key ++ ['=']) ++ quoteRest (earlier ++ '=' :: quoted) := by
      rw [hquote, List.append_assoc]
      rfl
    rw [if_pos hname, hspace] at hnext
    rw [redactAll_of_value hnext htext, hend, tokenEnd_of_mark hunquoted (by decide),
      redactAll_of_separatorless other (separatorless_cons (by decide) hshown)]
    simp only [opened, List.append_assoc, List.cons_append, List.nil_append]
  · refine Or.inl ?_
    rw [if_neg hname, nextValue_name hother.joined hearlier.plain hseparator] at hnext
    by_cases hinner : other <:+: toAsciiLowercase earlier
    · have hsplit : closedText earlier key rest = (key ++ '=' :: (earlier ++ ['='])) ++ quoted := by
        simp only [closedText, quoted, List.append_assoc, List.cons_append, List.nil_append]
      have hmark : ∀ c ∈ placeholder, c ≠ '\'' ∧ c ≠ '\\' := by
        have hall : (placeholder.all fun c ↦ c ≠ '\'' ∧ c ≠ '\\') = true := by decide
        simpa using hall
      rw [if_pos hinner, hsplit] at hnext
      rw [hsplit]
      exact redactAll_quoted hnext hmark placeholder_ne_nil hrest
    · rw [if_neg hinner, nextValue_of_separatorless other hquoted] at hnext
      exact redactAll_of_none hnext

theorem redactKeys_closedText {keys : List (List Char)} (hkeys : ∀ other ∈ keys, PlainKey other)
    (hkey : PlainKey key) (hearlier : PlainKey earlier) {rest : List Char}
    (hrest : ∀ c ∈ rest, isSeparator c = false) :
    rest <:+: redactKeys keys (closedText earlier key rest) := by
  induction keys with
  | nil =>
    refine List.IsSuffix.isInfix ⟨key ++ '=' :: (earlier ++ '=' :: '\'' :: (placeholder ++ ['\''])), ?_⟩
    simp only [redactKeys, List.foldl_nil, closedText, List.append_assoc, List.cons_append,
      List.nil_append]
  | cons other keys ih =>
    have hlater : ∀ later ∈ keys, PlainKey later := fun later hlater ↦
      hkeys later (List.mem_cons_of_mem other hlater)
    have hpass := redactAll_closedText (hkeys other List.mem_cons_self) hkey hearlier hrest
    rw [redactKeys, List.foldl_cons, ← redactKeys]
    obtain hpass | hpass := hpass
    · rw [hpass]
      exact ih hlater
    · have hshown := separatorless_cons (by decide : isSeparator '\'' = false) hrest
      have hinside := redactKeys_opened hlater hkey.plain
        (separatorless_cons (by decide : isSeparator ']' = false) hshown)
      rw [hpass]
      exact (List.suffix_append [']', '\''] rest).isInfix.trans hinside

/-! ## The keys that reveal no more than one of them -/

/-- Too many letters for a text are not in it. -/
theorem letters_not_infix {n : ℕ} (h : text.length < n) : ¬letters n <:+: text := by
  intro hinside
  have hle := hinside.length_le
  rw [letters, List.length_replicate] at hle
  omega

/-- A first key that is another one reveals some letters that the key hides. -/
theorem exists_revealed {keys : List (List Char)} (hkeys : ∀ other ∈ earlier :: keys, PlainKey other)
    (hlower : ∀ other ∈ earlier :: keys, toAsciiLowercase other = other) (hmem : key ∈ keys)
    (hne : earlier ≠ key) :
    ∃ text n, ¬letters n <:+: redactAll key text ∧
      letters n <:+: redactKeys (earlier :: keys) text := by
  have hearlier := hkeys earlier List.mem_cons_self
  have hkey := hkeys key (List.mem_cons_of_mem earlier hmem)
  have hlater : ∀ other ∈ keys, PlainKey other := fun other hother ↦
    hkeys other (List.mem_cons_of_mem earlier hother)
  have hlowerEarlier := hlower earlier List.mem_cons_self
  have hlowerKey := hlower key (List.mem_cons_of_mem earlier hmem)
  by_cases habsent : key <:+: toAsciiLowercase earlier
  · have hother : ¬earlier <:+: toAsciiLowercase key := by
      rw [hlowerKey]
      rw [hlowerEarlier] at habsent
      intro hinside
      exact hne (hinside.eq_of_length_le habsent.length_le)
    let n := (key ++ ['='] ++ placeholder).length + 1
    refine ⟨nestedText earlier key n, n, ?_, ?_⟩
    · rw [redactAll_nestedText hkey hlowerKey hearlier]
      exact letters_not_infix (Nat.lt_succ_self _)
    · rw [redactKeys, List.foldl_cons,
        redactAll_nestedText_earlier hkey hlowerEarlier hearlier hother]
      exact redactKeys_closedText hlater hkey hearlier (separatorless_letters n)
  · let n := (earlier ++ '=' :: (key ++ ['=', '"']) ++ placeholder).length + 1
    refine ⟨cutText earlier key n, n, ?_, ?_⟩
    · rw [redactAll_cutText hkey hlowerKey hearlier habsent]
      exact letters_not_infix (Nat.lt_succ_self _)
    · obtain ⟨rest, hpass, hsuffix, hrest⟩ :=
        redactAll_cutText_earlier hkey hearlier hlowerEarlier n
      rw [redactKeys, List.foldl_cons, hpass]
      exact hsuffix.isInfix.trans (redactKeys_opened hlater hearlier.plain hrest)

namespace Redactor

/-- A key keeps hidden what it hides alone, among others too, where the text falls into fields in each of
which it has no marker or no key that is listed before it has one. On all texts it does exactly if no key
is listed before it. -/
theorem keepsHidden_iff (keys : List String) :
    (∀ key ∈ keys, ∀ fields last,
      (fields = [] ∨ ∀ secret ∈ (new keys).secretKeys, ∀ c ∈ secret, isPlain c = true) →
      (∀ field ∈ fields, Separate ((new keys).passesBefore (new [key]) ++ (new [key]).secretKeys) field) →
      (∀ field ∈ fields ++ [last], Unmarked (new [key]).secretKeys field ∨
        Unmarked ((new keys).passesBefore (new [key])) field) →
      (new keys).KeepsHidden (new [key]) (fields.flatten ++ last)) ∧
    ((∀ secret ∈ (new keys).secretKeys, ∀ c ∈ secret, isPlain c = true) →
      ∀ key ∈ keys, (∀ text, (new keys).KeepsHidden (new [key]) text) ↔
        (new keys).passesBefore (new [key]) = []) := by
  have hsufficient : ∀ key ∈ keys, ∀ fields last,
      (fields = [] ∨ ∀ secret ∈ (new keys).secretKeys, ∀ c ∈ secret, isPlain c = true) →
      (∀ field ∈ fields, Separate ((new keys).passesBefore (new [key]) ++ (new [key]).secretKeys) field) →
      (∀ field ∈ fields ++ [last], Unmarked (new [key]).secretKeys field ∨
        Unmarked ((new keys).passesBefore (new [key])) field) →
      (new keys).KeepsHidden (new [key]) (fields.flatten ++ last) := by
    intro key hkey fields last
    exact (new keys).keepsHidden_of_fields (secretKeys_singleton hkey)
  refine ⟨hsufficient, fun hplain key hkey ↦ ⟨fun hkeeps ↦ ?_, fun hnone text ↦ ?_⟩⟩
  · by_contra hbefore
    obtain hblank | ⟨secret, hsecret, hmem⟩ := secretKeys_singleton hkey
    · exact hbefore (by rw [passesBefore, hblank, List.flatMap_nil])
    rw [passesBefore, hsecret, List.flatMap_singleton] at hbefore
    obtain ⟨earlier, later, hkeys⟩ := List.exists_cons_of_ne_nil (List.ne_nil_of_mem hmem)
    have hne : earlier ≠ secret := by
      rintro rfl
      exact hbefore (by rw [hkeys, List.takeWhile_cons_of_neg (by simp)])
    have hlater : secret ∈ later := by
      rw [hkeys] at hmem
      exact (List.mem_cons.mp hmem).resolve_left hne.symm
    have hall : ∀ other ∈ earlier :: later, PlainKey other := by
      rw [← hkeys]
      exact fun other hother ↦ ⟨(new keys).nonempty other hother, hplain other hother⟩
    have hlower : ∀ other ∈ earlier :: later, toAsciiLowercase other = other := by
      rw [← hkeys]
      exact (new keys).lowercase
    obtain ⟨text, n, hhidden, hshown⟩ := exists_revealed hall hlower hlater hne
    apply hkeeps text (letters n)
    · intro c hc hmem
      obtain rfl := List.eq_of_mem_replicate hmem
      exact absurd hc (by decide)
    · rw [shows_iff, hsecret]
      exact hhidden
    · rw [shows_iff, hkeys]
      exact hshown
  · apply hsufficient key hkey [] text (Or.inl rfl) (List.forall_mem_nil _)
    intro field _
    refine Or.inr ?_
    rw [hnone]
    exact List.forall_mem_nil _

theorem keepsHidden_iff_default :
    (new ["secret", "token", "password", "authorization"]).KeepsHidden (new ["token"])
      (["secret=abc, ".toList, (quotedHeading "token".toList (by decide)).text [] [' ']
        (['"'] ++ ("d ef".toList ++ (['"'] ++ [','])))].flatten ++ " secret token=1".toList) ∧
    (∀ text, (new ["secret", "token", "password", "authorization"]).KeepsHidden (new ["secret"]) text) ∧
    ¬∀ text, (new ["secret", "token", "password", "authorization"]).KeepsHidden
      (new ["authorization"]) text := by
  obtain ⟨hfields, hiff⟩ := keepsHidden_iff ["secret", "token", "password", "authorization"]
  have hall : ∀ secret ∈ (new ["secret", "token", "password", "authorization"]).secretKeys,
      secret.all isPlain = true := by decide +kernel
  have hplain : ∀ secret ∈ (new ["secret", "token", "password", "authorization"]).secretKeys,
      ∀ c ∈ secret, isPlain c = true := fun secret hsecret ↦ List.all_eq_true.mp (hall secret hsecret)
  refine ⟨?_, ?_, ?_⟩
  · apply hfields "token" (by decide) _ _ (Or.inr hplain)
    · rw [List.forall_mem_cons, List.forall_mem_singleton]
      constructor
      · have hquoteless : "secret=abc, ".toList.all (!isQuote ·) = true := by decide
        refine Separate.closed ⟨by simpa using hquoteless, "secret=abc,".toList, ' ', rfl, rfl, ?_⟩
        intro last hlast
        obtain rfl : ',' = last := Option.some.inj hlast
        exact ⟨by decide, by decide, fun _ ↦ by decide⟩
      · have hinner : ("d ef".toList.all fun c ↦ !isSeparator c && (!isQuote c && c ≠ '\\')) = true := by
          decide
        have hspaces : [' '].all isWhitespace = true := by decide
        apply Separate.quoted
        · decide +kernel
        · exact List.forall_mem_nil _
        · exact List.all_eq_true.mp hspaces
        · exact fun _ ↦ rfl
        · decide
        · decide
        · simpa [Inner] using hinner
        · decide
        · decide
    · simp only [Unmarked]
      decide +kernel
  · exact (hiff hplain "secret" (by decide)).mpr (by decide +kernel)
  · intro hkeeps
    exact absurd ((hiff hplain "authorization" (by decide)).mp hkeeps) (by decide +kernel)

/-- The pass of `token` leaves the second token of an authorization. -/
theorem not_keepsHidden_default : "authorization" ∈ ["secret", "token", "password", "authorization"] ∧
    ¬(new ["secret", "token", "password", "authorization"]).KeepsHidden (new ["authorization"])
      "authorizationToken: ApiKey abc123".toList := by
  refine ⟨by decide, fun hkeeps ↦ ?_⟩
  apply hkeeps "abc123".toList
  · have hall : (placeholder.all fun c ↦ !"abc123".toList.contains c) = true := by decide
    simpa using hall
  · rw [shows_iff]
    decide +kernel
  · rw [shows_iff]
    decide +kernel

end Redactor

end FerrisBridge
