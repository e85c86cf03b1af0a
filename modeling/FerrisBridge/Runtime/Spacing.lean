import FerrisBridge.Runtime.Remnants

/-!
# Whitespace around a separator

The redactor hides a marked value whatever whitespace stands around the separator. Nothing of the value is
left behind the placeholder, unless the pass of an earlier key takes the start of an unquoted value for a
marker.
-/

open Foundations

namespace FerrisBridge

/-! ## The redactor -/

namespace Redactor

theorem trim_edges {value : List Char} {c : Char} :
    (c ∈ (trim value).head? → isWhitespace c = false) ∧
      (c ∈ (trim value).getLast? → isWhitespace c = false) := by
  constructor
  · intro h
    have hinitial : trim value <+: value.dropWhile isWhitespace := by
      rw [← List.reverse_suffix, trim, List.reverse_reverse]
      exact List.dropWhile_suffix _
    obtain ⟨rest, hrest⟩ := hinitial
    have hfirst : c ∈ (value.dropWhile isWhitespace).head? := by
      rw [← hrest, List.head?_append, Option.mem_def.mp h]
      rfl
    exact head_spaceRest hfirst
  · intro h
    rw [trim, List.getLast?_reverse] at h
    exact head_spaceRest h

/-- The keys of a redactor in which no quote and no separator is. -/
theorem wordKey_of_mem {keys : List String} {secret : List Char}
    (hsecret : secret ∈ (new keys).secretKeys)
    (hchars : ∀ c ∈ secret, isQuote c = false ∧ isSeparator c = false) : WordKey secret := by
  obtain ⟨key, -, hkey⟩ := List.mem_map.mp (List.mem_filter.mp hsecret).1
  have hedge {c : Char} (d : Char) (hd : isWhitespace d = false) (hc : d.toLower = c) :
      isWhitespace c = false := by rw [← hc, isWhitespace_toLower, hd]
  refine ⟨⟨(new keys).nonempty secret hsecret, fun c hc ↦ (hchars c hc).2⟩,
    fun c hc ↦ (hchars c hc).1, fun c hc ↦ ?_, fun c hc ↦ ?_⟩
  · rw [← hkey, toAsciiLowercase, List.head?_map] at hc
    obtain ⟨d, hd, hlower⟩ := Option.map_eq_some_iff.mp hc
    exact hedge d (trim_edges.1 hd) hlower
  · rw [← hkey, toAsciiLowercase, List.getLast?_map] at hc
    obtain ⟨d, hd, hlower⟩ := Option.map_eq_some_iff.mp hc
    exact hedge d (trim_edges.2 hd) hlower

/-- The redactor puts the placeholder into the place of the value, leaves behind it what the passes leave
of the text there, and writes the same with the spaces as without them. -/
def Hides (self : Redactor) (heading : Heading) (spaces spaces' value behind : List Char) : Prop :=
  ∃ hidden, RemainsOf marks behind hidden ∧
    self.redactValue (heading.text spaces spaces' value) =
      some (heading.text spaces spaces' (openingQuote value ++ (placeholder ++ hidden))) ∧
    self.redactValue (heading.text [] [] value) =
      some (heading.text [] [] (openingQuote value ++ (placeholder ++ hidden)))

/-- None of the keys has a marker in the value, up to a last part without quotes. -/
def Spared (keys : List (List Char)) (first value : List Char) : Prop :=
  ∃ kept last, value = kept ++ (last ++ valueEnd first value) ∧ Bare last ∧ ∀ key ∈ keys, Passed key kept

/-- A value of one token without quotes is spared by all keys. -/
theorem spared_of_token {keys : List (List Char)} {first token rest : List Char}
    (hkeys : ∀ key ∈ keys, key ≠ []) (hfirst : first ≠ authorizationKey) (htoken : Bare token)
    (hrest : rest.head?.all isUnquotedValueDelimiter = true) : Spared keys first (token ++ rest) := by
  refine ⟨[], token, ?_, htoken, fun key hkey ↦ ?_⟩
  · have hend : valueEnd first (token ++ rest) = rest := by
      rw [(unquoted_bare htoken hrest).2, tokenEnd, if_neg fun h ↦ hfirst h.1]
      exact unquotedEnd_bare htoken hrest
    rw [hend, List.nil_append]
  · apply passed_of_absent (hkeys key hkey)
    exact fun h ↦ hkeys key hkey (List.infix_nil.mp h)

example : Spared ["secret".toList] "token".toList ("secret=1".toList ++ ", 2".toList) := by
  have hbare : ("secret=1".toList.all fun c ↦ !isUnquotedValueDelimiter c && !isQuote c) = true := by decide
  exact spared_of_token (by decide) (by decide) (by simpa [Bare] using hbare) (by decide)

/-- The passes leave behind the placeholder only what is behind the value. -/
theorem foldl_pass_value (heading : Heading) {earlier later : List (List Char)} {first value : List Char}
    (hearlier : ∀ key ∈ earlier, key ≠ [] ∧ ¬key <:+: toAsciiLowercase heading.label)
    (hfirst : first <:+: toAsciiLowercase heading.label)
    (hspared : openingQuote value ≠ [] ∨ Spared earlier first value) :
    ∃ hidden, (earlier ++ first :: later).foldl heading.pass value =
      openingQuote value ++ (placeholder ++ hidden) ∧ RemainsOf marks (valueEnd first value) hidden := by
  rw [List.foldl_append]
  by_cases hopening : openingQuote value = []
  · obtain ⟨kept, last, hvalue, hlast, hpassed⟩ := hspared.resolve_left fun hne ↦ hne hopening
    have hend : valueEnd first value = tokenEnd first value :=
      (unquoted_of_openingQuote hopening).2 first
    have hspares : Spares kept (valueEnd first value) value := by
      refine ⟨last, valueEnd first value, hvalue, hlast, ?_, RemainsOf.refl _⟩
      rw [hend]
      exact tokenEnd_delimits first value
    obtain ⟨⟨token, rest, htext, htoken, hdelimits, hremains⟩, hquote⟩ :=
      heading.foldl_pass_unquoted hearlier hpassed hspares
    have hunquoted := unquoted_of_openingQuote (hquote.trans hopening)
    rw [← hquote]
    apply heading.foldl_pass_first hfirst
    rw [hunquoted.2 first]
    rw [hend] at hvalue
    have hsuffix := tokenEnd_suffix_of_split hvalue (token ++ rest)
    rw [← htext, unquotedEnd_bare htoken hdelimits] at hsuffix
    obtain ⟨skipped, hskipped⟩ := hsuffix
    rw [← hskipped] at hremains
    exact hremains.dropFront (closing_of_delimits (tokenEnd_delimits first _)).cut
  · obtain ⟨ends, hends, hend, -⟩ := exists_closes (openingQuote_mem value) hopening
    have hvalue := openingQuote_append_quoteRest value
    have hstart : RemainsOf marks (valueEnd first value) (ends (quoteRest value)) := by
      rw [← hend first, hvalue]
      exact RemainsOf.refl _
    obtain ⟨output, houtput, hremains⟩ := heading.foldl_pass_quoted hends
      (fun key hkey ↦ (hearlier key hkey).2) (openingQuote_mem value) hstart
    have hquote := openingQuote_append (openingQuote_mem value) hopening output
    rw [hvalue] at houtput
    rw [← hend first] at hremains
    obtain ⟨hidden, hhidden, hrest⟩ := heading.foldl_pass_first hfirst hremains later
    rw [hquote] at hhidden
    exact ⟨hidden, by rw [houtput, hhidden], hrest⟩

/-- Spaces around the separator of a quoted name, and behind the one of a bare name, do not change what
is hidden. The value is replaced as a whole, by the pass of each key in the name and by all passes, if it
is quoted or no earlier pass takes the start of it for a marker. A bare name with whitespace in front of
its separator marks nothing. -/
theorem hides_of_heading (keys : List String)
    (hkeys : ∀ secret ∈ (new keys).secretKeys, ∀ c ∈ secret, isQuote c = false ∧ isSeparator c = false)
    (heading : Heading)
    (hbefore : ∀ secret ∈ (new keys).secretKeys, ¬secret <:+: toAsciiLowercase heading.before)
    (hname : ∃ secret ∈ (new keys).secretKeys, secret <:+: toAsciiLowercase heading.name)
    {spaces spaces' value : List Char} (hspaces : Blank spaces) (hspaces' : Blank spaces')
    (hvalue : ∀ c ∈ value.head?, isWhitespace c = false) :
    (heading.closing ≠ [] ∨ spaces = [] →
      (new keys).Hides heading spaces spaces' value value ∧
      (∀ earlier first later, (new keys).secretKeys = earlier ++ first :: later →
        (∀ secret ∈ earlier, ¬secret <:+: toAsciiLowercase heading.label) →
        first <:+: toAsciiLowercase heading.label →
        openingQuote value ≠ [] ∨ Spared earlier first value →
        (new keys).Hides heading spaces spaces' value (valueEnd first value)) ∧
      ∀ secret ∈ (new keys).secretKeys, secret <:+: toAsciiLowercase heading.name →
        ∃ rest, redactInlineKeyValues (valueEnd secret value) secret = some rest ∧
          redactInlineKeyValues (heading.text spaces spaces' value) secret =
            some (heading.text spaces spaces' (openingQuote value ++ (placeholder ++ rest)))) ∧
    (heading.closing = [] → spaces ≠ [] →
      (new keys).redactValue (heading.text spaces spaces' value) =
        ((new keys).redactValue (spaces' ++ value)).map (heading.text spaces [] ·)) := by
  have hword (secret : List Char) (hsecret : secret ∈ (new keys).secretKeys) : WordKey secret :=
    wordKey_of_mem hsecret (hkeys secret hsecret)
  have hlabel {secret : List Char} (hinside : secret <:+: toAsciiLowercase heading.name) :
      secret <:+: toAsciiLowercase heading.label := by
    apply hinside.trans
    simp only [Heading.label, toAsciiLowercase, List.map_append]
    exact List.infix_append' _ _ _
  refine ⟨fun hmarked ↦ ?_, fun hclosing hne ↦ ?_⟩
  · have hbare : heading.closing = [] → spaces = [] := fun hclosing ↦
      hmarked.resolve_left fun hne ↦ hne hclosing
    have hides {behind hidden : List Char} (hremains : RemainsOf marks behind hidden)
        (hpasses : (new keys).secretKeys.foldl heading.pass value =
          openingQuote value ++ (placeholder ++ hidden)) :
        (new keys).Hides heading spaces spaces' value behind := by
      have hnil : Blank [] := List.forall_mem_nil _
      refine ⟨hidden, hremains, ?_, ?_⟩
      · rw [redactValue_eq, ← hpasses]
        exact congrArg some (heading.redactKeys_text hword hbefore hspaces hspaces' hvalue hbare)
      · rw [redactValue_eq, ← hpasses]
        exact congrArg some (heading.redactKeys_text hword hbefore hnil hnil hvalue fun _ ↦ rfl)
    refine ⟨?_, fun earlier first later hsplit hearlier hfirst hspared ↦ ?_, fun other hother hinside' ↦ ?_⟩
    · obtain ⟨secret, hsecret, hinside⟩ := hname
      obtain ⟨hidden, hpasses, hremains⟩ :=
        heading.foldl_pass_hidden ⟨secret, hsecret, hlabel hinside⟩ (RemainsOf.refl value)
      exact hides hremains hpasses
    · have hearlier' : ∀ key ∈ earlier, key ≠ [] ∧ ¬key <:+: toAsciiLowercase heading.label := by
        intro key hkey
        refine ⟨(new keys).nonempty key ?_, hearlier key hkey⟩
        rw [hsplit]
        exact List.mem_append_left _ hkey
      obtain ⟨hidden, hpasses, hremains⟩ := foldl_pass_value heading hearlier' hfirst hspared
      rw [← hsplit] at hpasses
      exact hides hremains hpasses
    · have hnonempty := (new keys).nonempty other hother
      have hpass := heading.redactAll_text (hword other hother) (hbefore other hother) hspaces hspaces'
        hvalue hbare
      rw [Heading.pass, if_pos (hlabel hinside')] at hpass
      exact ⟨_, redactInlineKeyValues_eq hnonempty _,
        by rw [redactInlineKeyValues_eq hnonempty, hpass]⟩
  · have hpass := heading.redactKeys_spaced hword hbefore hspaces hne hclosing (spaces' ++ value)
    rw [redactValue_eq, redactValue_eq, Option.map_some]
    exact congrArg some hpass

/-- A bare name, and the same name in quotes. -/
def bareHeading (name : List Char) (hname : name.all isNameChar = true) : Heading where
  before := []
  name
  closing := []
  separator := '='
  name_chars := List.all_eq_true.mp hname
  closing_closes := List.mem_cons_self
  separates := rfl

def quotedHeading (name : List Char) (hname : name.all isNameChar = true) : Heading :=
  { bareHeading name hname with
    before := ['"']
    closing := ['"']
    closing_closes := List.mem_cons_of_mem [] List.mem_cons_self }

theorem hides_of_heading_token :
    ((quotedHeading "app_Token".toList (by decide)).closing ≠ [] ∨ [' ', '\t'] = [] →
      (new ["token", "secret"]).Hides (quotedHeading "app_Token".toList (by decide)) [' ', '\t'] [' ']
        "\"abc\", 1".toList "\"abc\", 1".toList ∧
      (∀ earlier first later, (new ["token", "secret"]).secretKeys = earlier ++ first :: later →
        (∀ secret ∈ earlier, ¬secret <:+:
          toAsciiLowercase (quotedHeading "app_Token".toList (by decide)).label) →
        first <:+: toAsciiLowercase (quotedHeading "app_Token".toList (by decide)).label →
        openingQuote "\"abc\", 1".toList ≠ [] ∨ Spared earlier first "\"abc\", 1".toList →
        (new ["token", "secret"]).Hides (quotedHeading "app_Token".toList (by decide)) [' ', '\t'] [' ']
          "\"abc\", 1".toList (valueEnd first "\"abc\", 1".toList)) ∧
      ∀ secret ∈ (new ["token", "secret"]).secretKeys,
        secret <:+: toAsciiLowercase (quotedHeading "app_Token".toList (by decide)).name →
        ∃ rest, redactInlineKeyValues (valueEnd secret "\"abc\", 1".toList) secret = some rest ∧
          redactInlineKeyValues ((quotedHeading "app_Token".toList (by decide)).text [' ', '\t'] [' ']
              "\"abc\", 1".toList) secret =
            some ((quotedHeading "app_Token".toList (by decide)).text [' ', '\t'] [' ']
              (openingQuote "\"abc\", 1".toList ++ (placeholder ++ rest)))) ∧
    ((quotedHeading "app_Token".toList (by decide)).closing = [] → [' ', '\t'] ≠ [] →
      (new ["token", "secret"]).redactValue ((quotedHeading "app_Token".toList (by decide)).text
          [' ', '\t'] [' '] "\"abc\", 1".toList) =
        ((new ["token", "secret"]).redactValue ([' '] ++ "\"abc\", 1".toList)).map
          ((quotedHeading "app_Token".toList (by decide)).text [' ', '\t'] [] ·)) := by
  have hkeys : ∀ secret ∈ (new ["token", "secret"]).secretKeys,
      (secret.all fun c ↦ !isQuote c && !isSeparator c) = true := by decide +kernel
  apply hides_of_heading
  · intro secret hsecret c hc
    have hc := List.all_eq_true.mp (hkeys secret hsecret) c hc
    simpa only [Bool.and_eq_true, Bool.not_eq_true'] using hc
  · decide +kernel
  · exact ⟨"token".toList, by decide +kernel, by decide +kernel⟩
  · exact List.all_eq_true.mp (by decide)
  · exact List.all_eq_true.mp (by decide)
  · intro c hc
    obtain rfl := Option.some.inj hc
    decide

/-- The part of a redacted text in front of what the passes leave behind the value. -/
def hiddenPart (heading : Heading) (spaces spaces' value : List Char) : List Char :=
  heading.text spaces spaces' (openingQuote value ++ placeholder)

theorem hiddenPart_append (heading : Heading) (spaces spaces' value hidden : List Char) :
    heading.text spaces spaces' (openingQuote value ++ (placeholder ++ hidden)) =
      hiddenPart heading spaces spaces' value ++ hidden := by
  simp only [hiddenPart, Heading.text, List.append_assoc, List.cons_append]

section Outputs

variable {self : Redactor} {heading : Heading} {spaces spaces' value behind output output' : List Char}

/-- What a hiding redactor writes starts with the placeholder in the place of the value. -/
theorem Hides.hiddenPart_prefix (h : self.Hides heading spaces spaces' value behind)
    (houtput : self.redactValue (heading.text spaces spaces' value) = some output) :
    hiddenPart heading spaces spaces' value <+: output := by
  obtain ⟨hidden, -, hspaced, -⟩ := h
  rw [houtput, hiddenPart_append] at hspaced
  rw [Option.some.inj hspaced]
  exact List.prefix_append _ _

/-- Behind the placeholder a hiding redactor writes the same with the spaces as without them. -/
theorem Hides.drop_eq_drop (h : self.Hides heading spaces spaces' value behind)
    (houtput : self.redactValue (heading.text spaces spaces' value) = some output)
    (houtput' : self.redactValue (heading.text [] [] value) = some output') :
    output.drop (hiddenPart heading spaces spaces' value).length =
      output'.drop (hiddenPart heading [] [] value).length := by
  obtain ⟨hidden, -, hspaced, hjoined⟩ := h
  rw [houtput, hiddenPart_append] at hspaced
  rw [houtput', hiddenPart_append] at hjoined
  rw [Option.some.inj hspaced, Option.some.inj hjoined, List.drop_left, List.drop_left]

/-- Behind the placeholder a hiding redactor leaves only what remains of the text there. -/
theorem Hides.remains_drop (h : self.Hides heading spaces spaces' value behind)
    (houtput : self.redactValue (heading.text spaces spaces' value) = some output) :
    RemainsOf marks behind (output.drop (hiddenPart heading spaces spaces' value).length) := by
  obtain ⟨hidden, hremains, hspaced, -⟩ := h
  rw [houtput, hiddenPart_append] at hspaced
  rw [Option.some.inj hspaced, List.drop_left]
  exact hremains

end Outputs

/-- A bare name with a space in front of its separator shows its value. A key with a separator can hide
more with the spaces than without them, and a key with a quote less. An earlier pass that takes the start
of an unquoted value for a marker leaves the end of the value. -/
theorem not_hides :
    (∀ behind, ¬(new ["secret", "token", "password", "authorization"]).Hides
      (bareHeading "token".toList (by decide)) [' '] [' '] "abc".toList behind) ∧
    (∀ behind, ¬(new ["= a", "token"]).Hides (quotedHeading "token".toList (by decide)) [' '] [' ']
      "abc: zz".toList behind) ∧
    (∀ behind, ¬(new ["n\"", "authorization"]).Hides
      (quotedHeading "authorization".toList (by decide)) [' '] [' '] "ApiKey abc".toList behind) ∧
    ¬(new ["secret", "token"]).Hides (bareHeading "token".toList (by decide)) [] []
      "secret=\"a\"b".toList [] := by
  refine ⟨?_, ?_, ?_, ?_⟩
  · intro behind h
    have houtput : (new ["secret", "token", "password", "authorization"]).redactValue
        ((bareHeading "token".toList (by decide)).text [' '] [' '] "abc".toList) =
        some "token = abc".toList := by decide +kernel
    exact absurd (h.hiddenPart_prefix houtput) (by decide +kernel)
  · intro behind h
    have hspaced : (new ["= a", "token"]).redactValue
        ((quotedHeading "token".toList (by decide)).text [' '] [' '] "abc: zz".toList) =
        some "\"token\" = [REDACTED] [REDACTED]".toList := by decide +kernel
    have hjoined : (new ["= a", "token"]).redactValue
        ((quotedHeading "token".toList (by decide)).text [] [] "abc: zz".toList) =
        some "\"token\"=[REDACTED] zz".toList := by decide +kernel
    exact absurd (h.drop_eq_drop hspaced hjoined) (by decide +kernel)
  · intro behind h
    have hspaced : (new ["n\"", "authorization"]).redactValue
        ((quotedHeading "authorization".toList (by decide)).text [' '] [' '] "ApiKey abc".toList) =
        some "\"authorization\" = [REDACTED]".toList := by decide +kernel
    have hjoined : (new ["n\"", "authorization"]).redactValue
        ((quotedHeading "authorization".toList (by decide)).text [] [] "ApiKey abc".toList) =
        some "\"authorization\"=[REDACTED]] abc".toList := by decide +kernel
    exact absurd (h.drop_eq_drop hspaced hjoined) (by decide +kernel)
  · intro h
    have houtput : (new ["secret", "token"]).redactValue
        ((bareHeading "token".toList (by decide)).text [] [] "secret=\"a\"b".toList) =
        some "token=[REDACTED]]\"b".toList := by decide +kernel
    have hremains : RemainsOf marks [] "]\"b".toList := h.remains_drop houtput
    have hshown : ['b'] <:+: "]\"b".toList := ⟨"]\"".toList, [], rfl⟩
    have hmarks : (placeholder.all fun c ↦ !(['b'].contains c)) = true := by decide
    have hdisjoint : ∀ mark ∈ marks, ∀ c ∈ mark, c ∉ ['b'] := disjoint_marks (by simpa using hmarks)
    have hnil := hremains.infix_of_output mark_ne_nil hdisjoint hshown
    exact absurd (List.infix_nil.mp hnil) (List.cons_ne_nil _ _)

end Redactor

end FerrisBridge
