import FerrisBridge.Foundations.Occurrence
import FerrisBridge.Runtime.Redaction

/-!
# The markers of a key

Where the first marker of a key in a text is: the scan passes over what holds no key, and over what
holds no separator; behind an occurrence of the key it depends on the rest of the name.
-/

open Foundations

namespace FerrisBridge

variable {key head rest value : List Char}

/-! ## Separators -/

theorem toLower_of_isSeparator {c : Char} (h : isSeparator c = true) : c.toLower = c := by
  obtain rfl | rfl := isSeparator_cases h <;> rfl

theorem quoteRest_separator {separator : Char} (h : isSeparator separator = true) (rest : List Char) :
    quoteRest (separator :: rest) = separator :: rest := by
  apply (unquoted_cons _ _).1
  · obtain rfl | rfl := isSeparator_cases h <;> cases rest <;>
      simp [startsEscapedQuote_cons_cons, startsEscapedQuote_singleton]
  · obtain rfl | rfl := isSeparator_cases h <;> decide

/-- A key in which no separator is. -/
structure Joined (key : List Char) : Prop where
  nonempty : key ≠ []
  separatorless : ∀ c ∈ key, isSeparator c = false

/-- The value of a name stands behind a separator. -/
theorem afterName_separator (h : afterName head = .ok value) :
    ∃ name c spaces, head = name ++ c :: (spaces ++ value) ∧ isSeparator c = true ∧
      ∀ d ∈ spaces, isWhitespace d = true := by
  simp only [afterName] at h
  cases hname : nameRest head with
  | none => simp only [hname, reduceCtorEq] at h
  | some suffix =>
    cases hspace : spaceRest (quoteRest suffix) with
    | nil => simp only [hname, hspace, reduceCtorEq] at h
    | cons c after =>
      simp only [hname, hspace] at h
      split_ifs at h with hseparator
      obtain ⟨name, hname⟩ := ((spaceRest_suffix _).trans (quoteRest_suffix suffix)).trans
        (nameRest_suffix hname)
      have hspaces : after.takeWhile isWhitespace ++ value = after := by
        rw [← Except.ok.inj h, spaceRest, List.takeWhile_append_dropWhile]
      refine ⟨name, c, after.takeWhile isWhitespace, ?_, hseparator, fun d hd ↦ ?_⟩
      · rw [hspaces, ← hspace, hname]
      · exact List.mem_takeWhile_imp hd

/-- So does the value of a marker, and the key is in front of the separator. -/
theorem nextValue_separator (h : nextValue key head = some value) :
    ∃ name c spaces, head = name ++ c :: (spaces ++ value) ∧ key <:+: toAsciiLowercase name ∧
      isSeparator c = true ∧ ∀ d ∈ spaces, isWhitespace d = true := by
  have hlonger (front : List Char) {name : List Char} (hinside : key <:+: toAsciiLowercase name) :
      key <:+: toAsciiLowercase (front ++ name) := by
    rw [toAsciiLowercase, List.map_append]
    exact hinside.trans (List.suffix_append _ _).isInfix
  induction head using nextValue.induct key with
  | case1 => simp only [nextValue, reduceCtorEq] at h
  | case2 first text hkey after hafter =>
    rw [nextValue, if_pos hkey, hafter] at h
    obtain rfl := Option.some.inj h
    obtain ⟨name, c, spaces, hname, hseparator, hspaces⟩ := afterName_separator hafter
    refine ⟨first :: text.take (key.length - 1) ++ name, c, spaces, ?_, ?_, hseparator, hspaces⟩
    · rw [List.append_assoc, ← hname, List.cons_append, List.take_append_drop]
    · have hinitial := List.isPrefixOf_iff_prefix.mp hkey
      have hmatched : key <+: toAsciiLowercase (first :: text.take (key.length - 1)) := by
        apply List.prefix_of_prefix_length_le hinitial
        · rw [toAsciiLowercase, toAsciiLowercase, List.map_cons, List.map_cons, List.map_take]
          exact (List.prefix_cons_inj _).mpr (List.take_prefix _ _)
        · have hle := hinitial.length_le
          simp only [toAsciiLowercase, List.length_map, List.length_cons, List.length_take] at hle ⊢
          omega
      rw [toAsciiLowercase, List.map_append]
      exact (hmatched.trans (List.prefix_append _ _)).isInfix
  | case3 first text hkey after hafter ih =>
    rw [nextValue, if_pos hkey, hafter] at h
    obtain ⟨name, c, spaces, hname, hinside, hmarker⟩ := ih h
    obtain ⟨front, hfront⟩ := (afterName_error hafter).trans (List.drop_suffix _ text)
    refine ⟨first :: front ++ name, c, spaces, ?_, hlonger _ hinside, hmarker⟩
    rw [List.append_assoc, ← hname, List.cons_append, hfront]
  | case4 first text hkey ih =>
    rw [nextValue, if_neg hkey] at h
    obtain ⟨name, c, spaces, hname, hinside, hmarker⟩ := ih h
    exact ⟨first :: name, c, spaces, by rw [hname, List.cons_append], hlonger [first] hinside, hmarker⟩

theorem nextValue_of_separatorless (key : List Char) (h : ∀ c ∈ head, isSeparator c = false) :
    nextValue key head = none := by
  cases hvalue : nextValue key head with
  | none => rfl
  | some value =>
    obtain ⟨name, c, spaces, rfl, -, hseparator, -⟩ := nextValue_separator hvalue
    rw [h c (List.mem_append_right name List.mem_cons_self)] at hseparator
    cases hseparator

theorem redactAll_of_separatorless (key : List Char) (h : ∀ c ∈ head, isSeparator c = false) :
    redactAll key head = head :=
  redactAll_of_none (nextValue_of_separatorless key h)

/-- A pass replaces the value behind its opening quote. -/
theorem redactAll_of_value {front value : List Char} (h : nextValue key head = some value)
    (htext : head = front ++ quoteRest value) :
    redactAll key head = front ++ placeholder ++ redactAll key (valueEnd key value) := by
  rw [redactAll_of_some h]
  congr 2
  rw [htext, List.length_append, Nat.add_sub_cancel, List.take_left]

/-- The value of a marker stands behind a text without separators, and so does its separator. -/
theorem nextValue_behind {text : List Char} (hhead : ∀ c ∈ head, isSeparator c = false)
    (h : nextValue key (head ++ text) = some value) :
    ∃ name c spaces, text = name ++ c :: (spaces ++ value) ∧ isSeparator c = true ∧
      ∀ d ∈ spaces, isWhitespace d = true := by
  obtain ⟨name, c, spaces, htext, -, hseparator, hspaces⟩ := nextValue_separator h
  obtain ⟨more, rfl, hbehind⟩ | ⟨more, rfl, hbehind⟩ := List.append_eq_append_iff.mp htext
  · exact ⟨more, c, spaces, hbehind, hseparator, hspaces⟩
  · cases more with
    | nil => exact ⟨[], c, spaces, hbehind.symm, hseparator, hspaces⟩
    | cons d more =>
      obtain ⟨rfl, -⟩ := List.cons.inj hbehind
      rw [hhead c (List.mem_append_right name List.mem_cons_self)] at hseparator
      cases hseparator

/-- A pass keeps the start of a text up to its first separator. -/
theorem redactAll_keeps (key : List Char) (h : ∀ c ∈ head, isSeparator c = false) (first : Char)
    (rest : List Char) : ∃ output, redactAll key (head ++ first :: rest) = head ++ first :: output := by
  cases hvalue : nextValue key (head ++ first :: rest) with
  | none => exact ⟨rest, redactAll_of_none hvalue⟩
  | some value =>
    obtain ⟨name, c, spaces, hname, -, -⟩ := nextValue_behind h hvalue
    obtain ⟨quote, hquote⟩ := quoteRest_suffix value
    have htext : head ++ first :: rest =
        (head ++ (name ++ c :: (spaces ++ quote))) ++ quoteRest value := by
      simp only [hname, List.append_assoc, List.cons_append, hquote]
    obtain ⟨others, hfirst⟩ : ∃ others, name ++ c :: (spaces ++ quote) = first :: others := by
      cases name with
      | nil =>
        obtain ⟨rfl, -⟩ := List.cons.inj hname
        exact ⟨_, rfl⟩
      | cons d name =>
        obtain ⟨rfl, -⟩ := List.cons.inj hname
        exact ⟨_, rfl⟩
    rw [redactAll_of_value hvalue htext, hfirst, List.append_assoc, List.append_assoc, List.cons_append]
    exact ⟨_, rfl⟩

/-! ## Occurrences of the key -/

/-- A text without the key is passed over up to a character that no key has. -/
theorem nextValue_of_stop {stop : Char} (hlower : stop.toLower = stop) (hstop : stop ∉ key)
    (h : ¬key <:+: toAsciiLowercase head) (rest : List Char) :
    nextValue key (head ++ stop :: rest) = nextValue key rest := by
  have hsplit (front : List Char) : toAsciiLowercase (front ++ stop :: rest) =
      toAsciiLowercase front ++ stop :: toAsciiLowercase rest := by
    simp only [toAsciiLowercase, List.map_append, List.map_cons, hlower]
  have hmiss {front : List Char} (hfront : ¬key <:+: toAsciiLowercase front) :
      ¬key.isPrefixOf (toAsciiLowercase (front ++ stop :: rest)) = true := by
    rw [hsplit, List.isPrefixOf_iff_prefix]
    exact fun hinitial ↦ hfront (prefix_of_prefix_append_cons hinitial hstop).isInfix
  induction head with
  | nil => exact nextValue_cons_of_no_match (hmiss h)
  | cons first head ih =>
    have htail : ¬key <:+: toAsciiLowercase head := fun hinside ↦
      h (hinside.trans (List.suffix_cons first.toLower _).isInfix)
    have hskip : nextValue key (first :: (head ++ stop :: rest)) =
        nextValue key (head ++ stop :: rest) := nextValue_cons_of_no_match (hmiss h)
    rw [List.cons_append, hskip, ih htail]

/-- A text without the key is passed over up to the next separator. -/
theorem nextValue_of_absent (hkey : Joined key) (h : ¬key <:+: toAsciiLowercase head)
    {separator : Char} (hseparator : isSeparator separator = true) (rest : List Char) :
    nextValue key (head ++ separator :: rest) = nextValue key rest := by
  apply nextValue_of_stop (toLower_of_isSeparator hseparator) _ h
  intro hmem
  rw [hkey.separatorless separator hmem] at hseparator
  cases hseparator

/-- The first occurrence of the key in the text decides, whatever follows the text. -/
theorem nextValue_of_present (hkey : key ≠ []) (h : key <:+: toAsciiLowercase head) :
    ∃ used name, head = used ++ name ∧ key <:+ toAsciiLowercase used ∧ ∀ rest,
      (∀ value, afterName (name ++ rest) = .ok value → nextValue key (head ++ rest) = some value) ∧
      ∀ resume, afterName (name ++ rest) = .error resume →
        nextValue key (head ++ rest) = nextValue key resume := by
  induction head with
  | nil => exact absurd (List.infix_nil.mp h) hkey
  | cons first head ih =>
    by_cases hmatched : key <+: toAsciiLowercase (first :: head)
    · have hle := hmatched.length_le
      rw [toAsciiLowercase, List.length_map] at hle
      have hdrop (rest : List Char) : (first :: head ++ rest).drop key.length =
          (first :: head).drop key.length ++ rest := List.drop_append_of_le_length hle
      have hinitial (rest : List Char) :
          key.isPrefixOf (toAsciiLowercase (first :: head ++ rest)) = true := by
        rw [List.isPrefixOf_iff_prefix, toAsciiLowercase, List.map_append]
        exact hmatched.trans (List.prefix_append _ _)
      refine ⟨(first :: head).take key.length, (first :: head).drop key.length,
        (List.take_append_drop _ _).symm, ?_, fun rest ↦ ⟨fun value hvalue ↦ ?_, fun resume hresume ↦ ?_⟩⟩
      · rw [toAsciiLowercase, List.map_take, ← toAsciiLowercase, ← List.prefix_iff_eq_take.mp hmatched]
      · rw [← hdrop] at hvalue
        exact nextValue_of_ok hkey (hinitial rest) hvalue
      · rw [← hdrop] at hresume
        exact nextValue_of_error hkey (hinitial rest) hresume
    · have htail : key <:+: toAsciiLowercase head :=
        (List.infix_cons_iff.mp h).resolve_left hmatched
      obtain ⟨used, name, rfl, hused, hnext⟩ := ih htail
      have hskip (rest : List Char) : nextValue key (first :: (used ++ name) ++ rest) =
          nextValue key (used ++ name ++ rest) := by
        apply nextValue_cons_of_no_match
        rw [List.isPrefixOf_iff_prefix]
        intro hinitial
        apply hmatched
        apply List.prefix_of_prefix_length_le hinitial
        · have hsplit : toAsciiLowercase (first :: (used ++ name) ++ rest) =
              toAsciiLowercase (first :: (used ++ name)) ++ toAsciiLowercase rest := List.map_append
          exact hsplit ▸ List.prefix_append _ _
        · exact htail.length_le.trans (by simp [toAsciiLowercase])
      refine ⟨first :: used, name, rfl, hused.trans (List.suffix_cons _ _), fun rest ↦ ?_⟩
      rw [hskip]
      exact hnext rest

end FerrisBridge
