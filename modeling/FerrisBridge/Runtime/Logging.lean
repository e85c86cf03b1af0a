import FerrisBridge.Runtime.Session

/-!
# Redaction of log text

The redactor looks in a text for names that contain a secret key and replaces the value that follows
each of them. It makes one pass over the text for each key, and each pass rewrites what the one
before has left.

A text is the list of its characters, and offsets into it count UTF-8 bytes, as in the source. Taking
a slice at an offset that is not a character boundary panics; `none` stands for that, and for a loop
that does not come to its end in as many rounds as the text has bytes.
-/

namespace FerrisBridge

/-! ## Slices -/

/-- The length of a text in bytes. -/
def byteLen (text : List Char) : ℕ := (text.map Char.utf8Size).sum

/-- `&input[start..]`. -/
def sliceFrom : List Char → ℕ → Option (List Char)
  | input, 0 => some input
  | [], _ + 1 => none
  | c :: rest, start + 1 =>
    if c.utf8Size ≤ start + 1 then sliceFrom rest (start + 1 - c.utf8Size) else none

/-- `&input[..stop]`. -/
def sliceTo : List Char → ℕ → Option (List Char)
  | _, 0 => some []
  | [], _ + 1 => none
  | c :: rest, stop + 1 =>
    if c.utf8Size ≤ stop + 1 then (sliceTo rest (stop + 1 - c.utf8Size)).map (c :: ·) else none

/-- `&input[start..stop]`. -/
def slice (input : List Char) (start stop : ℕ) : Option (List Char) := do
  if stop < start then none
  else sliceTo (← sliceFrom input start) (stop - start)

/-- `text.find(pattern)`. -/
def findOffset (pattern : List Char) : List Char → Option ℕ
  | [] => if pattern = [] then some 0 else none
  | c :: rest =>
    if pattern.isPrefixOf (c :: rest) then some 0
    else (findOffset pattern rest).map (c.utf8Size + ·)

def toAsciiLowercase (text : List Char) : List Char := text.map Char.toLower

theorem toNat_toLower (c : Char) :
    c.toLower.toNat = if 65 ≤ c.toNat ∧ c.toNat ≤ 90 then c.toNat + 32 else c.toNat := by
  simp only [Char.toLower, ge_iff_le, UInt32.le_iff_toNat_le, Char.reduceVal, UInt32.reduceToNat]
  by_cases h : 65 ≤ c.toNat ∧ c.toNat ≤ 90
  · have hval : 65 ≤ c.val.toNat ∧ c.val.toNat ≤ 90 := h
    rw [dif_pos hval, if_pos h]
    change (c.val + 32).toNat = c.val.toNat + 32
    rw [UInt32.toNat_add]
    exact Nat.mod_eq_of_lt (by change c.val.toNat + 32 < 4294967296; omega)
  · have hval : ¬(65 ≤ c.val.toNat ∧ c.val.toNat ≤ 90) := h
    rw [dif_neg hval, if_neg h]

theorem char_eq_of_toNat {c d : Char} (h : c.toNat = d.toNat) : c = d := by
  apply Char.ext
  apply UInt32.toNat.inj
  exact h

theorem toLower_toLower (c : Char) : c.toLower.toLower = c.toLower := by
  apply char_eq_of_toNat
  rw [toNat_toLower, toNat_toLower]
  split_ifs <;> omega

theorem utf8Size_eq_one {c : Char} (h : c.toNat ≤ 127) : c.utf8Size = 1 :=
  Char.utf8Size_eq_one_iff.mpr (UInt32.le_iff_toNat_le.mpr h)

/-- Lowering a text moves no offset. -/
theorem utf8Size_toLower (c : Char) : c.toLower.utf8Size = c.utf8Size := by
  by_cases h : 65 ≤ c.toNat ∧ c.toNat ≤ 90
  · have hlower : c.toLower.toNat = c.toNat + 32 := by rw [toNat_toLower, if_pos h]
    rw [utf8Size_eq_one (by omega : c.toNat ≤ 127), utf8Size_eq_one]
    omega
  · have hlower : c.toLower = c := by
      apply char_eq_of_toNat
      rw [toNat_toLower, if_neg h]
    rw [hlower]

theorem toAsciiLowercase_toAsciiLowercase (text : List Char) :
    toAsciiLowercase (toAsciiLowercase text) = toAsciiLowercase text := by
  simp only [toAsciiLowercase, List.map_map]
  apply List.map_congr_left
  intro c _
  exact toLower_toLower c

theorem byteLen_toAsciiLowercase (text : List Char) :
    byteLen (toAsciiLowercase text) = byteLen text := by
  simp only [byteLen, toAsciiLowercase, List.map_map]
  congr 1
  apply List.map_congr_left
  intro c _
  exact utf8Size_toLower c

/-! ## Markers -/

def isSeparator (c : Char) : Bool := c = '=' || c = ':'

def isQuote (c : Char) : Bool := c = '"' || c = '\''

/-- The text starts with an escaped quote of either kind. -/
def startsEscapedQuote (text : List Char) : Bool :=
  ['\\', '"'].isPrefixOf text || ['\\', '\''].isPrefixOf text

/-- The loop of `skip_inline_key_suffix` over the characters after the key: how far the name goes,
unless whitespace ends it. -/
def inlineKeySuffix : List Char → Option ℕ
  | [] => some 0
  | c :: rest =>
    if isWhitespace c then none
    else if isSeparator c || isQuote c then some 0
    else if startsEscapedQuote (c :: rest) then some 0
    else (inlineKeySuffix rest).map (c.utf8Size + ·)

def skipInlineKeySuffix (input : List Char) (start : ℕ) : Option (Option ℕ) := do
  let rest ← sliceFrom input start
  return (inlineKeySuffix rest).map (start + ·)

def skipOptionalQuote (input : List Char) (start : ℕ) : Option ℕ := do
  let rest ← sliceFrom input start
  if startsEscapedQuote rest then return start + 2
  else if rest.head?.any isQuote then return start + 1
  else return start

def skipWhitespace (input : List Char) (start : ℕ) : Option ℕ := do
  let rest ← sliceFrom input start
  return start + byteLen (rest.takeWhile isWhitespace)

/-- The loop of `find_next_marker`; the marker is the offset at which its value starts. -/
def findNextMarkerFrom (input key : List Char) : ℕ → ℕ → Option (Option ℕ)
  | 0, _ => none
  | fuel + 1, cursor =>
    if cursor < byteLen input then do
      let rest ← sliceFrom (toAsciiLowercase input) cursor
      match findOffset key rest with
      | none => return none
      | some relativeIndex =>
        let delimiterIndex := cursor + relativeIndex + byteLen key
        match ← skipInlineKeySuffix input delimiterIndex with
        | none => findNextMarkerFrom input key fuel delimiterIndex
        | some suffixEnd =>
          let delimiterIndex ← skipOptionalQuote input suffixEnd
          let delimiterIndex ← skipWhitespace input delimiterIndex
          let rest ← sliceFrom input delimiterIndex
          if rest.head?.any isSeparator then return some (← skipWhitespace input (delimiterIndex + 1))
          else findNextMarkerFrom input key fuel delimiterIndex
    else return none

def findNextMarker (input key : List Char) (start : ℕ) : Option (Option ℕ) :=
  findNextMarkerFrom input key (byteLen input + 1) start

/-! ## Values -/

def isUnquotedValueDelimiter (c : Char) : Bool :=
  isWhitespace c || c = ',' || c = ';' || c = '}' || c = ']'

def nextUnquotedValueEnd (input : List Char) (start : ℕ) : Option ℕ := do
  let rest ← sliceFrom input start
  return start + byteLen (rest.takeWhile fun c ↦ !isUnquotedValueDelimiter c)

/-- An escaped quote closes a value unless its own backslash is escaped. -/
def escapedQuoteIsClosing (input : List Char) (candidate : ℕ) (escapedQuote : List Char) :
    Option Bool := do
  let rest ← sliceFrom input candidate
  let before ← sliceTo input candidate
  return escapedQuote.isPrefixOf rest && before.getLast?.all (· ≠ '\\')

/-- The loop of `escaped_quoted_value_span`. -/
def escapedValueEndFrom (input escapedQuote : List Char) : ℕ → ℕ → Option ℕ
  | 0, _ => none
  | fuel + 1, cursor => do
    let rest ← sliceFrom input cursor
    match findOffset escapedQuote rest with
    | none => return byteLen input
    | some offset =>
      let candidate := cursor + offset
      if ← escapedQuoteIsClosing input candidate escapedQuote then return candidate
      else escapedValueEndFrom input escapedQuote fuel (candidate + byteLen escapedQuote)

def escapedQuotedValueSpan (input : List Char) (valueStart : ℕ) (escapedQuote : List Char) :
    Option (Option (ℕ × ℕ)) := do
  let rest ← sliceFrom input valueStart
  if escapedQuote.isPrefixOf rest then
    let innerStart := valueStart + byteLen escapedQuote
    return some (innerStart, ← escapedValueEndFrom input escapedQuote (byteLen input + 1) innerStart)
  else return none

/-- The loop of `quoted_value_span` over the characters after the quote; a backslash takes the
character after it along. -/
def quotedLength (quote : Char) : List Char → ℕ
  | [] => 0
  | [c] => if c = quote then 0 else c.utf8Size
  | c :: escaped :: rest =>
    if c = quote then 0
    else if c = '\\' then c.utf8Size + escaped.utf8Size + quotedLength quote rest
    else c.utf8Size + quotedLength quote (escaped :: rest)

def quotedValueSpan (input : List Char) (valueStart : ℕ) : Option (Option (ℕ × ℕ)) := do
  if let some span ← escapedQuotedValueSpan input valueStart ['\\', '"'] then return some span
  if let some span ← escapedQuotedValueSpan input valueStart ['\\', '\''] then return some span
  match ← sliceFrom input valueStart with
  | quote :: rest =>
    if isQuote quote then
      let innerStart := valueStart + quote.utf8Size
      return some (innerStart, innerStart + quotedLength quote rest)
    else return none
  | [] => return none

def authorizationKey : List Char := "authorization".toList

def secretValueSpan (input : List Char) (valueStart : ℕ) (key : List Char) : Option (ℕ × ℕ) := do
  match ← quotedValueSpan input valueStart with
  | some span => return span
  | none =>
    let firstTokenEnd ← nextUnquotedValueEnd input valueStart
    if key = authorizationKey ∧ firstTokenEnd < byteLen input then
      let secondTokenStart ← skipWhitespace input firstTokenEnd
      if firstTokenEnd < secondTokenStart then
        return (valueStart, ← nextUnquotedValueEnd input secondTokenStart)
      else return (valueStart, firstTokenEnd)
    else return (valueStart, firstTokenEnd)

/-! ## The redactor -/

def placeholder : List Char := "[REDACTED]".toList

/-- The loop of `redact_inline_key_values`. -/
def redactInlineKeyValuesFrom (input key : List Char) : ℕ → ℕ → List Char → Option (List Char)
  | 0, _, _ => none
  | fuel + 1, cursor, output => do
    match ← findNextMarker input key cursor with
    | none => return output ++ (← sliceFrom input cursor)
    | some markerValueStart =>
      let (valueStart, valueEnd) ← secretValueSpan input markerValueStart key
      let output := output ++ (← slice input cursor valueStart) ++ placeholder
      redactInlineKeyValuesFrom input key fuel valueEnd output

def redactInlineKeyValues (input key : List Char) : Option (List Char) :=
  redactInlineKeyValuesFrom input key (byteLen input + 1) 0 []

/-- The secret keys, which are not empty and in lower case. -/
structure Redactor where
  secretKeys : List (List Char)
  nonempty : ∀ key ∈ secretKeys, key ≠ []
  lowercase : ∀ key ∈ secretKeys, toAsciiLowercase key = key

namespace Redactor

/-- `value.trim()`. -/
def trim (value : List Char) : List Char :=
  ((value.dropWhile isWhitespace).reverse.dropWhile isWhitespace).reverse

def new (secretKeys : List String) : Redactor where
  secretKeys := (secretKeys.map fun value ↦ toAsciiLowercase (trim value.toList)).filter (· ≠ [])
  nonempty := by
    simp
  lowercase key hkey := by
    obtain ⟨value, _, rfl⟩ := List.mem_map.mp (List.mem_filter.mp hkey).1
    exact toAsciiLowercase_toAsciiLowercase _

def redactValue (self : Redactor) (value : List Char) : Option (List Char) :=
  self.secretKeys.foldlM redactInlineKeyValues value

def default : Redactor := new ["secret", "token", "password", "authorization"]

end Redactor

end FerrisBridge
