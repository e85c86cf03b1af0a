import FerrisBridge.Foundations.Json

/-!
# JSON texts

A document as it is printed in some layout, on one line or on several, and a reader of texts: a printer
and a reader for what takes them as parameters. The reader gives back a printed document whose numbers are
unsigned integers. The numbers of the reader's recursions are bounded by the length of the text.
-/

namespace Foundations.Json

/-! ## Strings -/

/-- The characters with an escape of their own. -/
def escapes : List (Char × Char) :=
  [('"', '"'), ('\\', '\\'), ('\x08', 'b'), ('\x0c', 'f'), ('\n', 'n'), ('\r', 'r'), ('\t', 't')]

def escape (c : Char) : List Char :=
  match escapes.find? (·.1 = c) with
  | some (_, name) => ['\\', name]
  | none =>
    if c.toNat < 32 then
      ['\\', 'u', '0', '0', Nat.digitChar (c.toNat / 16), Nat.digitChar (c.toNat % 16)]
    else [c]

def unescape (name : Char) : Option Char :=
  if name = '/' then some '/' else (escapes.find? (·.2 = name)).map (·.1)

/-- The value of a hexadecimal digit. -/
def hexValue (c : Char) : Option ℕ :=
  if c.isDigit then some (c.toNat - 48)
  else if 'a' ≤ c ∧ c ≤ 'f' then some (c.toNat - 87)
  else if 'A' ≤ c ∧ c ≤ 'F' then some (c.toNat - 55)
  else none

/-- The character of a code point that is not half of a pair. -/
def ofCode (code : ℕ) : Option Char :=
  if code.isValidChar then some (.ofNat code) else none

/-- The number of four hexadecimal digits. -/
def codeUnit (h₃ h₂ h₁ h₀ : Char) : Option ℕ := do
  let high := (← hexValue h₃) * 16 + (← hexValue h₂)
  let low := (← hexValue h₁) * 16 + (← hexValue h₀)
  return high * 256 + low

/-- The first half of a surrogate pair. -/
def isLeading (code : ℕ) : Bool := 0xD800 ≤ code ∧ code < 0xDC00

/-- The character of a surrogate pair. -/
def ofPair (leading trailing : ℕ) : Option Char :=
  if 0xDC00 ≤ trailing ∧ trailing < 0xE000 then
    ofCode (0x10000 + (leading - 0xD800) * 0x400 + (trailing - 0xDC00))
  else none

/-- What follows the opening quotation mark of a string, up to the closing one. -/
def readString : List Char → Option (List Char × List Char)
  | [] => none
  | c :: rest =>
    if c = '"' then some ([], rest)
    else if c = '\\' then
      match rest with
      | [] => none
      | name :: rest =>
        if name = 'u' then
          match rest with
          | h₃ :: h₂ :: h₁ :: h₀ :: rest => do
            let code ← codeUnit h₃ h₂ h₁ h₀
            if isLeading code then
              match rest with
              | backslash :: name :: l₃ :: l₂ :: l₁ :: l₀ :: rest => do
                guard (backslash = '\\' ∧ name = 'u')
                let c ← ofPair code (← codeUnit l₃ l₂ l₁ l₀)
                let (text, rest) ← readString rest
                return (c :: text, rest)
              | _ => none
            else do
              let c ← ofCode code
              let (text, rest) ← readString rest
              return (c :: text, rest)
          | _ => none
        else do
          let c ← unescape name
          let (text, rest) ← readString rest
          return (c :: text, rest)
    else if c.toNat < 32 then none
    else do
      let (text, rest) ← readString rest
      return (c :: text, rest)

def quoted (text : String) : List Char := '"' :: (text.toList.flatMap escape ++ ['"'])

variable {c : Char} {rest more text : List Char}

theorem hexValue_digitChar {digit : ℕ} (h : digit < 16) : hexValue (Nat.digitChar digit) = some digit :=
  (by decide : ∀ digit < 16, hexValue (Nat.digitChar digit) = some digit) digit h

theorem ofCode_toNat (c : Char) : ofCode c.toNat = some c := by
  have hvalid : c.toNat.isValidChar := c.valid
  rw [ofCode, if_pos hvalid, Char.ofNat_toNat]

theorem readString_char (hquote : c ≠ '"') (hbackslash : c ≠ '\\') (hcontrol : ¬c.toNat < 32)
    (h : readString rest = some (text, more)) : readString (c :: rest) = some (c :: text, more) := by
  rw [readString.eq_def]
  simp [hquote, hbackslash, hcontrol, h]

theorem readString_name {name : Char} (hname : name ≠ 'u') (hc : unescape name = some c)
    (h : readString rest = some (text, more)) :
    readString ('\\' :: name :: rest) = some (c :: text, more) := by
  rw [readString.eq_def]
  simp [hname, hc, h]

theorem readString_code (hcontrol : c.toNat < 32) (h : readString rest = some (text, more)) :
    readString ('\\' :: 'u' :: '0' :: '0' :: Nat.digitChar (c.toNat / 16) ::
      Nat.digitChar (c.toNat % 16) :: rest) = some (c :: text, more) := by
  have hzero : hexValue '0' = some 0 := by decide
  have hhigh : hexValue (Nat.digitChar (c.toNat / 16)) = some (c.toNat / 16) :=
    hexValue_digitChar (by omega)
  have hlow : hexValue (Nat.digitChar (c.toNat % 16)) = some (c.toNat % 16) :=
    hexValue_digitChar (by omega)
  have hunit : codeUnit '0' '0' (Nat.digitChar (c.toNat / 16)) (Nat.digitChar (c.toNat % 16)) =
      some c.toNat := by
    have hsum : (0 * 16 + 0) * 256 + (c.toNat / 16 * 16 + c.toNat % 16) = c.toNat := by omega
    simp only [codeUnit, hzero, hhigh, hlow, Option.bind_eq_bind, Option.bind_some, hsum]
    rfl
  have hleading : isLeading c.toNat = false := by
    rw [isLeading, decide_eq_false_iff_not]
    omega
  rw [readString.eq_def]
  simp [hunit, hleading, ofCode_toNat, h]

/-- The reader takes back the escape of a character. -/
theorem readString_escape (h : readString rest = some (text, more)) :
    readString (escape c ++ rest) = some (c :: text, more) := by
  unfold escape
  cases hfind : escapes.find? (fun pair ↦ pair.1 = c) with
  | some pair =>
    have hc : pair.1 = c := by simpa using List.find?_some hfind
    have hpair : pair.2 ≠ 'u' ∧ unescape pair.2 = some pair.1 :=
      (by decide : ∀ pair ∈ escapes, pair.2 ≠ 'u' ∧ unescape pair.2 = some pair.1) pair
        (List.mem_of_find?_eq_some hfind)
    exact hc ▸ readString_name hpair.1 hpair.2 h
  | none =>
    have hnone : ∀ pair ∈ escapes, pair.1 ≠ c := by simpa using List.find?_eq_none.mp hfind
    by_cases hcontrol : c.toNat < 32
    · simp only [if_pos hcontrol]
      exact readString_code hcontrol h
    · simp only [if_neg hcontrol]
      have hquote : ('"', '"') ∈ escapes := by decide
      have hbackslash : ('\\', '\\') ∈ escapes := by decide
      exact readString_char (hnone _ hquote).symm (hnone _ hbackslash).symm hcontrol h

theorem readString_quoted (text : List Char) :
    readString (text.flatMap escape ++ '"' :: rest) = some (text, rest) := by
  induction text with
  | nil =>
    rw [List.flatMap_nil, List.nil_append, readString.eq_def]
    rfl
  | cons c text ih =>
    rw [List.flatMap_cons, List.append_assoc]
    exact readString_escape ih

/-! ## Printing -/

def isSpace (c : Char) : Bool := c = ' ' || c = '\n' || c = '\r' || c = '\t'

/-- The spaces before an item at some depth, and after a colon. -/
structure Layout where
  newline : ℕ → List Char
  gap : List Char
  isSpace_newline : ∀ depth, ∀ c ∈ newline depth, isSpace c = true
  isSpace_gap : ∀ c ∈ gap, isSpace c = true

/-- Everything on one line. -/
def compact : Layout where
  newline _ := []
  gap := []
  isSpace_newline _ := List.forall_mem_nil _
  isSpace_gap := List.forall_mem_nil _

/-- Every item on a line of its own. -/
def pretty : Layout where
  newline depth := '\n' :: List.replicate (2 * depth) ' '
  gap := [' ']
  isSpace_newline depth := by
    intro c hc
    rcases List.mem_cons.mp hc with rfl | hc
    · rfl
    · rw [List.eq_of_mem_replicate hc]
      rfl
  isSpace_gap := List.forall_mem_singleton.mpr rfl

section Layout

variable (layout : Layout)

/-- The texts after the first one, and the closing bracket. -/
def closing (bracket : Char) (depth : ℕ) : List (List Char) → List Char
  | [] => layout.newline depth ++ [bracket]
  | text :: texts => ',' :: (layout.newline (depth + 1) ++ (text ++ closing bracket depth texts))

/-- The texts between brackets, after the opening bracket. -/
def bracketed (bracket : Char) (depth : ℕ) : List (List Char) → List Char
  | [] => [bracket]
  | text :: texts => layout.newline (depth + 1) ++ (text ++ closing layout bracket depth texts)

mutual

def printed (depth : ℕ) : Json → List Char
  | .null => ['n', 'u', 'l', 'l']
  | .bool true => ['t', 'r', 'u', 'e']
  | .bool false => ['f', 'a', 'l', 's', 'e']
  | .integer value => Nat.toDigits 10 value
  | .decimal text => text.toList
  | .string value => quoted value
  | .array items => '[' :: bracketed layout ']' depth (printedItems (depth + 1) items)
  | .object members => '{' :: bracketed layout '}' depth (printedMembers (depth + 1) members)

def printedItems (depth : ℕ) : List Json → List (List Char)
  | [] => []
  | item :: items => printed depth item :: printedItems depth items

def printedMembers (depth : ℕ) : List (String × Json) → List (List Char)
  | [] => []
  | (name, value) :: members =>
    (quoted name ++ (':' :: (layout.gap ++ printed depth value))) :: printedMembers depth members

end

def printedMember (depth : ℕ) (member : String × Json) : List Char :=
  quoted member.1 ++ (':' :: (layout.gap ++ printed layout depth member.2))

theorem printedItems_eq (depth : ℕ) (items : List Json) :
    printedItems layout depth items = items.map (printed layout depth) := by
  induction items with
  | nil => rfl
  | cons item items ih => rw [printedItems, ih, List.map_cons]

theorem printedMembers_eq (depth : ℕ) (members : List (String × Json)) :
    printedMembers layout depth members = members.map (printedMember layout depth) := by
  induction members with
  | nil => rfl
  | cons member members ih =>
    obtain ⟨name, value⟩ := member
    rw [printedMembers, ih, List.map_cons, printedMember]

end Layout

/-- The text of a document on several lines. -/
def printPretty (document : Json) : String := .ofList (printed pretty 0 document)

/-! ## Reading -/

def skip (text : List Char) : List Char := text.dropWhile isSpace

/-- The text after a character, which spaces may precede. -/
def expect (c : Char) (text : List Char) : Option (List Char) :=
  match skip text with
  | [] => none
  | first :: rest => if first = c then some rest else none

/-- Texts that commas separate, up to the closing bracket. -/
def readSeparated {α : Type} (read : List Char → Option (α × List Char)) (bracket : Char) :
    ℕ → List Char → Option (List α × List Char)
  | 0, _ => none
  | fuel + 1, text => do
    let (a, rest) ← read text
    match expect ',' rest with
    | some rest =>
      let (list, rest) ← readSeparated read bracket fuel rest
      return (a :: list, rest)
    | none =>
      let rest ← expect bracket rest
      return ([a], rest)

def readBracketed {α : Type} (read : List Char → Option (α × List Char)) (bracket : Char)
    (fuel : ℕ) (text : List Char) : Option (List α × List Char) :=
  match expect bracket text with
  | some rest => some ([], rest)
  | none => readSeparated read bracket fuel text

def readMember (read : List Char → Option (Json × List Char)) (text : List Char) :
    Option ((String × Json) × List Char) := do
  let rest ← expect '"' text
  let (name, rest) ← readString rest
  let rest ← expect ':' rest
  let (value, rest) ← read rest
  return ((.ofList name, value), rest)

def isNumberChar (c : Char) : Bool :=
  c.isDigit || c = '-' || c = '+' || c = '.' || c = 'e' || c = 'E'

def ofName : List Char → Option Json
  | ['n', 'u', 'l', 'l'] => some .null
  | ['t', 'r', 'u', 'e'] => some (.bool true)
  | ['f', 'a', 'l', 's', 'e'] => some (.bool false)
  | _ => none

/-- What follows one digit or more. -/
def afterDigits : List Char → Option (List Char)
  | [] => none
  | c :: rest => if c.isDigit then some (rest.dropWhile Char.isDigit) else none

/-- What follows an integer, which has no leading zero. -/
def afterInteger : List Char → Option (List Char)
  | [] => none
  | c :: rest => if c = '0' then some rest else afterDigits (c :: rest)

def afterFraction : List Char → Option (List Char)
  | [] => some []
  | c :: rest => if c = '.' then afterDigits rest else some (c :: rest)

def afterExponent : List Char → Option (List Char)
  | [] => some []
  | c :: rest =>
    if c = 'e' ∨ c = 'E' then
      afterDigits (if rest.head?.any fun sign ↦ sign = '+' || sign = '-' then rest.tail else rest)
    else some (c :: rest)

def isNumber (text : List Char) : Bool :=
  let unsigned := if text.head? = some '-' then text.tail else text
  (afterInteger unsigned >>= afterFraction >>= afterExponent) = some []

def ofNumber (number : List Char) : Option Json :=
  if ¬isNumber number then none
  else if number.all Char.isDigit then some (.integer (Nat.ofDigitChars 10 number 0))
  else some (.decimal (.ofList number))

/-- A name or a number. -/
def readScalar (text : List Char) : Option (Json × List Char) :=
  if text.head?.any Char.isAlpha then
    (ofName (text.takeWhile Char.isAlpha)).map fun document ↦ (document, text.dropWhile Char.isAlpha)
  else
    (ofNumber (text.takeWhile isNumberChar)).map fun document ↦ (document, text.dropWhile isNumberChar)

def readValue : ℕ → List Char → Option (Json × List Char)
  | 0, _ => none
  | fuel + 1, text =>
    match skip text with
    | [] => none
    | c :: rest =>
      if c = '[' then
        (readBracketed (readValue fuel) ']' fuel rest).map fun pair ↦ (.array pair.1, pair.2)
      else if c = '{' then
        (readBracketed (readMember (readValue fuel)) '}' fuel rest).map fun pair ↦
          (.object pair.1, pair.2)
      else if c = '"' then
        (readString rest).map fun pair ↦ (.string (.ofList pair.1), pair.2)
      else readScalar (c :: rest)

/-- A document and nothing but spaces after it. -/
def readText (text : String) : Except String Json :=
  match readValue (text.toList.length + 1) text.toList with
  | none => .error "expected value"
  | some (document, rest) =>
    if skip rest = [] then .ok document else .error "trailing characters"

/-! ## Round trip -/

/-- Documents whose numbers are unsigned integers. -/
inductive Printable : Json → Prop
  | null : Printable .null
  | bool (value : Bool) : Printable (.bool value)
  | integer (value : ℕ) : Printable (.integer value)
  | string (value : String) : Printable (.string value)
  | array {items : List Json} (all : ∀ item ∈ items, Printable item) : Printable (.array items)
  | object {members : List (String × Json)} (all : ∀ member ∈ members, Printable member.2) :
    Printable (.object members)

/-- A character that ends a name or a number. -/
def Separates (c : Char) : Prop := c.isAlpha = false ∧ isNumberChar c = false

instance (c : Char) : Decidable (Separates c) := inferInstanceAs (Decidable (_ ∧ _))

/-- The reader takes a value off a text, with spaces before it. -/
def Takes {α : Type} (read : List Char → Option (α × List Char)) (text : List Char) (a : α) : Prop :=
  ∀ spaces rest : List Char, (∀ c ∈ spaces, isSpace c = true) → (∀ c ∈ rest.head?, Separates c) →
    read (spaces ++ (text ++ rest)) = some (a, rest)

theorem skip_append {spaces : List Char} (h : ∀ c ∈ spaces, isSpace c = true) :
    skip (spaces ++ rest) = skip rest := by
  rw [skip, List.dropWhile_append_of_pos h, skip]

theorem skip_cons (h : isSpace c = false) : skip (c :: rest) = c :: rest :=
  List.dropWhile_cons_of_neg (by rw [h]; exact Bool.false_ne_true)

theorem expect_append {spaces : List Char} (h : ∀ c ∈ spaces, isSpace c = true) {first : Char}
    (hfirst : isSpace first = false) :
    expect c (spaces ++ first :: rest) = if first = c then some rest else none := by
  rw [expect, skip_append h, skip_cons hfirst]

variable {layout : Layout}

theorem separates_of_isSpace (h : isSpace c = true) : Separates c := by
  simp only [isSpace, Bool.or_eq_true, decide_eq_true_eq] at h
  rcases h with ((rfl | rfl) | rfl) | rfl <;> decide

theorem separates_of_mem_head?_closing {bracket : Char} (hbracket : Separates bracket) {depth : ℕ}
    {texts : List (List Char)} :
    ∀ c ∈ (closing layout bracket depth texts ++ rest).head?, Separates c := by
  intro c hc
  cases texts with
  | nil =>
    rw [closing] at hc
    cases hnewline : layout.newline depth with
    | nil =>
      rw [hnewline] at hc
      obtain rfl := Option.some.inj hc
      exact hbracket
    | cons space spaces =>
      rw [hnewline] at hc
      obtain rfl := Option.some.inj hc
      exact separates_of_isSpace (layout.isSpace_newline depth _ (hnewline ▸ List.mem_cons_self))
  | cons text texts =>
    obtain rfl := Option.some.inj hc
    decide

section Lists

variable {α : Type} {read : List Char → Option (α × List Char)} {print : α → List Char} {list : List α}
  {bracket : Char} {depth fuel : ℕ}

theorem readSeparated_closing (hspace : isSpace bracket = false) (hcomma : bracket ≠ ',')
    (hbracket : Separates bracket) {a : α}
    (ha : Takes read (print a) a) (htakes : ∀ b ∈ list, Takes read (print b) b)
    (hfuel : list.length < fuel) :
    readSeparated read bracket fuel
        (layout.newline (depth + 1) ++ (print a ++ (closing layout bracket depth (list.map print) ++ rest))) =
      some (a :: list, rest) := by
  induction list generalizing a fuel with
  | nil =>
    cases fuel with
    | zero => cases hfuel
    | succ fuel =>
      have hread := ha (layout.newline (depth + 1)) (closing layout bracket depth [] ++ rest)
        (layout.isSpace_newline _) (separates_of_mem_head?_closing hbracket)
      have hend (c : Char) : expect c (closing layout bracket depth [] ++ rest) =
          if bracket = c then some rest else none := by
        rw [closing, List.append_assoc]
        exact expect_append (layout.isSpace_newline _) hspace
      rw [List.map_nil, readSeparated, hread]
      simp [hend, hcomma]
  | cons b list ih =>
    cases fuel with
    | zero => cases hfuel
    | succ fuel =>
      rw [List.map_cons]
      have hread := ha (layout.newline (depth + 1)) (closing layout bracket depth (print b :: list.map print) ++ rest)
        (layout.isSpace_newline _) (separates_of_mem_head?_closing hbracket)
      have hnext : expect ',' (closing layout bracket depth (print b :: list.map print) ++ rest) =
          some (layout.newline (depth + 1) ++ (print b ++ (closing layout bracket depth (list.map print) ++ rest))) := by
        rw [closing, List.cons_append, List.append_assoc, List.append_assoc, expect, skip_cons rfl]
        exact if_pos rfl
      have hrest := ih (htakes b List.mem_cons_self) (fun c hc ↦ htakes c (List.mem_cons_of_mem _ hc))
        (Nat.lt_of_succ_lt_succ hfuel)
      rw [readSeparated, hread]
      simp [hnext, hrest]

/-- A text does not begin like a space or a closing bracket. -/
def Opens (text : List Char) : Prop :=
  ∃ c more, text = c :: more ∧ isSpace c = false ∧ c ≠ ']' ∧ c ≠ '}'

theorem readBracketed_bracketed (hbracket : bracket = ']' ∨ bracket = '}')
    (htakes : ∀ a ∈ list, Takes read (print a) a) (hopens : ∀ a ∈ list, Opens (print a))
    (hfuel : list.length ≤ fuel) :
    readBracketed read bracket fuel (bracketed layout bracket depth (list.map print) ++ rest) =
      some (list, rest) := by
  have hspace : isSpace bracket = false := by rcases hbracket with rfl | rfl <;> decide
  have hcomma : bracket ≠ ',' := by rcases hbracket with rfl | rfl <;> decide
  have hseparates : Separates bracket := by rcases hbracket with rfl | rfl <;> decide
  cases list with
  | nil =>
    have hend : expect bracket ([bracket] ++ rest) = some rest := by
      rw [List.singleton_append, expect, skip_cons hspace]
      exact if_pos rfl
    rw [List.map_nil, bracketed, readBracketed, hend]
  | cons a list =>
    obtain ⟨c, more, htext, hc, hsquare, hcurly⟩ := hopens a List.mem_cons_self
    have hne : c ≠ bracket := by
      rcases hbracket with rfl | rfl
      · exact hsquare
      · exact hcurly
    have hstart : expect bracket (bracketed layout bracket depth ((a :: list).map print) ++ rest) = none := by
      rw [List.map_cons, bracketed, htext, List.append_assoc, List.cons_append]
      exact (expect_append (layout.isSpace_newline _) hc).trans (if_neg hne)
    rw [readBracketed, hstart, List.map_cons, bracketed, List.append_assoc, List.append_assoc]
    exact readSeparated_closing hspace hcomma hseparates (htakes a List.mem_cons_self)
      (fun b hb ↦ htakes b (List.mem_cons_of_mem _ hb)) hfuel

end Lists

/-- A text is shorter than the brackets around it. -/
theorem length_lt_of_mem {bracket : Char} {depth : ℕ} {texts : List (List Char)} :
    texts.length ≤ (bracketed layout bracket depth texts).length ∧
      ∀ text ∈ texts, text.length < (bracketed layout bracket depth texts).length := by
  have hclosing (texts : List (List Char)) : texts.length < (closing layout bracket depth texts).length ∧
      ∀ text ∈ texts, text.length < (closing layout bracket depth texts).length := by
    induction texts with
    | nil => simp [closing]
    | cons text texts ih =>
      simp only [closing, List.length_cons, List.length_append, List.forall_mem_cons]
      refine ⟨by omega, by omega, fun other hother ↦ ?_⟩
      have := ih.2 other hother
      omega
  cases texts with
  | nil => simp [bracketed]
  | cons text texts =>
    have hrest := hclosing texts
    simp only [bracketed, List.length_append, List.length_cons, List.forall_mem_cons]
    refine ⟨by omega, by omega, fun other hother ↦ ?_⟩
    have := hrest.2 other hother
    omega

theorem takeWhile_word {p : Char → Bool} {word : List Char} (hword : ∀ c ∈ word, p c = true)
    (hrest : ∀ c ∈ rest.head?, p c = false) :
    (word ++ rest).takeWhile p = word ∧ (word ++ rest).dropWhile p = rest := by
  rw [List.takeWhile_append_of_pos hword, List.dropWhile_append_of_pos hword]
  cases rest with
  | nil => exact ⟨List.append_nil word, rfl⟩
  | cons c rest =>
    have hc : ¬p c = true := by
      rw [hrest c rfl]
      exact Bool.false_ne_true
    rw [List.takeWhile_cons_of_neg hc, List.dropWhile_cons_of_neg hc]
    exact ⟨List.append_nil word, rfl⟩

/-- A value whose text is a name or a number. -/
theorem takes_scalar {fuel : ℕ} {document : Json} (hc : isSpace c = false)
    (hplain : c ≠ '[' ∧ c ≠ '{' ∧ c ≠ '"')
    (hscalar : ∀ rest : List Char, (∀ c ∈ rest.head?, Separates c) →
      readScalar (c :: text ++ rest) = some (document, rest)) :
    Takes (readValue (fuel + 1)) (c :: text) document := by
  intro spaces rest hspaces hrest
  rw [readValue, skip_append hspaces, List.cons_append, skip_cons hc]
  simp only [hplain, if_false]
  exact hscalar rest hrest

theorem takes_name {fuel : ℕ} {document : Json} {word : List Char}
    (hname : ofName (c :: word) = some document) (hletters : (c :: word).all Char.isAlpha = true)
    (hc : isSpace c = false) (hplain : c ≠ '[' ∧ c ≠ '{' ∧ c ≠ '"') :
    Takes (readValue (fuel + 1)) (c :: word) document := by
  apply takes_scalar hc hplain
  intro rest hrest
  have hword := List.all_eq_true.mp hletters
  obtain ⟨htake, hdrop⟩ := takeWhile_word hword fun c hc ↦ (hrest c hc).1
  have hhead : (c :: word ++ rest).head?.any Char.isAlpha = true := hword c List.mem_cons_self
  rw [readScalar, if_pos hhead, htake, hdrop, hname]
  rfl

/-- A digit is none of the characters with a meaning of their own. -/
theorem plain_of_isDigit (h : c.isDigit = true) : c.isAlpha = false ∧ isSpace c = false ∧
    (c ≠ '[' ∧ c ≠ '{' ∧ c ≠ '"') ∧ c ≠ ']' ∧ c ≠ '}' := by
  have hne (other : Char) (hother : other.isDigit = false) : c ≠ other := by
    rintro rfl
    cases h.symm.trans hother
  have hletter : c.isAlpha = false := by
    simp only [Char.isDigit, Char.isAlpha, Char.isUpper, Char.isLower, Bool.and_eq_true,
      decide_eq_true_eq, Bool.or_eq_false_iff, Bool.and_eq_false_iff, decide_eq_false_iff_not,
      ge_iff_le, UInt32.le_iff_toNat_le] at h ⊢
    change 48 ≤ c.toNat ∧ c.toNat ≤ 57 at h
    change ¬(65 ≤ c.toNat ∧ c.toNat ≤ 90) ∧ (¬97 ≤ c.toNat ∨ ¬c.toNat ≤ 122)
    omega
  refine ⟨hletter, ?_, ⟨hne '[' rfl, hne '{' rfl, hne '"' rfl⟩, hne ']' rfl, hne '}' rfl⟩
  simp [isSpace, hne ' ' rfl, hne '\n' rfl, hne '\r' rfl, hne '\t' rfl]

/-- The digits of a number start with a zero for zero only. -/
theorem toDigits_zero_cons {value : ℕ} {digits : List Char}
    (h : Nat.toDigits 10 value = '0' :: digits) : digits = [] := by
  induction value using Nat.strong_induction_on generalizing digits with
  | _ value ih =>
    by_cases hlt : value < 10
    · rw [Nat.toDigits_of_lt_base hlt] at h
      exact (List.cons.inj h).2.symm
    · rw [Nat.toDigits_of_base_le (by decide) (by omega)] at h
      cases hfront : Nat.toDigits 10 (value / 10) with
      | nil => exact absurd hfront Nat.toDigits_ne_nil
      | cons c front =>
        rw [hfront, List.cons_append] at h
        obtain ⟨rfl, -⟩ := List.cons.inj h
        obtain rfl := ih (value / 10) (by omega) hfront
        have hzero : Nat.ofDigitChars 10 (Nat.toDigits 10 (value / 10)) 0 = value / 10 :=
          Nat.ofDigitChars_ten_toDigits
        rw [hfront] at hzero
        have hsmall : value / 10 = 0 := hzero.symm
        omega

theorem isNumber_toDigits (value : ℕ) : isNumber (Nat.toDigits 10 value) = true := by
  have hdigits : ∀ c ∈ Nat.toDigits 10 value, c.isDigit = true :=
    fun c hc ↦ Nat.isDigit_of_mem_toDigits (by decide) (by decide) hc
  cases htext : Nat.toDigits 10 value with
  | nil => exact absurd htext Nat.toDigits_ne_nil
  | cons c digits =>
    rw [htext] at hdigits
    have hc := hdigits c List.mem_cons_self
    have hsign : ¬(c :: digits).head? = some '-' := by
      intro hsign
      obtain rfl := Option.some.inj hsign
      cases hc
    have hinteger : afterInteger (c :: digits) = some [] := by
      by_cases hzero : c = '0'
      · subst hzero
        rw [afterInteger, if_pos rfl, toDigits_zero_cons htext]
      · have hrest : digits.dropWhile Char.isDigit = [] :=
          List.dropWhile_eq_nil_iff.mpr fun d hd ↦ hdigits d (List.mem_cons_of_mem c hd)
        rw [afterInteger, if_neg hzero, afterDigits, if_pos hc, hrest]
    simp only [isNumber, if_neg hsign, hinteger]
    rfl

theorem takes_integer {fuel value : ℕ} :
    Takes (readValue (fuel + 1)) (Nat.toDigits 10 value) (.integer value) := by
  have hdigits : ∀ c ∈ Nat.toDigits 10 value, c.isDigit = true :=
    fun c hc ↦ Nat.isDigit_of_mem_toDigits (by decide) (by decide) hc
  have hnumber : ∀ c ∈ Nat.toDigits 10 value, isNumberChar c = true := by
    intro c hc
    rw [isNumberChar, hdigits c hc]
    rfl
  have hvalue : ofNumber (Nat.toDigits 10 value) = some (.integer value) := by
    rw [ofNumber, if_neg (not_not_intro (isNumber_toDigits value)), if_pos (List.all_eq_true.mpr hdigits),
      Nat.ofDigitChars_ten_toDigits]
  cases htext : Nat.toDigits 10 value with
  | nil => exact absurd htext Nat.toDigits_ne_nil
  | cons c text =>
    rw [htext] at hdigits hnumber hvalue
    obtain ⟨halpha, hspace, hplain, -⟩ := plain_of_isDigit (hdigits c List.mem_cons_self)
    apply takes_scalar hspace hplain
    intro rest hrest
    obtain ⟨htake, hdrop⟩ := takeWhile_word hnumber fun c hc ↦ (hrest c hc).2
    have hhead : ¬(c :: text ++ rest).head?.any Char.isAlpha = true := by
      rw [show (c :: text ++ rest).head?.any Char.isAlpha = c.isAlpha from rfl, halpha]
      exact Bool.false_ne_true
    rw [readScalar, if_neg hhead, htake, hdrop, hvalue]
    rfl

theorem takes_string {fuel : ℕ} (value : String) :
    Takes (readValue (fuel + 1)) (quoted value) (.string value) := by
  intro spaces rest hspaces _
  rw [readValue, skip_append hspaces, quoted, List.cons_append, List.append_assoc,
    List.singleton_append, skip_cons (c := '"') rfl]
  simp [readString_quoted]

theorem takes_member {read : List Char → Option (Json × List Char)} {depth : ℕ}
    {member : String × Json} (h : Takes read (printed layout depth member.2) member.2) :
    Takes (readMember read) (printedMember layout depth member) member := by
  intro spaces rest hspaces hrest
  have hvalue := h layout.gap rest layout.isSpace_gap hrest
  have hcolon : expect ':' (':' :: (layout.gap ++ (printed layout depth member.2 ++ rest))) =
      some (layout.gap ++ (printed layout depth member.2 ++ rest)) := by
    rw [expect, skip_cons rfl]
    exact if_pos rfl
  have hquote : expect '"' (spaces ++ '"' :: (member.1.toList.flatMap escape ++
      '"' :: ':' :: (layout.gap ++ (printed layout depth member.2 ++ rest)))) =
        some (member.1.toList.flatMap escape ++
          '"' :: ':' :: (layout.gap ++ (printed layout depth member.2 ++ rest))) := by
    rw [expect_append hspaces rfl]
    exact if_pos rfl
  rw [readMember, printedMember, quoted]
  simp only [List.cons_append, List.append_assoc, List.nil_append]
  rw [hquote]
  simp [readString_quoted, hcolon, hvalue]

/-! ### Documents -/

theorem Printable.opens {document : Json} (h : Printable document) (depth : ℕ) :
    Opens (printed layout depth document) := by
  cases h with
  | integer value =>
    cases htext : Nat.toDigits 10 value with
    | nil => exact absurd htext Nat.toDigits_ne_nil
    | cons c more =>
      have hdigit : c.isDigit = true :=
        Nat.isDigit_of_mem_toDigits (by decide) (by decide) (htext ▸ List.mem_cons_self)
      obtain ⟨-, hspace, -, hsquare, hcurly⟩ := plain_of_isDigit hdigit
      exact ⟨c, more, htext, hspace, hsquare, hcurly⟩
  | bool value => cases value <;> exact ⟨_, _, rfl, by decide, by decide, by decide⟩
  | null | string | array | object => exact ⟨_, _, rfl, by decide, by decide, by decide⟩

theorem opens_printedMember (depth : ℕ) (member : String × Json) :
    Opens (printedMember layout depth member) :=
  ⟨_, _, rfl, by decide, by decide, by decide⟩

theorem takes_array {depth fuel : ℕ} {items : List Json}
    (htakes : ∀ item ∈ items, Takes (readValue fuel) (printed layout (depth + 1) item) item)
    (hopens : ∀ item ∈ items, Opens (printed layout (depth + 1) item)) (hfuel : items.length ≤ fuel) :
    Takes (readValue (fuel + 1)) (printed layout depth (.array items)) (.array items) := by
  intro spaces rest hspaces _
  rw [readValue, skip_append hspaces, printed, List.cons_append, skip_cons (c := '[') rfl,
    printedItems_eq]
  simp only [if_true]
  rw [readBracketed_bracketed (.inl rfl) htakes hopens hfuel]
  rfl

theorem takes_object {depth fuel : ℕ} {members : List (String × Json)}
    (htakes : ∀ member ∈ members, Takes (readValue fuel) (printed layout (depth + 1) member.2) member.2)
    (hfuel : members.length ≤ fuel) :
    Takes (readValue (fuel + 1)) (printed layout depth (.object members)) (.object members) := by
  intro spaces rest hspaces _
  rw [readValue, skip_append hspaces, printed, List.cons_append, skip_cons (c := '{') rfl,
    printedMembers_eq]
  simp only [if_true, Char.reduceEq, if_false]
  rw [readBracketed_bracketed (.inr rfl) (fun member hmember ↦ takes_member (htakes member hmember))
    (fun member _ ↦ opens_printedMember _ member) hfuel]
  rfl

/-- A printed document is read back from any longer text. -/
theorem Printable.takes {document : Json} (h : Printable document) :
    ∀ depth fuel : ℕ, (printed layout depth document).length ≤ fuel →
      Takes (readValue fuel) (printed layout depth document) document := by
  have hfuel {document : Json} (h : Printable document) {depth fuel : ℕ}
      (hlength : (printed layout depth document).length ≤ fuel) : ∃ fuel', fuel = fuel' + 1 := by
    obtain ⟨c, more, htext, -⟩ := h.opens depth
    rw [htext, List.length_cons] at hlength
    exact ⟨fuel - 1, by omega⟩
  induction h with
  | null =>
    intro depth fuel hlength
    obtain ⟨fuel, rfl⟩ := hfuel .null hlength
    exact takes_name rfl (by decide) (by decide) (by decide)
  | bool value =>
    intro depth fuel hlength
    obtain ⟨fuel, rfl⟩ := hfuel (.bool value) hlength
    cases value
    · exact takes_name rfl (by decide) (by decide) (by decide)
    · exact takes_name rfl (by decide) (by decide) (by decide)
  | integer value =>
    intro depth fuel hlength
    obtain ⟨fuel, rfl⟩ := hfuel (.integer value) hlength
    exact takes_integer
  | string value =>
    intro depth fuel hlength
    obtain ⟨fuel, rfl⟩ := hfuel (.string value) hlength
    exact takes_string value
  | @array items all ih =>
    intro depth fuel hlength
    obtain ⟨fuel, rfl⟩ := hfuel (.array all) hlength
    rw [printed, List.length_cons, printedItems_eq] at hlength
    have hshort := @length_lt_of_mem layout ']' depth (items.map (printed layout (depth + 1)))
    rw [List.length_map] at hshort
    apply takes_array _ (fun item hitem ↦ (all item hitem).opens _) (by omega)
    intro item hitem
    have := hshort.2 _ (List.mem_map_of_mem hitem)
    exact ih item hitem (depth + 1) fuel (by omega)
  | @object members all ih =>
    intro depth fuel hlength
    obtain ⟨fuel, rfl⟩ := hfuel (.object all) hlength
    rw [printed, List.length_cons, printedMembers_eq] at hlength
    have hshort := @length_lt_of_mem layout '}' depth (members.map (printedMember layout (depth + 1)))
    rw [List.length_map] at hshort
    apply takes_object _ (by omega)
    intro member hmember
    have hmember' := hshort.2 _ (List.mem_map_of_mem hmember)
    rw [printedMember, List.length_append, List.length_cons, List.length_append] at hmember'
    exact ih member hmember (depth + 1) fuel (by omega)

/-- The text of a document in any layout, and spaces after it, are read back as the document. -/
theorem readText_printed {document : Json} (h : Printable document) (layout : Layout) {text : String}
    (spaces : List Char) (hspaces : ∀ c ∈ spaces, isSpace c = true)
    (htext : text.toList = printed layout 0 document ++ spaces) : readText text = .ok document := by
  have hends : ∀ c ∈ spaces.head?, Separates c :=
    fun c hc ↦ separates_of_isSpace (hspaces c (List.mem_of_mem_head? hc))
  have htakes : Takes (readValue ((printed layout 0 document ++ spaces).length + 1))
      (printed layout 0 document) document := by
    apply h.takes
    rw [List.length_append]
    omega
  have hread := htakes [] spaces (List.forall_mem_nil _) hends
  have hskip : skip (spaces ++ []) = [] := skip_append hspaces
  rw [List.append_nil] at hskip
  rw [readText, htext, show readValue _ (printed layout 0 document ++ spaces) = _ from hread]
  exact if_pos hskip

theorem readText_printPretty {document : Json} (h : Printable document) :
    readText (printPretty document ++ "\n") = .ok document := by
  apply readText_printed h pretty ['\n'] (List.forall_mem_singleton.mpr rfl)
  rw [String.toList_append, printPretty, String.toList_ofList]
  rfl

/-- The text of a string has no control characters: they are escaped. -/
theorem toNat_escape {other : Char} (h : other ∈ escape c) : 32 ≤ other.toNat := by
  unfold escape at h
  cases hfind : escapes.find? (fun pair ↦ pair.1 = c) with
  | some pair =>
    have hname := (by decide : ∀ pair ∈ escapes, 32 ≤ pair.2.toNat) pair
      (List.mem_of_find?_eq_some hfind)
    rw [hfind] at h
    simp only [List.mem_cons, List.not_mem_nil, or_false] at h
    rcases h with rfl | rfl
    · decide
    · exact hname
  | none =>
    rw [hfind] at h
    by_cases hcontrol : c.toNat < 32
    · have hdigit (digit : ℕ) (hlt : digit < 16) : 32 ≤ (Nat.digitChar digit).toNat :=
        (by decide : ∀ digit < 16, 32 ≤ (Nat.digitChar digit).toNat) digit hlt
      simp only [if_pos hcontrol, List.mem_cons, List.not_mem_nil, or_false] at h
      rcases h with rfl | rfl | rfl | rfl | rfl | rfl
      · decide
      · decide
      · decide
      · decide
      · exact hdigit _ (by omega)
      · exact hdigit _ (by omega)
    · simp only [if_neg hcontrol, List.mem_singleton] at h
      rw [h]
      omega

/-- No character of the text is a control character. -/
def Plain (text : List Char) : Prop := ∀ c ∈ text, 32 ≤ c.toNat

theorem plain_append {first second : List Char} (hfirst : Plain first) (hsecond : Plain second) :
    Plain (first ++ second) := List.forall_mem_append.mpr ⟨hfirst, hsecond⟩

theorem plain_cons (hc : 32 ≤ c.toNat) (htext : Plain text) : Plain (c :: text) :=
  List.forall_mem_cons.mpr ⟨hc, htext⟩

theorem plain_of_all (h : text.all (fun c ↦ 32 ≤ c.toNat) = true) : Plain text :=
  fun c hc ↦ of_decide_eq_true (List.all_eq_true.mp h c hc)

theorem plain_quoted (text : String) : Plain (quoted text) := by
  apply plain_cons (by decide)
  apply plain_append
  · intro c hc
    obtain ⟨original, -, hescape⟩ := List.mem_flatMap.mp hc
    exact toNat_escape hescape
  · exact plain_cons (by decide) (List.forall_mem_nil _)

theorem plain_bracketed {bracket : Char} (hbracket : 32 ≤ bracket.toNat) {depth : ℕ}
    {texts : List (List Char)} (htexts : ∀ text ∈ texts, Plain text) :
    Plain (bracketed compact bracket depth texts) := by
  have hclosing (texts : List (List Char)) (htexts : ∀ text ∈ texts, Plain text) :
      Plain (closing compact bracket depth texts) := by
    induction texts with
    | nil => exact plain_cons hbracket (List.forall_mem_nil _)
    | cons text texts ih =>
      obtain ⟨htext, hrest⟩ := List.forall_mem_cons.mp htexts
      exact plain_cons (by decide) (plain_append (List.forall_mem_nil _) (plain_append htext (ih hrest)))
  cases texts with
  | nil => exact plain_cons hbracket (List.forall_mem_nil _)
  | cons text texts =>
    obtain ⟨htext, hrest⟩ := List.forall_mem_cons.mp htexts
    exact plain_append (List.forall_mem_nil _) (plain_append htext (hclosing texts hrest))

/-- A document on one line has no control characters, and so no line breaks. -/
theorem Printable.plain {document : Json} (h : Printable document) :
    ∀ depth : ℕ, Plain (printed compact depth document) := by
  induction h with
  | null =>
    intro depth
    rw [printed]
    exact plain_of_all (by decide)
  | bool value =>
    intro depth
    cases value
    · rw [printed]
      exact plain_of_all (by decide)
    · rw [printed]
      exact plain_of_all (by decide)
  | integer value =>
    intro depth c hc
    have hdigit := Nat.isDigit_of_mem_toDigits (by decide) (by decide) hc
    have : 48 ≤ c.toNat := by
      simp only [Char.isDigit, Bool.and_eq_true, decide_eq_true_eq] at hdigit
      exact hdigit.1
    omega
  | string value => exact fun _ ↦ plain_quoted value
  | array all ih =>
    intro depth
    rw [printed, printedItems_eq]
    apply plain_cons (by decide)
    apply plain_bracketed (by decide)
    intro text htext
    obtain ⟨item, hitem, rfl⟩ := List.mem_map.mp htext
    exact ih item hitem _
  | object all ih =>
    intro depth
    rw [printed, printedMembers_eq]
    apply plain_cons (by decide)
    apply plain_bracketed (by decide)
    intro text htext
    obtain ⟨member, hmember, rfl⟩ := List.mem_map.mp htext
    apply plain_append (plain_quoted _)
    exact plain_cons (by decide) (ih member hmember _)

end Foundations.Json
