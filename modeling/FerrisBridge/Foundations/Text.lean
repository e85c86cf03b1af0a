import FerrisBridge.Foundations.Word

/-!
# Lines of text

Reading texts that are written as lines of a key, a separator and a value: the lines of a text, the
parts of a line, and unsigned numbers. The rules also say what is read of a text that was cut off.
-/

namespace Foundations

variable {width : ℕ} {line rest key value : List Char} {separator : Char}

/-! ## Lines -/

/-- A carriage return belongs to the end of its line. -/
def dropReturn (line : List Char) : List Char :=
  if line.getLast? = some '\r' then line.dropLast else line

/-- The lines of a text, without their ends. The last one may lack its end. -/
def lines (text : List Char) : List (List Char) :=
  let pieces := text.splitOn '\n'
  pieces.dropLast.map dropReturn ++ pieces.getLast?.toList.filter (!·.isEmpty)

/-- A line without an end in it. -/
structure SingleLine (line : List Char) : Prop where
  newline : '\n' ∉ line
  carriage : '\r' ∉ line

theorem SingleLine.append {other : List Char} (h : SingleLine line) (hother : SingleLine other) :
    SingleLine (line ++ other) where
  newline hmem := (List.mem_append.mp hmem).elim h.newline hother.newline
  carriage hmem := (List.mem_append.mp hmem).elim h.carriage hother.carriage

theorem SingleLine.cons {c : Char} (h : SingleLine line) (hnewline : c ≠ '\n')
    (hcarriage : c ≠ '\r') : SingleLine (c :: line) where
  newline hmem := (List.mem_cons.mp hmem).elim (fun heq ↦ hnewline heq.symm) h.newline
  carriage hmem := (List.mem_cons.mp hmem).elim (fun heq ↦ hcarriage heq.symm) h.carriage

theorem dropReturn_eq (h : SingleLine line) : dropReturn line = line := by
  apply if_neg
  intro hlast
  exact h.carriage (List.mem_of_getLast? hlast)

theorem lines_cons_of_notMem (h : '\n' ∉ line) :
    lines (line ++ '\n' :: rest) = dropReturn line :: lines rest := by
  have hpieces : (line ++ '\n' :: rest).splitOn '\n' = line :: rest.splitOn '\n' := by
    apply List.splitOnP_append_cons_of_forall_mem
    · intro c hc
      exact beq_false_of_ne fun heq ↦ h (heq ▸ hc)
    · rfl
  obtain ⟨first, others, hrest⟩ := List.exists_cons_of_ne_nil (List.splitOn_ne_nil '\n' rest)
  simp only [lines, hpieces, hrest, List.dropLast_cons_cons, List.map_cons,
    List.getLast?_cons_cons, List.cons_append]

theorem lines_cons (h : SingleLine line) : lines (line ++ '\n' :: rest) = line :: lines rest := by
  rw [lines_cons_of_notMem h.newline, dropReturn_eq h]

/-- The end of a line belongs to what is written last. -/
theorem dropReturn_append (hrest : rest ≠ []) : dropReturn (line ++ rest) = line ++ dropReturn rest := by
  simp only [dropReturn, List.getLast?_append_of_ne_nil _ hrest]
  split_ifs
  · exact List.dropLast_append_of_ne_nil hrest
  · rfl

theorem dropReturn_eq_self_iff : dropReturn line = line ↔ line.getLast? ≠ some '\r' := by
  constructor
  · intro heq hlast
    rw [dropReturn, if_pos hlast] at heq
    have hlength := congrArg List.length heq
    rw [List.length_dropLast] at hlength
    have hpos := List.length_pos_of_mem (List.mem_of_getLast? hlast)
    omega
  · exact fun hlast ↦ if_neg hlast

theorem dropReturn_isPrefix (line : List Char) : dropReturn line <+: line := by
  rw [dropReturn]
  split_ifs
  · exact List.dropLast_prefix line
  · exact List.prefix_refl line

theorem lines_of_notMem (h : '\n' ∉ line) : lines line = [line].filter (!·.isEmpty) := by
  have hpieces : line.splitOn '\n' = [line] := by
    apply List.splitOnP_eq_singleton
    intro c hc
    exact beq_false_of_ne fun heq ↦ h (heq ▸ hc)
  simp only [lines, hpieces]
  rfl

theorem notMem_of_mem_lines {text part : List Char} (hpart : part ∈ lines text) : '\n' ∉ part := by
  induction hlength : text.length using Nat.strong_induction_on generalizing text with
  | _ length ih =>
    subst hlength
    by_cases hnewline : '\n' ∈ text
    · obtain ⟨line, rest, rfl, hline⟩ := List.eq_append_cons_of_mem hnewline
      rw [lines_cons_of_notMem hline] at hpart
      obtain rfl | hpart := List.mem_cons.mp hpart
      · exact fun hmem ↦ hline ((dropReturn_isPrefix line).subset hmem)
      · exact ih _ (by simp only [List.length_append, List.length_cons]; omega) hpart rfl
    · rw [lines_of_notMem hnewline] at hpart
      rw [List.mem_singleton.mp (List.mem_of_mem_filter hpart)]
      exact hnewline

/-- A text that was cut off ends in its first line, or has it whole. -/
theorem cut_cases {text : List Char} (h : text <+: line ++ '\n' :: rest) :
    text <+: line ++ ['\n'] ∨ ∃ text', text = line ++ '\n' :: text' ∧ text' <+: rest := by
  have hfirst : line ++ ['\n'] <+: line ++ '\n' :: rest :=
    (List.prefix_append_right_inj line).mpr (List.cons_prefix_cons.mpr ⟨rfl, List.nil_prefix⟩)
  rcases List.prefix_or_prefix_of_prefix h hfirst with h' | ⟨text', rfl⟩
  · exact .inl h'
  · rw [List.append_assoc, List.prefix_append_right_inj, List.singleton_append,
      List.cons_prefix_cons] at h
    exact .inr ⟨text', by simp, h.2⟩

/-- What a line that was cut off reads as. -/
theorem mem_lines_of_cut {text part : List Char} (hline : SingleLine line)
    (h : text <+: line ++ ['\n']) (hpart : part ∈ lines text) : part <+: line := by
  rcases List.prefix_concat_iff.mp h with rfl | h
  · rw [lines_cons hline] at hpart
    rcases List.mem_cons.mp hpart with rfl | hpart
    · exact List.prefix_rfl
    · cases hpart
  · rw [lines_of_notMem fun hmem ↦ hline.newline (h.subset hmem)] at hpart
    rw [List.mem_singleton.mp (List.mem_of_mem_filter hpart)]
    exact h

/-! ## Parts of a line -/

/-- The parts of a line before and after the first separator. -/
def splitOnce (separator : Char) : List Char → Option (List Char × List Char)
  | [] => none
  | c :: rest =>
    if c = separator then some ([], rest)
    else (splitOnce separator rest).map fun parts ↦ (c :: parts.1, parts.2)

theorem splitOnce_append (h : separator ∉ key) :
    splitOnce separator (key ++ separator :: value) = some (key, value) := by
  induction key with
  | nil => exact if_pos rfl
  | cons c key ih =>
    have hc := List.ne_of_not_mem_cons h
    have hkey := List.not_mem_of_not_mem_cons h
    rw [List.cons_append, splitOnce, if_neg (Ne.symm hc), ih hkey]
    rfl

theorem eq_of_splitOnce (h : splitOnce separator line = some (key, value)) :
    line = key ++ separator :: value := by
  induction line generalizing key with
  | nil => cases h
  | cons c line ih =>
    rw [splitOnce] at h
    split_ifs at h with hc
    · obtain ⟨rfl, rfl⟩ := Prod.mk.inj (Option.some.inj h)
      rw [hc, List.nil_append]
    · obtain ⟨⟨first, second⟩, hparts, heq⟩ := Option.map_eq_some_iff.mp h
      obtain ⟨rfl, rfl⟩ := Prod.mk.inj heq
      rw [ih hparts, List.cons_append]

/-- A line that was cut off has no parts, or still has its key. -/
theorem splitOnce_of_cut (hkey : separator ∉ key) (h : line <+: key ++ separator :: value) :
    splitOnce separator line = none ∨ ∃ part, splitOnce separator line = some (key, part) := by
  induction key generalizing line with
  | nil =>
    cases line with
    | nil => exact .inl rfl
    | cons c line =>
      obtain ⟨rfl, -⟩ := List.cons_prefix_cons.mp h
      exact .inr ⟨line, if_pos rfl⟩
  | cons c key ih =>
    cases line with
    | nil => exact .inl rfl
    | cons c' line =>
      obtain ⟨rfl, hline⟩ := List.cons_prefix_cons.mp h
      have hc := List.ne_of_not_mem_cons hkey
      replace hkey := List.not_mem_of_not_mem_cons hkey
      rw [splitOnce, if_neg (Ne.symm hc)]
      rcases ih hkey hline with hnone | ⟨part, hpart⟩
      · rw [hnone]
        exact .inl rfl
      · rw [hpart]
        exact .inr ⟨part, rfl⟩

/-! ## Numbers -/

/-- A decimal number, possibly with a plus sign, that fits into a word. -/
def parseWord (text : List Char) : Option (Word width) :=
  let digits := if text.head? = some '+' then text.tail else text
  if digits ≠ [] ∧ digits.all Char.isDigit = true then
    if h : Nat.ofDigitChars 10 digits 0 < 2 ^ width then some (.ofLt _ h) else none
  else none

def writeWord (word : Word width) : List Char := Nat.toDigits 10 word.toNat

theorem isDigit_of_mem_writeWord {word : Word width} {c : Char} (h : c ∈ writeWord word) :
    c.isDigit = true :=
  Nat.isDigit_of_mem_toDigits (by decide) (by decide) h

theorem singleLine_of_isDigit (h : ∀ c ∈ line, c.isDigit = true) : SingleLine line where
  newline hmem := absurd (h _ hmem) (by decide)
  carriage hmem := absurd (h _ hmem) (by decide)

theorem singleLine_writeWord (word : Word width) : SingleLine (writeWord word) :=
  singleLine_of_isDigit fun _ ↦ isDigit_of_mem_writeWord

theorem writeWord_ne_nil (word : Word width) : writeWord word ≠ [] := Nat.toDigits_ne_nil

/-- Digits read as the number that they write if it fits. -/
theorem parseWord_digits {digits : List Char} (hdigits : ∀ c ∈ digits, c.isDigit = true)
    (hne : digits ≠ []) (hlt : Nat.ofDigitChars 10 digits 0 < 2 ^ width) :
    parseWord digits = some (.ofLt _ hlt) := by
  have hplus : digits.head? ≠ some '+' := by
    intro hhead
    exact absurd (hdigits '+' (List.mem_of_mem_head? hhead)) (by decide)
  have hall : digits.all Char.isDigit = true := List.all_eq_true.mpr hdigits
  simp only [parseWord, if_neg hplus, if_pos (And.intro hne hall), dif_pos hlt]

theorem parseWord_writeWord (word : Word width) : parseWord (writeWord word) = some word := by
  have hvalue : Nat.ofDigitChars 10 (writeWord word) 0 = word.toNat := Nat.ofDigitChars_ten_toDigits
  have hlt : Nat.ofDigitChars 10 (writeWord word) 0 < 2 ^ width := by
    rw [hvalue]
    exact word.toNat_lt
  rw [parseWord_digits (fun c ↦ isDigit_of_mem_writeWord) (writeWord_ne_nil word) hlt]
  exact congrArg some (Word.toNat_injective hvalue)

/-- The digits of a number that was cut off write a smaller one. -/
theorem ofDigitChars_cut {number : ℕ} {cut rest : List Char} (h : Nat.toDigits 10 number = cut ++ rest)
    (hcut : cut ≠ []) (hrest : rest ≠ []) : Nat.ofDigitChars 10 cut 0 < number := by
  have hsum : 10 ^ rest.length * Nat.ofDigitChars 10 cut 0 + Nat.ofDigitChars 10 rest 0 = number := by
    rw [← Nat.ofDigitChars_eq_ofDigitChars_zero, ← Nat.ofDigitChars_append, ← h,
      Nat.ofDigitChars_ten_toDigits]
  have hpos : number ≠ 0 := by
    rintro rfl
    have hlength := congrArg List.length h
    have hcutPos := List.length_pos_of_ne_nil hcut
    have hrestPos := List.length_pos_of_ne_nil hrest
    have hzero : (Nat.toDigits 10 0).length = 1 := rfl
    rw [hzero, List.length_append] at hlength
    omega
  have hten : 10 ≤ 10 ^ rest.length := by
    calc
      10 = 10 ^ 1 := rfl
      _ ≤ 10 ^ rest.length := Nat.pow_le_pow_right (by decide) (List.length_pos_of_ne_nil hrest)
  have hmul := Nat.mul_le_mul_right (Nat.ofDigitChars 10 cut 0) hten
  omega

/-- A number that was cut off reads as another one. -/
theorem parseWord_cut {word : Word width} {cut rest : List Char} (h : writeWord word = cut ++ rest)
    (hcut : cut ≠ []) (hrest : rest ≠ []) : ∃ other, parseWord cut = some other ∧ other ≠ word := by
  have hlt := ofDigitChars_cut h hcut hrest
  have hdigits : ∀ c ∈ cut, c.isDigit = true := by
    intro c hc
    apply isDigit_of_mem_writeWord
    rw [h]
    exact List.mem_append_left rest hc
  refine ⟨_, parseWord_digits hdigits hcut (hlt.trans word.toNat_lt), ?_⟩
  exact fun heq ↦ absurd (congrArg Word.toNat heq) hlt.ne

end Foundations
