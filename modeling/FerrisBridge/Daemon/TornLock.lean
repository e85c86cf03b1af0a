import FerrisBridge.Daemon.LifecycleLock

/-!
# Who a torn lock is attributed to

The lock file is written in place, so that its writer can leave any part of it from the start. The
process id stands in the first line, and a number does not tell that it was cut off.
-/

open Foundations

namespace FerrisBridge

/-- The content names its writer, or it names no process. -/
def LifecycleLockContent.IsOf (pid : U32) (token : String) : LifecycleLockContent → Prop
  | .complete record => record.pid = pid ∧ record.token = token
  | .incomplete reading => reading = none ∨ reading = some pid

namespace LifecycleLockFields

variable {fields : LifecycleLockFields} {line value : List Char}

/-- A line that does not have the key of the process id leaves it. -/
theorem addLine_of_other {key : List Char} (hkey : '=' ∉ key) (hpid : key ≠ "pid".toList)
    (h : line <+: key ++ '=' :: value) : (fields.addLine line).pid = fields.pid := by
  rcases splitOnce_of_cut hkey h with hnone | ⟨part, hpart⟩
  · rw [addLine, hnone]
  · simp only [addLine, hpart, if_neg hpid]
    split_ifs <;> rfl

/-- A content names the process id that was read. -/
theorem content_isOf {pid : U32} {token : String} (hpid : fields.pid = some pid)
    (hcomplete : ∀ record, fields.content = .complete record →
      record.pid = pid ∧ record.token = token) : fields.content.IsOf pid token := by
  cases hcontent : fields.content with
  | complete record => exact hcomplete record hcontent
  | incomplete reading =>
    refine Or.inr ?_
    obtain ⟨fieldPid, fieldToken, fieldStarted⟩ := fields
    simp only at hpid
    subst hpid
    cases fieldToken with
    | none => exact (LifecycleLockContent.incomplete.inj hcontent).symm
    | some fieldToken =>
      cases fieldStarted with
      | none => exact (LifecycleLockContent.incomplete.inj hcontent).symm
      | some startedAtUnix =>
        by_cases hempty : fieldToken = ""
        · simp only [content, hempty, if_true, LifecycleLockContent.incomplete.injEq] at hcontent
          exact hcontent.symm
        · simp only [content, hempty, if_false, reduceCtorEq] at hcontent

end LifecycleLockFields

section Torn

variable {pid : U32} {token : String} {startedAtUnix : U64}

/-- What stands in front of the process id. -/
def pidLabel : List Char := "pid".toList ++ ['=']

def pidLine (digits : List Char) : List Char := pidLabel ++ digits

/-- What follows the first line. -/
def afterPid (token : String) (startedAtUnix : U64) : List Char :=
  ("token".toList ++ '=' :: token.toList) ++
    '\n' :: (("started_at_unix".toList ++ '=' :: writeWord startedAtUnix) ++ ['\n'])

theorem lifecycleLockContents_pidLine (pid : U32) (token : String) (startedAtUnix : U64) :
    lifecycleLockContents pid token startedAtUnix =
      pidLine (writeWord pid) ++ '\n' :: afterPid token startedAtUnix := by
  rw [lifecycleLockContents_eq, pidLine, pidLabel, List.append_assoc "pid".toList ['=']]
  rfl

theorem singleLine_pidLine {digits : List Char} (h : ∀ c ∈ digits, c.isDigit = true) :
    SingleLine (pidLine digits) :=
  .append ⟨by decide, by decide⟩ (singleLine_of_isDigit h)

/-- The first line gives the number that its digits read as. -/
theorem addLine_pidLine (digits : List Char) :
    LifecycleLockFields.addLine ⟨none, none, none⟩ (pidLine digits) = ⟨parseWord digits, none, none⟩ := by
  have hsplit : splitOnce '=' (pidLine digits) = some ("pid".toList, digits) := by
    rw [pidLine, pidLabel, List.append_assoc]
    exact splitOnce_append (by decide)
  simp only [LifecycleLockFields.addLine, hsplit, if_true, Option.or_none]

theorem addLines_pidLine (digits : List Char) (rest : List (List Char)) :
    LifecycleLockFields.addLines ⟨none, none, none⟩ (pidLine digits :: rest) =
      LifecycleLockFields.addLines ⟨parseWord digits, none, none⟩ rest := by
  rw [LifecycleLockFields.addLines_cons rfl, addLine_pidLine]

/-- A lock that was torn in its first line names the number that was written of it. -/
theorem parse_pidLine {digits : List Char} (h : ∀ c ∈ digits, c.isDigit = true) :
    parseLifecycleLockContent (pidLine digits) = .incomplete (parseWord digits) := by
  have hlines : lines (pidLine digits) = [pidLine digits] :=
    lines_of_notMem (singleLine_pidLine h).newline
  rw [parseLifecycleLockContent, hlines, addLines_pidLine]
  cases (parseWord digits : Option U32) <;> rfl

/-- A lock that has its first line reads as the lock of its writer, or as one that was torn behind the
process id. -/
theorem isOf_of_pidLine {text : List Char} (htokenText : SingleLine token.toList)
    (htext : text <+: afterPid token startedAtUnix)
    (hcomplete : ∀ record, parseLifecycleLockContent (pidLine (writeWord pid) ++ '\n' :: text) =
      .complete record → record.pid = pid ∧ record.token = token) :
    (parseLifecycleLockContent (pidLine (writeWord pid) ++ '\n' :: text)).IsOf pid token := by
  have htokenLine : SingleLine ("token".toList ++ '=' :: token.toList) :=
    .append ⟨by decide, by decide⟩ (htokenText.cons (by decide) (by decide))
  have hstartedLine : SingleLine ("started_at_unix".toList ++ '=' :: writeWord startedAtUnix) :=
    .append ⟨by decide, by decide⟩ ((singleLine_writeWord startedAtUnix).cons (by decide) (by decide))
  have htoken {fields : LifecycleLockFields} {part : List Char}
      (hpart : part <+: "token".toList ++ '=' :: token.toList) :
      (fields.addLine part).pid = fields.pid :=
    LifecycleLockFields.addLine_of_other (by decide) (by decide) hpart
  have hstarted {fields : LifecycleLockFields} {part : List Char}
      (hpart : part <+: "started_at_unix".toList ++ '=' :: writeWord startedAtUnix) :
      (fields.addLine part).pid = fields.pid :=
    LifecycleLockFields.addLine_of_other (by decide) (by decide) hpart
  have hkeep (fields : LifecycleLockFields) : (fields.addLines (lines text)).pid = fields.pid := by
    apply LifecycleLockFields.addLines_keep (·.pid)
    intro fields part hpart
    rcases cut_cases htext with hcut | ⟨text, rfl, hlast⟩
    · exact htoken (mem_lines_of_cut htokenLine hcut hpart)
    · rw [lines_cons htokenLine] at hpart
      rcases List.mem_cons.mp hpart with rfl | hpart
      · exact htoken List.prefix_rfl
      · exact hstarted (mem_lines_of_cut hstartedLine hlast hpart)
  have hline : SingleLine (pidLine (writeWord pid)) :=
    singleLine_pidLine fun c ↦ isDigit_of_mem_writeWord
  rw [parseLifecycleLockContent, lines_cons hline, addLines_pidLine] at hcomplete ⊢
  apply LifecycleLockFields.content_isOf _ hcomplete
  rw [hkeep]
  exact parseWord_writeWord pid

/-- A lock that was torn in the label of the process id names no process. -/
theorem parse_torn_label {token : String} {written : ℕ} (h : written ≤ 4) :
    parseLifecycleLockContent ((lifecycleLockContents pid token startedAtUnix).take written) =
      .incomplete none := by
  have hcut : (pidLine (writeWord pid) ++ '\n' :: afterPid token startedAtUnix).take written =
      pidLabel.take written := by
    rw [pidLine, List.append_assoc]
    exact List.take_append_of_le_length h
  have hnone : ∀ written ≤ 4,
      parseLifecycleLockContent (pidLabel.take written) = .incomplete none := by decide
  rw [lifecycleLockContents_pidLine, hcut, hnone written h]

/-- A lock that was torn between two digits of the process id names another process. -/
theorem parse_torn_digits {token : String} {count : ℕ} (hpos : 0 < count)
    (hlt : count < (writeWord pid).length) :
    ∃ other, parseLifecycleLockContent
      ((lifecycleLockContents pid token startedAtUnix).take (4 + count)) =
        .incomplete (some other) ∧ other ≠ pid := by
  have hlabel : pidLabel.length = 4 := rfl
  have hline : (pidLine (writeWord pid)).length = 4 + (writeWord pid).length := by
    rw [pidLine, List.length_append, hlabel]
  have hcut : (pidLine (writeWord pid) ++ '\n' :: afterPid token startedAtUnix).take (4 + count) =
      pidLine ((writeWord pid).take count) := by
    rw [List.take_append_of_le_length (by omega), pidLine, ← hlabel, List.take_length_add_append]
    rfl
  have hfirst : (writeWord pid).take count ≠ [] := by
    apply List.ne_nil_of_length_pos
    rw [List.length_take]
    omega
  have hlast : (writeWord pid).drop count ≠ [] := by
    apply List.ne_nil_of_length_pos
    rw [List.length_drop]
    omega
  obtain ⟨other, hother, hne⟩ :=
    parseWord_cut (List.take_append_drop count (writeWord pid)).symm hfirst hlast
  have hread : ∀ c ∈ (writeWord pid).take count, c.isDigit = true := fun c hc ↦
    isDigit_of_mem_writeWord (List.mem_of_mem_take hc)
  rw [lifecycleLockContents_pidLine, hcut, parse_pidLine hread, hother]
  exact ⟨other, rfl, hne⟩

/-- A lock that was torn behind the digits of the process id names no other process. -/
theorem isOf_of_digits {more : ℕ} (htoken : SingleLine token.toList)
    (hcomplete : ∀ record, parseLifecycleLockContent ((lifecycleLockContents pid token
      startedAtUnix).take (4 + (writeWord pid).length + more)) = .complete record →
        record.pid = pid ∧ record.token = token) :
    (parseLifecycleLockContent ((lifecycleLockContents pid token startedAtUnix).take
      (4 + (writeWord pid).length + more))).IsOf pid token := by
  have hline : 4 + (writeWord pid).length = (pidLine (writeWord pid)).length := by
    rw [pidLine, List.length_append]
    rfl
  rw [lifecycleLockContents_pidLine, hline, List.take_length_add_append] at hcomplete ⊢
  cases more with
  | zero =>
    rw [List.take_zero, List.append_nil, parse_pidLine fun c ↦ isDigit_of_mem_writeWord,
      parseWord_writeWord]
    exact Or.inr rfl
  | succ more => exact isOf_of_pidLine htoken (List.take_prefix more _) hcomplete

theorem isOf_torn_token_iff (htoken : SingleLine token.toList) (written : ℕ) :
    (parseLifecycleLockContent ((lifecycleLockContents pid token startedAtUnix).take
        written)).IsOf pid token ↔
      ¬(4 < written ∧ written < 4 + (writeWord pid).length) := by
  by_cases hlow : written ≤ 4
  · rw [parse_torn_label hlow]
    exact iff_of_true (Or.inl rfl) (by omega)
  · obtain ⟨count, rfl⟩ := Nat.exists_eq_add_of_le (not_le.mp hlow).le
    by_cases hhigh : 4 + (writeWord pid).length ≤ 4 + count
    · obtain ⟨more, hmore⟩ := Nat.exists_eq_add_of_le hhigh
      rw [hmore]
      exact iff_of_true (isOf_of_digits htoken fun record ↦ eq_of_torn_complete htoken) (by omega)
    · have hpos : 0 < count := by omega
      have hlt : count < (writeWord pid).length := by omega
      obtain ⟨other, hother, hne⟩ := parse_torn_digits hpos hlt
      rw [hother]
      refine iff_of_false ?_ (by omega)
      rintro (hnone | hsome)
      · cases hnone
      · exact hne (Option.some.inj hsome)

/-- A torn lock names no other process than its writer exactly if it was not torn between two digits of
the process id, whatever single line its token is, and so for the tokens that are generated. -/
theorem isOf_torn_iff (pid : U32) (startedAtUnix : U64) (written : ℕ) :
    (∀ token : String, SingleLine token.toList →
      ((parseLifecycleLockContent ((lifecycleLockContents pid token startedAtUnix).take
          written)).IsOf pid token ↔
        ¬(4 < written ∧ written < 4 + (writeWord pid).length))) ∧
    ∀ nanos : ℕ,
      (parseLifecycleLockContent ((lifecycleLockContents pid (generateToken pid nanos)
          startedAtUnix).take written)).IsOf pid (generateToken pid nanos) ↔
        ¬(4 < written ∧ written < 4 + (writeWord pid).length) :=
  ⟨fun _ htoken ↦ isOf_torn_token_iff htoken written,
    fun nanos ↦ isOf_torn_token_iff (singleLine_generateToken pid nanos) written⟩

/-- A writer that dies after two of the four digits of its process id. -/
theorem not_isOf_torn :
    ¬(parseLifecycleLockContent ((lifecycleLockContents (.ofLt 1234 (by decide))
      (generateToken (.ofLt 1234 (by decide)) 5) (.ofLt 1700000000 (by decide))).take 6)).IsOf
        (.ofLt 1234 (by decide)) (generateToken (.ofLt 1234 (by decide)) 5) := by
  have hread : parseLifecycleLockContent ((lifecycleLockContents (.ofLt 1234 (by decide))
      (generateToken (.ofLt 1234 (by decide)) 5) (.ofLt 1700000000 (by decide))).take 6) =
      .incomplete (some (.ofLt 12 (by decide))) := by decide +kernel
  rw [hread]
  rintro (hnone | hsome)
  · cases hnone
  · exact absurd hsome (by decide)

end Torn

end FerrisBridge
