import FerrisBridge.Foundations.Program
import FerrisBridge.Foundations.Text
import FerrisBridge.Runtime.Session

/-!
# The lifecycle lock

The lock file that is meant to serialize lifecycle operations, and what is read of it when its writer
has died half way through.
-/

open Foundations

namespace FerrisBridge

/-! ## Contents -/

def generateToken (pid : U32) (nanos : ℕ) : String := s!"{pid.toNat}-{nanos}"

def lifecycleLockContents (pid : U32) (token : String) (startedAtUnix : U64) : List Char :=
  s!"pid={pid.toNat}\ntoken={token}\nstarted_at_unix={startedAtUnix.toNat}\n".toList

structure LifecycleLockRecord where
  pid : U32
  token : String
  startedAtUnix : U64
  deriving DecidableEq, Repr

inductive LifecycleLockContent
  | complete (record : LifecycleLockRecord)
  | incomplete (pid : Option U32)
  deriving DecidableEq, Repr

/-- The fields that the lines have given so far. -/
structure LifecycleLockFields where
  pid : Option U32
  token : Option String
  startedAtUnix : Option U64

/-- One line: a value that does not parse leaves its field. -/
def LifecycleLockFields.addLine (fields : LifecycleLockFields) (line : List Char) :
    LifecycleLockFields :=
  match splitOnce '=' line with
  | none => fields
  | some (key, value) =>
    if key = "pid".toList then { fields with pid := (parseWord value).or fields.pid }
    else if key = "token".toList then { fields with token := some (String.ofList value) }
    else if key = "started_at_unix".toList then
      { fields with startedAtUnix := (parseWord value).or fields.startedAtUnix }
    else fields

def LifecycleLockFields.content (fields : LifecycleLockFields) : LifecycleLockContent :=
  match fields.pid, fields.token, fields.startedAtUnix with
  | some pid, some token, some startedAtUnix =>
    if token = "" then .incomplete (some pid) else .complete { pid, token, startedAtUnix }
  | pid, _, _ => .incomplete pid

/-- The loop over the lines that are not blank. -/
def LifecycleLockFields.addLines (fields : LifecycleLockFields) (list : List (List Char)) :
    LifecycleLockFields :=
  (list.filter fun line ↦ !line.all isWhitespace).foldl addLine fields

def parseLifecycleLockContent (input : List Char) : LifecycleLockContent :=
  (LifecycleLockFields.addLines ⟨none, none, none⟩ (lines input)).content

/-! ## Torn contents -/

namespace LifecycleLockFields

variable {fields : LifecycleLockFields} {line value : List Char}

theorem addLine_of_pid (h : line <+: "pid".toList ++ '=' :: value) :
    (fields.addLine line).token = fields.token ∧
      (fields.addLine line).startedAtUnix = fields.startedAtUnix := by
  rcases splitOnce_of_cut (by decide) h with hnone | ⟨part, hpart⟩
  · simp [addLine, hnone]
  · simp [addLine, hpart]

theorem addLine_of_token (h : line <+: "token".toList ++ '=' :: value) :
    (fields.addLine line).startedAtUnix = fields.startedAtUnix := by
  rcases splitOnce_of_cut (by decide) h with hnone | ⟨part, hpart⟩
  · simp [addLine, hnone]
  · simp [addLine, hpart]

theorem addLine_of_startedAt (h : line <+: "started_at_unix".toList ++ '=' :: value) :
    (fields.addLine line).pid = fields.pid ∧ (fields.addLine line).token = fields.token := by
  rcases splitOnce_of_cut (by decide) h with hnone | ⟨part, hpart⟩
  · simp [addLine, hnone]
  · simp [addLine, hpart]

theorem addLine_pid (fields : LifecycleLockFields) (pid : U32) :
    fields.addLine ("pid".toList ++ '=' :: writeWord pid) = { fields with pid := some pid } := by
  simp only [addLine, splitOnce_append (by decide : '=' ∉ "pid".toList), if_true,
    parseWord_writeWord, Option.some_or]

theorem addLine_token (fields : LifecycleLockFields) (token : String) :
    fields.addLine ("token".toList ++ '=' :: token.toList) = { fields with token := some token } := by
  simp only [addLine, splitOnce_append (by decide : '=' ∉ "token".toList), if_true,
    if_neg (by decide : "token".toList ≠ "pid".toList), String.ofList_toList]

theorem eq_of_content_eq_complete {record : LifecycleLockRecord}
    (h : fields.content = .complete record) :
    fields.pid = some record.pid ∧ fields.token = some record.token ∧
      fields.startedAtUnix = some record.startedAtUnix := by
  unfold content at h
  obtain ⟨pid, token, startedAtUnix⟩ := fields
  cases pid with
  | none => cases h
  | some pid =>
    cases token with
    | none => cases h
    | some token =>
      cases startedAtUnix with
      | none => cases h
      | some startedAtUnix =>
        by_cases htoken : token = ""
        · simp [htoken] at h
        · simp only [htoken, if_false] at h
          cases h
          exact ⟨rfl, rfl, rfl⟩

theorem addLines_cons {list : List (List Char)} (hline : line.all isWhitespace = false) :
    fields.addLines (line :: list) = (fields.addLine line).addLines list := by
  rw [addLines, List.filter_cons_of_pos (by rw [hline]; rfl)]
  rfl

/-- Lines leave what every one of them leaves. -/
theorem addLines_keep {α : Type} (read : LifecycleLockFields → α) {list : List (List Char)}
    (hlines : ∀ (fields : LifecycleLockFields), ∀ line ∈ list,
      read (fields.addLine line) = read fields) (fields : LifecycleLockFields) :
    read (fields.addLines list) = read fields := by
  induction list generalizing fields with
  | nil => rfl
  | cons line rest ih =>
    have hrest := ih fun fields other hother ↦
      hlines fields other (List.mem_cons_of_mem _ hother)
    cases hline : line.all isWhitespace with
    | false =>
      rw [addLines_cons hline]
      calc read ((fields.addLine line).addLines rest)
          = read (fields.addLine line) := hrest _
        _ = read fields := hlines fields line List.mem_cons_self
    | true =>
      rw [addLines, List.filter_cons_of_neg (by rw [hline]; decide)]
      exact hrest fields

end LifecycleLockFields

theorem lifecycleLockContents_eq (pid : U32) (token : String) (startedAtUnix : U64) :
    lifecycleLockContents pid token startedAtUnix =
      ("pid".toList ++ '=' :: writeWord pid) ++ '\n' :: (("token".toList ++ '=' :: token.toList) ++
        '\n' :: (("started_at_unix".toList ++ '=' :: writeWord startedAtUnix) ++ ['\n'])) := by
  have hdigits (number : ℕ) : (toString number).toList = Nat.toDigits 10 number := Nat.toList_repr
  simp only [lifecycleLockContents, String.toList_append, hdigits, writeWord, List.append_assoc,
    List.cons_append]
  rfl

theorem singleLine_generateToken (pid : U32) (nanos : ℕ) :
    SingleLine (generateToken pid nanos).toList := by
  have hdigits (number : ℕ) : SingleLine (toString number).toList := by
    have hlist : (toString number).toList = Nat.toDigits 10 number := Nat.toList_repr
    rw [hlist]
    exact singleLine_of_isDigit fun _ ↦ Nat.isDigit_of_mem_toDigits (by decide) (by decide)
  simp only [generateToken, String.toList_append]
  apply SingleLine.append
  · apply SingleLine.append
    · exact hdigits _
    · exact ⟨by decide, by decide⟩
  · exact hdigits _

section Torn

variable {pid : U32} {token : String} {startedAtUnix : U64} {record : LifecycleLockRecord}

/-- A lock whose writer has died reads as a lock of its writer, or as an incomplete one. -/
theorem eq_of_torn_complete {written : ℕ} (htoken : SingleLine token.toList)
    (h : parseLifecycleLockContent
      ((lifecycleLockContents pid token startedAtUnix).take written) =
        .complete record) :
    record.pid = pid ∧ record.token = token := by
  have htorn := List.take_prefix written
    (lifecycleLockContents pid token startedAtUnix)
  generalize List.take written _ = text at htorn h
  rw [lifecycleLockContents_eq] at htorn
  obtain ⟨hrecordPid, hrecordToken, hrecordStarted⟩ :=
    LifecycleLockFields.eq_of_content_eq_complete h
  have hpidLine : SingleLine ("pid".toList ++ '=' :: writeWord pid) :=
    .append ⟨by decide, by decide⟩ ((singleLine_writeWord pid).cons (by decide) (by decide))
  have htokenLine : SingleLine ("token".toList ++ '=' :: token.toList) :=
    .append ⟨by decide, by decide⟩ (htoken.cons (by decide) (by decide))
  have hstartedLine : SingleLine ("started_at_unix".toList ++ '=' :: writeWord startedAtUnix) :=
    .append ⟨by decide, by decide⟩ ((singleLine_writeWord startedAtUnix).cons (by decide) (by decide))
  rcases cut_cases htorn with hcut | ⟨text, rfl, htail⟩
  · -- the first line gives no token
    have hkeep := LifecycleLockFields.addLines_keep (·.token) (fun fields line hline ↦
      (LifecycleLockFields.addLine_of_pid (mem_lines_of_cut hpidLine hcut hline)).1)
      ⟨none, none, none⟩
    cases hkeep.symm.trans hrecordToken
  rw [lines_cons hpidLine, LifecycleLockFields.addLines_cons rfl,
    LifecycleLockFields.addLine_pid] at hrecordPid hrecordToken hrecordStarted
  rcases cut_cases htail with hcut | ⟨text, rfl, hlast⟩
  · -- the second line gives no start time
    have hkeep := LifecycleLockFields.addLines_keep (·.startedAtUnix) (fun fields line hline ↦
      LifecycleLockFields.addLine_of_token (mem_lines_of_cut htokenLine hcut hline))
      ⟨some pid, none, none⟩
    cases hkeep.symm.trans hrecordStarted
  -- the third line leaves the fields of the first two
  rw [lines_cons htokenLine, LifecycleLockFields.addLines_cons rfl,
    LifecycleLockFields.addLine_token] at hrecordPid hrecordToken
  have hkeep := LifecycleLockFields.addLines_keep (fun fields ↦ (fields.pid, fields.token))
    (fun fields line hline ↦ by
      obtain ⟨hpid, hkept⟩ : (fields.addLine line).pid = fields.pid ∧
          (fields.addLine line).token = fields.token :=
        LifecycleLockFields.addLine_of_startedAt (mem_lines_of_cut hstartedLine hlast hline)
      exact Prod.ext hpid hkept)
    ⟨some pid, some token, none⟩
  have hpid := congrArg Prod.fst hkeep
  have hkept := congrArg Prod.snd hkeep
  exact ⟨Option.some.inj (hrecordPid.symm.trans hpid),
    Option.some.inj (hrecordToken.symm.trans hkept)⟩

end Torn

end FerrisBridge
