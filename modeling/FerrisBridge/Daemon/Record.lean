import FerrisBridge.Daemon.Host

/-!
# The text of a daemon record

A record is written as lines of a key and a value, and nothing in a value is escaped. Reading goes
line by line: blank lines and unknown keys are passed over, and a later line of a key replaces an
earlier one.
-/

open Foundations

namespace FerrisBridge.Daemon

/-! ## Writing and reading -/

def Mode.asStr : Mode → String
  | starting => "starting"
  | background => "background"
  | foreground => "foreground"

/-- The mode of a value that is a known one. -/
def knownMode (value : List Char) : Option Mode :=
  [Mode.starting, .background, .foreground].find? fun mode ↦ value = mode.asStr.toList

namespace DaemonRecord

def encode (self : DaemonRecord) : List Char :=
  (s!"pid={self.pid.toNat}\ntoken={self.token}\nexe={self.exe}\n" ++
    s!"started_at_unix={self.startedAtUnix.toNat}\nmode={self.mode.asStr}\n").toList

end DaemonRecord

/-- The first digit that a number of `width` bits does not take. -/
def digitsError (width : ℕ) : ℕ → List Char → String
  | _, [] => "invalid digit found in string"
  | number, c :: rest =>
    if !c.isDigit then "invalid digit found in string"
    else if 2 ^ width ≤ number * 10 + (c.toNat - '0'.toNat) then
      "number too large to fit in target type"
    else digitsError width (number * 10 + (c.toNat - '0'.toNat)) rest

/-- The text of a `ParseIntError`. -/
def parseIntError (width : ℕ) (value : List Char) : String :=
  if value = [] then "cannot parse integer from empty string"
  else digitsError width 0 (if value.head? = some '+' then value.tail else value)

def parseNumber {width : ℕ} (key : String) (value : List Char) : Except String (Word width) :=
  match parseWord value with
  | some number => .ok number
  | none => .error s!"invalid {key} `{String.ofList value}`: {parseIntError width value}"

def nonEmptyRecordValue (key : String) (value : List Char) : Except String String :=
  if value = [] then .error s!"empty {key}" else .ok (String.ofList value)

/-- The fields that the lines have given so far. -/
structure RecordFields where
  pid : Option U32
  token : Option String
  exe : Option String
  startedAtUnix : Option U64
  mode : Option Mode

namespace RecordFields

def addLine (fields : RecordFields) (line : List Char) : Except String RecordFields :=
  match splitOnce '=' line with
  | none => .error s!"invalid state line: {String.ofList line}"
  | some (key, value) =>
    if key = "pid".toList then do
      return { fields with pid := some (← parseNumber "pid" value) }
    else if key = "token".toList then do
      return { fields with token := some (← nonEmptyRecordValue "token" value) }
    else if key = "exe".toList then do
      return { fields with exe := some (← nonEmptyRecordValue "exe" value) }
    else if key = "started_at_unix".toList then do
      return { fields with startedAtUnix := some (← parseNumber "started_at_unix" value) }
    else if key = "mode".toList then do
      let value ← nonEmptyRecordValue "mode" value
      match knownMode value.toList with
      | none => .error s!"invalid mode `{value}`"
      | some mode => return { fields with mode := some mode }
    else .ok fields

/-- The loop over the lines that are not blank. -/
def addLines (fields : RecordFields) (list : List (List Char)) : Except String RecordFields :=
  (list.filter fun line ↦ !line.all isWhitespace).foldlM addLine fields

def record (fields : RecordFields) : Except String DaemonRecord := do
  let pid ← okOr fields.pid "missing pid"
  let token ← okOr fields.token "missing token"
  let exe ← okOr fields.exe "missing exe"
  let startedAtUnix ← okOr fields.startedAtUnix "missing started_at_unix"
  let mode ← okOr fields.mode "missing mode"
  return { pid, token, exe, startedAtUnix, mode }

end RecordFields

def DaemonRecord.decode (input : List Char) : Except String DaemonRecord := do
  let fields ← RecordFields.addLines ⟨none, none, none, none, none⟩ (lines input)
  fields.record

/-! ## The lines of a record -/

/-- A line of a key and a value. -/
def recordLine (key : String) (value : List Char) : List Char := key.toList ++ '=' :: value

theorem toList_recordText {pidLabel tokenLabel exeLabel startedLabel modeLabel lineEnd : String}
    {pidKey tokenKey exeKey startedKey modeKey : List Char} (hpid : pidLabel.toList = pidKey ++ ['='])
    (htoken : tokenLabel.toList = '\n' :: (tokenKey ++ ['=']))
    (hexe : exeLabel.toList = '\n' :: (exeKey ++ ['='])) (hend : lineEnd.toList = ['\n'])
    (hstarted : startedLabel.toList = startedKey ++ ['='])
    (hmode : modeLabel.toList = '\n' :: (modeKey ++ ['='])) (token exe mode : String)
    (pid startedAtUnix : ℕ) :
    ((pidLabel ++ toString pid ++ tokenLabel ++ token ++ exeLabel ++ exe ++ lineEnd) ++
      (startedLabel ++ toString startedAtUnix ++ modeLabel ++ mode ++ lineEnd)).toList =
      (pidKey ++ '=' :: Nat.toDigits 10 pid) ++ '\n' :: ((tokenKey ++ '=' :: token.toList) ++
        '\n' :: ((exeKey ++ '=' :: exe.toList) ++ '\n' ::
          ((startedKey ++ '=' :: Nat.toDigits 10 startedAtUnix) ++ '\n' ::
            ((modeKey ++ '=' :: mode.toList) ++ ['\n'])))) := by
  have hdigits (number : ℕ) : (toString number).toList = Nat.toDigits 10 number := Nat.toList_repr
  simp only [String.toList_append, hdigits, hpid, htoken, hexe, hend, hstarted, hmode, List.append_assoc,
    List.cons_append, List.nil_append]

theorem DaemonRecord.encode_eq (self : DaemonRecord) : self.encode =
    recordLine "pid" (writeWord self.pid) ++ '\n' :: (recordLine "token" self.token.toList ++
      '\n' :: (recordLine "exe" self.exe.toList ++ '\n' ::
        (recordLine "started_at_unix" (writeWord self.startedAtUnix) ++ '\n' ::
          (recordLine "mode" self.mode.asStr.toList ++ ['\n'])))) :=
  toList_recordText rfl rfl rfl rfl rfl rfl self.token self.exe self.mode.asStr _ _

theorem parseNumber_writeWord {width : ℕ} (key : String) (number : Word width) :
    parseNumber key (writeWord number) = .ok number := by
  rw [parseNumber, parseWord_writeWord]

namespace RecordFields

variable (fields : RecordFields)

/-- What a line gives that has a key. -/
theorem splitOnce_recordLine {key : String} (hkey : '=' ∉ key.toList) (value : List Char) :
    splitOnce '=' (recordLine key value) = some (key.toList, value) :=
  splitOnce_append hkey

theorem addLine_pid (pid : U32) :
    fields.addLine (recordLine "pid" (writeWord pid)) = .ok { fields with pid := some pid } := by
  rw [addLine, splitOnce_recordLine (by decide)]
  simp only [if_true, parseNumber_writeWord]
  rfl

theorem addLine_token {token : String} (h : token.toList ≠ []) :
    fields.addLine (recordLine "token" token.toList) = .ok { fields with token := some token } := by
  rw [addLine, splitOnce_recordLine (by decide)]
  simp only [if_true, if_neg (by decide : "token".toList ≠ "pid".toList), nonEmptyRecordValue, if_neg h,
    String.ofList_toList]
  rfl

theorem addLine_exe (value : List Char) : fields.addLine (recordLine "exe" value) =
    (nonEmptyRecordValue "exe" value).map fun exe ↦ { fields with exe := some exe } := by
  rw [addLine, splitOnce_recordLine (by decide)]
  simp only [if_true, if_neg (by decide : "exe".toList ≠ "pid".toList),
    if_neg (by decide : "exe".toList ≠ "token".toList)]
  cases nonEmptyRecordValue "exe" value <;> rfl

theorem addLine_startedAt (startedAtUnix : U64) :
    fields.addLine (recordLine "started_at_unix" (writeWord startedAtUnix)) =
      .ok { fields with startedAtUnix := some startedAtUnix } := by
  rw [addLine, splitOnce_recordLine (by decide)]
  simp only [if_true, if_neg (by decide : "started_at_unix".toList ≠ "pid".toList),
    if_neg (by decide : "started_at_unix".toList ≠ "token".toList),
    if_neg (by decide : "started_at_unix".toList ≠ "exe".toList), parseNumber_writeWord]
  rfl

theorem addLine_mode (mode : Mode) :
    fields.addLine (recordLine "mode" mode.asStr.toList) = .ok { fields with mode := some mode } := by
  cases mode <;> rfl

theorem addLines_cons {line : List Char} (hline : line.all isWhitespace = false)
    (rest : List (List Char)) :
    fields.addLines (line :: rest) = fields.addLine line >>= (·.addLines rest) := by
  rw [addLines, List.filter_cons_of_pos (by rw [hline]; rfl)]
  rfl

variable {fields}

/-- A line leaves the path, or it is the one that gives it. -/
theorem exe_of_addLine {fields' : RecordFields} {line : List Char}
    (h : fields.addLine line = .ok fields') :
    fields'.exe = fields.exe ∨
      ∃ value, line = recordLine "exe" value ∧ fields'.exe = some (String.ofList value) := by
  rw [addLine] at h
  cases hparts : splitOnce '=' line with
  | none =>
    rw [hparts] at h
    cases h
  | some parts =>
    obtain ⟨key, value⟩ := parts
    rw [hparts] at h
    simp only at h
    split_ifs at h with hpid htoken hexe hstarted hmode
    · obtain ⟨pid, -, hfields⟩ := except_bind_eq_ok.mp h
      exact Or.inl (Except.ok.inj hfields ▸ rfl)
    · obtain ⟨token, -, hfields⟩ := except_bind_eq_ok.mp h
      exact Or.inl (Except.ok.inj hfields ▸ rfl)
    · obtain ⟨exe, hvalue, hfields⟩ := except_bind_eq_ok.mp h
      refine Or.inr ⟨value, ?_, ?_⟩
      · rw [recordLine, ← hexe]
        exact eq_of_splitOnce hparts
      · rw [nonEmptyRecordValue] at hvalue
        split_ifs at hvalue
        rw [Except.ok.inj hvalue]
        exact Except.ok.inj hfields ▸ rfl
    · obtain ⟨startedAtUnix, -, hfields⟩ := except_bind_eq_ok.mp h
      exact Or.inl (Except.ok.inj hfields ▸ rfl)
    · obtain ⟨mode, -, hfields⟩ := except_bind_eq_ok.mp h
      cases hmode' : knownMode mode.toList with
      | none =>
        simp only [hmode', reduceCtorEq] at hfields
      | some mode' =>
        simp only [hmode'] at hfields
        exact Or.inl (Except.ok.inj hfields ▸ rfl)
    · exact Or.inl (Except.ok.inj h ▸ rfl)

theorem record_eq_ok {record : DaemonRecord} (h : fields.record = .ok record) :
    fields.exe = some record.exe := by
  simp only [RecordFields.record, except_bind_eq_ok, okOr_eq_ok, except_pure_eq_ok] at h
  obtain ⟨pid, -, token, -, exe, hexe, startedAtUnix, -, mode, -, rfl⟩ := h
  exact hexe

end RecordFields

/-! ## Round trips -/

namespace DaemonRecord

/-- No path that was read has a line feed. -/
theorem notMem_exe_of_decode {input : List Char} {record : DaemonRecord}
    (h : decode input = .ok record) : '\n' ∉ record.exe.toList := by
  obtain ⟨fields, hfields, hrecord⟩ := except_bind_eq_ok.mp h
  have hkept : ∀ exe ∈ fields.exe, '\n' ∉ exe.toList := by
    apply foldlM_keeps (fun fields : RecordFields ↦ ∀ exe ∈ fields.exe, '\n' ∉ exe.toList) _ hfields
    · intro exe hexe
      cases hexe
    · intro line hline fields fields' hadd hfields exe hexe
      obtain hsame | ⟨value, rfl, hvalue⟩ := RecordFields.exe_of_addLine hadd
      · exact hfields exe (hsame ▸ hexe)
      · rw [hvalue] at hexe
        rw [← Option.some.inj hexe, String.toList_ofList]
        intro hmem
        apply notMem_of_mem_lines (List.mem_of_mem_filter hline)
        exact List.mem_append_right _ (List.mem_cons_of_mem _ hmem)
  exact hkept record.exe (RecordFields.record_eq_ok hrecord)

variable {self : DaemonRecord}

theorem singleLine_recordLine {key : String} {value : List Char} (hkey : SingleLine key.toList)
    (hvalue : SingleLine value) : SingleLine (recordLine key value) :=
  hkey.append (hvalue.cons (by decide) (by decide))

/-- A path without a line feed is read up to the carriage return that it may end with. -/
theorem decode_encode (htoken : SingleLine self.token.toList) (htokenText : self.token.toList ≠ [])
    (hexe : '\n' ∉ self.exe.toList) (hexeText : self.exe.toList ≠ []) :
    decode self.encode =
      (nonEmptyRecordValue "exe" (dropReturn self.exe.toList)).map fun exe ↦ { self with exe } := by
  have hkeys : SingleLine "pid".toList ∧ SingleLine "token".toList ∧
      SingleLine "started_at_unix".toList ∧ SingleLine "mode".toList :=
    ⟨⟨by decide, by decide⟩, ⟨by decide, by decide⟩, ⟨by decide, by decide⟩, ⟨by decide, by decide⟩⟩
  have hmode : SingleLine self.mode.asStr.toList := by
    cases self.mode <;> exact ⟨by decide, by decide⟩
  have hexeLine : '\n' ∉ recordLine "exe" self.exe.toList := by
    intro hmem
    obtain hkey | hvalue := List.mem_append.mp hmem
    · exact absurd hkey (by decide)
    · exact hexe ((List.mem_cons.mp hvalue).resolve_left (by decide))
  have hdrop : dropReturn (recordLine "exe" self.exe.toList) =
      recordLine "exe" (dropReturn self.exe.toList) := by
    have hsplit (value : List Char) : recordLine "exe" value = ("exe".toList ++ ['=']) ++ value := by
      rw [List.append_assoc]
      rfl
    rw [hsplit, hsplit, dropReturn_append hexeText]
  have hlines : lines self.encode =
      [recordLine "pid" (writeWord self.pid), recordLine "token" self.token.toList,
        recordLine "exe" (dropReturn self.exe.toList),
        recordLine "started_at_unix" (writeWord self.startedAtUnix),
        recordLine "mode" self.mode.asStr.toList] := by
    rw [encode_eq, lines_cons (singleLine_recordLine hkeys.1 (singleLine_writeWord _)),
      lines_cons (singleLine_recordLine hkeys.2.1 htoken), lines_cons_of_notMem hexeLine, hdrop,
      lines_cons (singleLine_recordLine hkeys.2.2.1 (singleLine_writeWord _)),
      lines_cons (singleLine_recordLine hkeys.2.2.2 hmode)]
    rfl
  rw [decode, hlines, RecordFields.addLines_cons _ rfl, RecordFields.addLine_pid, except_ok_bind,
    RecordFields.addLines_cons _ rfl, RecordFields.addLine_token _ htokenText, except_ok_bind,
    RecordFields.addLines_cons _ rfl, RecordFields.addLine_exe]
  cases nonEmptyRecordValue "exe" (dropReturn self.exe.toList) with
  | error message => rfl
  | ok exe =>
    rw [Except.map, except_ok_bind, RecordFields.addLines_cons _ rfl, RecordFields.addLine_startedAt,
      except_ok_bind, RecordFields.addLines_cons _ rfl, RecordFields.addLine_mode]
    rfl

theorem decode_encode_of_exe {self : DaemonRecord} (htokenLine : SingleLine self.token.toList)
    (htokenText : self.token ≠ "") (hexe : self.exe ≠ "") (hnewline : '\n' ∉ self.exe.toList)
    (hlast : self.exe.toList.getLast? ≠ some '\r') : decode self.encode = .ok self := by
  have htoken : self.token.toList ≠ [] := fun h ↦ htokenText (String.toList_eq_nil_iff.mp h)
  have hexeText : self.exe.toList ≠ [] := fun h ↦ hexe (String.toList_eq_nil_iff.mp h)
  rw [decode_encode htokenLine htoken hnewline hexeText, dropReturn_eq_self_iff.mpr hlast,
    nonEmptyRecordValue, if_neg hexeText, String.ofList_toList]
  rfl

/-- A record reads back as it was written exactly if its path has no line feed and does not end with a
carriage return. -/
theorem decode_encode_iff (self : DaemonRecord)
    (htoken : ∃ pid nanos, self.token = FerrisBridge.generateToken pid nanos)
    (hexe : self.exe ≠ "") :
    decode self.encode = .ok self ↔
      '\n' ∉ self.exe.toList ∧ self.exe.toList.getLast? ≠ some '\r' := by
  obtain ⟨pid, nanos, htoken⟩ := htoken
  have htokenLine : SingleLine self.token.toList := htoken ▸ singleLine_generateToken pid nanos
  have htokenText : self.token.toList ≠ [] := by
    rw [htoken]
    simp [FerrisBridge.generateToken]
  have hexeText : self.exe.toList ≠ [] := fun h ↦ hexe (String.toList_eq_nil_iff.mp h)
  constructor
  · intro h
    have hnewline : '\n' ∉ self.exe.toList := notMem_exe_of_decode h
    refine ⟨hnewline, ?_⟩
    rw [decode_encode htokenLine htokenText hnewline hexeText, nonEmptyRecordValue] at h
    split_ifs at h
    · cases h
    · have hpath := congrArg (·.exe.toList) (Except.ok.inj h)
      simp only [String.toList_ofList] at hpath
      exact dropReturn_eq_self_iff.mp hpath
  · rintro ⟨hnewline, hlast⟩
    exact decode_encode_of_exe htokenLine (fun h ↦ htokenText (String.toList_eq_nil_iff.mpr h)) hexe
      hnewline hlast

theorem decode_encode_iff_spaces :
    decode (encode ⟨42, FerrisBridge.generateToken 7 1700000000, "/opt/my = app/ferris\ragent",
        1700000000, .background⟩) =
      .ok ⟨42, FerrisBridge.generateToken 7 1700000000, "/opt/my = app/ferris\ragent",
        1700000000, .background⟩ ↔
      '\n' ∉ "/opt/my = app/ferris\ragent".toList ∧
        "/opt/my = app/ferris\ragent".toList.getLast? ≠ some '\r' :=
  decode_encode_iff _ ⟨7, 1700000000, rfl⟩ (by decide)

/-- A line feed in the path can give the record another process id. -/
theorem decode_encode_newline :
    decode (encode ⟨42, FerrisBridge.generateToken 42 1700000000, "/opt/x\npid=7", 1700000000,
        .background⟩) =
      .ok ⟨7, FerrisBridge.generateToken 42 1700000000, "/opt/x", 1700000000, .background⟩ ∧
    decode (encode ⟨42, FerrisBridge.generateToken 42 1700000000, "/opt/x\npid=7", 1700000000,
        .background⟩) ≠
      .ok ⟨42, FerrisBridge.generateToken 42 1700000000, "/opt/x\npid=7", 1700000000,
        .background⟩ := by
  decide +kernel

end DaemonRecord

/-! ## The content of a record file -/

/-- The content of a record file with a text. -/
def Content.ofText (text : List Char) : Content :=
  match DaemonRecord.decode text with
  | .ok decoded => .record decoded
  | .error _ => .invalid

/-- The content of a file to which a record has been written is the record, if its path is on one line and
does not end with a carriage return. -/
theorem Content.ofText_encode {record : DaemonRecord} (htokenLine : SingleLine record.token.toList)
    (htoken : record.token ≠ "") (hexe : record.exe ≠ "") (hnewline : '\n' ∉ record.exe.toList)
    (hlast : record.exe.toList.getLast? ≠ some '\r') :
    Content.ofText record.encode = .record record := by
  rw [Content.ofText, DaemonRecord.decode_encode_of_exe htokenLine htoken hexe hnewline hlast]

end FerrisBridge.Daemon
