import FerrisBridge.Format.Current

/-!
# The shape of the runs in a file

The output field of a run is read twice. The typed reader takes a run that is an object or a
positional array and defaults the field, which comes last. The check of the shape, which rejects a
run without the field, looks only at runs that are objects, and only in a file that is an object.
-/

open Foundations

namespace FerrisBridge

/-! ## One run -/

namespace RunRecord

/-- The fields of a run, in the order of a positional array. -/
def fieldNames : List String :=
  ["id", "session_id", "status", "created_at_unix", "updated_at_unix", "started_at_unix",
    "finished_at_unix", "output_delivery_ids"]

/-- Whether the typed reader finds the output field in an entry, so that nothing is defaulted. -/
def givesOutputs (entry : Json) : Bool :=
  match entry.asStruct fieldNames with
  | .ok fields => (fields.find "output_delivery_ids").isSome
  | .error _ => false

/-- A positional entry that ends before the output field. -/
def endsEarly : Json → Bool
  | .array items => items.length < fieldNames.length
  | _ => false

/-- An entry that is an object without the output field. -/
def lacksMember : Json → Bool
  | .object members => "output_delivery_ids" ∉ members.map (·.1)
  | _ => false

variable {entry : Json} {run : RunRecord} {fields : Json.Fields}

theorem givesOutputs_of_asStruct (h : entry.asStruct fieldNames = .ok fields) :
    givesOutputs entry = (fields.find "output_delivery_ids").isSome := by
  rw [givesOutputs, h]

/-- What the reader takes is a struct. -/
theorem asStruct_of_deserialize (h : deserialize entry = .ok run) :
    ∃ fields, entry.asStruct fieldNames = .ok fields := by
  simp only [deserialize, except_bind_eq_ok] at h
  obtain ⟨fields, hfields, -⟩ := h
  exact ⟨fields, hfields⟩

/-- An entry that is read gives its outputs unless it is short or lacks the member. -/
theorem givesOutputs_iff (h : deserialize entry = .ok run) :
    givesOutputs entry = true ↔ endsEarly entry = false ∧ lacksMember entry = false := by
  obtain ⟨fields, hfields⟩ := asStruct_of_deserialize h
  rw [givesOutputs_of_asStruct hfields]
  cases entry with
  | object members =>
    obtain ⟨-, -, rfl⟩ := Json.asStruct_object_eq_ok.mp hfields
    rw [Json.isSome_find_member]
    simp [endsEarly, lacksMember]
  | array items =>
    obtain ⟨hlength, rfl⟩ := Json.asStruct_array_eq_ok.mp hfields
    change items[7]?.isSome = true ↔ _
    rw [isSome_getElem?]
    simp [endsEarly, lacksMember, fieldNames]
    omega
  | null => cases hfields
  | bool value => cases hfields
  | integer value => cases hfields
  | decimal text => cases hfields
  | string value => cases hfields

end RunRecord

/-! ## The runs of a file -/

namespace RuntimeStateFileWire

/-- The fields of a file, in the order of a positional array. -/
def fieldNames : List String :=
  ["version", "sessions", "runs", "run_inputs", "inbound_events", "queued_messages",
    "outbound_deliveries", "updated_at_unix"]

/-- The run entries of a document, where the typed reader finds them. -/
def runEntries (document : Json) : List Json :=
  match document.asStruct fieldNames with
  | .ok fields => ((fields.find "runs").bind Json.asArray?).getD []
  | .error _ => []

variable {document : Json} {wire : RuntimeStateFileWire} {runs : List RunRecord}
  {fields : Json.Fields}

theorem runEntries_of_asStruct (h : document.asStruct fieldNames = .ok fields) :
    runEntries document = ((fields.find "runs").bind Json.asArray?).getD [] := by
  rw [runEntries, h]

/-- The runs of a wire struct are read from the items of an array. -/
theorem find_runs_of_deserialize (h : deserialize document = .ok wire)
    (hruns : wire.runs = .value runs) :
    ∃ fields items, document.asStruct fieldNames = .ok fields ∧
      fields.find "runs" = some (.array items) ∧ items.mapM RunRecord.deserialize = .ok runs := by
  simp only [deserialize, except_bind_eq_ok, except_pure_eq_ok] at h
  obtain ⟨fields, hfields, _, -, _, -, field, hfield, _, -, _, -, _, -, _, -, _, -, rfl⟩ := h
  obtain rfl : field = .value runs := hruns
  rw [Json.Fields.orDefault] at hfield
  cases hfind : fields.find "runs" with
  | none =>
    rw [hfind] at hfield
    cases hfield
  | some value =>
    rw [hfind] at hfield
    obtain ⟨items, rfl, hitems⟩ := Json.asList_eq_ok.mp (deserializeWireField_eq_value hfield)
    exact ⟨fields, items, hfields, hfind, hitems⟩

/-- The runs that are read are those of the entries. -/
theorem mapM_runEntries (h : deserialize document = .ok wire) (hruns : wire.runs = .value runs) :
    (runEntries document).mapM RunRecord.deserialize = .ok runs := by
  obtain ⟨fields, items, hfields, hfind, hitems⟩ := find_runs_of_deserialize h hruns
  rw [runEntries_of_asStruct hfields, hfind]
  exact hitems

/-- Every entry is read as a run. -/
theorem deserialize_of_mem_runEntries (h : deserialize document = .ok wire)
    (hruns : wire.runs = .value runs) {entry : Json} (hentry : entry ∈ runEntries document) :
    ∃ run, RunRecord.deserialize entry = .ok run := by
  have hread := (mapM_eq_ok_iff.mp (mapM_runEntries h hruns)).flip
  obtain ⟨run, -, hrun⟩ := exists_of_mem_right hread hentry
  exact ⟨run, hrun⟩

/-- The check of the shape looks into objects only: of the file and of a run. -/
theorem requireCurrentRunOutputFields_eq_ok (h : deserialize document = .ok wire)
    (hruns : wire.runs = .value runs) :
    requireCurrentRunOutputFields document = .ok () ↔
      (document.keys?.isSome → ∀ entry ∈ runEntries document,
        RunRecord.lacksMember entry = false) := by
  obtain ⟨fields, items, hfields, hfind, -⟩ := find_runs_of_deserialize h hruns
  have hentries : runEntries document = items := by
    rw [runEntries_of_asStruct hfields, hfind]
    rfl
  rw [hentries]
  cases document with
  | object members =>
    obtain ⟨-, hnodup, rfl⟩ := Json.asStruct_object_eq_ok.mp hfields
    have hget : (Json.object members).get? "runs" = some (.array items) :=
      (Json.get?_object hnodup "runs").trans hfind
    simp only [requireCurrentRunOutputFields, hget, Option.bind_some, Json.asArray?, forM_eq_ok_iff]
    constructor
    · intro hcheck _ entry hentry
      obtain ⟨index, hindex⟩ := List.getElem?_of_mem hentry
      have hentry := hcheck (entry, index) (List.mk_mem_zipIdx_iff_getElem?.mpr hindex)
      cases entry with
      | object fields =>
        have hpresent := rejectIf_eq_ok.mp hentry
        exact decide_eq_false hpresent
      | _ => rfl
    · rintro hlacks ⟨entry, index⟩ hentry
      have hentry := hlacks rfl entry (List.fst_mem_of_mem_zipIdx hentry)
      cases entry with
      | object fields =>
        apply rejectIf_eq_ok.mpr
        exact of_decide_eq_false hentry
      | _ => rfl
  | array rows =>
    simp [requireCurrentRunOutputFields, Json.get?, Json.keys?]
  | null => cases hfields
  | bool value => cases hfields
  | integer value => cases hfields
  | decimal text => cases hfields
  | string value => cases hfields

end RuntimeStateFileWire

section Parse

open RuntimeStateFileWire

/-- Of a file in the current version all runs are there. -/
theorem runs_of_parseStateFile {fromStr : String → Except String Json} {input : String}
    {document : Json} {wire : RuntimeStateFileWire} {state : RuntimeState}
    (hdocument : fromStr input = .ok document) (hwire : deserialize document = .ok wire)
    (hversion : wire.version = runtimeStateFileVersion)
    (haccepted : parseStateFile fromStr input = .ok state) :
    wire.runs = .value state.runs ∧ requireCurrentRunOutputFields document = .ok () := by
  obtain ⟨_, hagain, _, hread, hshape, hstate⟩ := parseStateFile_eq_ok.mp haccepted
  obtain rfl := Except.ok.inj (hdocument.symm.trans hagain)
  obtain rfl := Except.ok.inj (hwire.symm.trans hread)
  refine ⟨?_, hshape hversion⟩
  have hruns := (intoState_eq_ok.mp hstate).1.runs
  rw [hversion, WireField.Carries, if_pos (by decide)] at hruns
  exact hruns

/-- Every run of an accepted file of the current version gives its outputs exactly if no positional
run ends early and, in a positional file, no run that is an object lacks the member. -/
theorem parseStateFile_outputs_iff (fromStr : String → Except String Json) (input : String)
    (document : Json) (wire : RuntimeStateFileWire) (state : RuntimeState)
    (hdocument : fromStr input = .ok document) (hwire : deserialize document = .ok wire)
    (hversion : wire.version = runtimeStateFileVersion)
    (haccepted : parseStateFile fromStr input = .ok state) :
    (∀ entry ∈ runEntries document, RunRecord.givesOutputs entry = true) ↔
      ∀ entry ∈ runEntries document, RunRecord.endsEarly entry = false ∧
        (document.keys? = none → RunRecord.lacksMember entry = false) := by
  obtain ⟨hruns, hshape⟩ := runs_of_parseStateFile hdocument hwire hversion haccepted
  rw [requireCurrentRunOutputFields_eq_ok hwire hruns] at hshape
  apply forall₂_congr
  intro entry hentry
  obtain ⟨run, hrun⟩ := deserialize_of_mem_runEntries hwire hruns hentry
  rw [RunRecord.givesOutputs_iff hrun, and_congr_right_iff]
  intro _
  constructor
  · exact fun hlacks _ ↦ hlacks
  · intro hpositional
    cases hkeys : document.keys? with
    | none => exact hpositional hkeys
    | some keys => exact hshape (by rw [hkeys]; rfl) entry hentry

end Parse

/-! ## A run that ends early -/

theorem parseStateFile_outputs_iff_team :
    (∀ entry ∈ RuntimeStateFileWire.runEntries (stateFileFromState teamState),
        RunRecord.givesOutputs entry = true) ↔
      ∀ entry ∈ RuntimeStateFileWire.runEntries (stateFileFromState teamState),
        RunRecord.endsEarly entry = false ∧
          ((stateFileFromState teamState).keys? = none → RunRecord.lacksMember entry = false) :=
  have hvalid : teamState.Valid := RuntimeState.validate_eq_ok.mp rfl
  parseStateFile_outputs_iff readTeamText teamText _ (.ofState teamState) teamState (if_pos rfl)
    (RuntimeStateFileWire.deserialize_stateFileFromState hvalid) rfl
    (parseStateFile_of_written hvalid (if_pos rfl))

/-- The entry of the team's run as an array of its first seven fields. -/
def shortRun : Json :=
  .array [
    .string "run_team", .string "session_v1_6_666569736875_6_7465616d3a31", .string "running",
    .integer 3, .integer 5, .integer 5, .null]

def shortFile : Json :=
  .object [
    ("version", .integer 8),
    ("sessions", .ofList Session.serialize teamState.sessions),
    ("runs", .array [shortRun]),
    ("run_inputs", .array []),
    ("inbound_events", .array []),
    ("queued_messages", .array []),
    ("outbound_deliveries", .array []),
    ("updated_at_unix", .integer 5)]

def shortText : String :=
  "\x7b\"version\": 8, \"sessions\": [\x7b" ++
    "\"id\": \"session_v1_6_666569736875_6_7465616d3a31\", " ++
    "\"scope\": \x7b\"platform\": \"feishu\", \"scope\": \"team:1\"\x7d, " ++
    "\"created_at_unix\": 1, \"updated_at_unix\": 2\x7d], \"runs\": [[\"run_team\", " ++
    "\"session_v1_6_666569736875_6_7465616d3a31\", \"running\", 3, 5, 5, null]], " ++
    "\"run_inputs\": [], \"inbound_events\": [], \"queued_messages\": [], " ++
    "\"outbound_deliveries\": [], \"updated_at_unix\": 5\x7d"

/-- The reader at this text. -/
def readShortText (input : String) : Except String Json :=
  if input = shortText then .ok shortFile else .error "expected value"

/-- The file is accepted, and its run has no outputs. -/
theorem not_parseStateFile_outputs :
    parseStateFile readShortText shortText = .ok teamState ∧
      shortFile.get? "version" = some (.integer 8) ∧
      shortRun ∈ RuntimeStateFileWire.runEntries shortFile ∧
      RunRecord.givesOutputs shortRun = false := by
  have hdocument : readShortText shortText = .ok shortFile := if_pos rfl
  have hwire : RuntimeStateFileWire.deserialize shortFile = .ok (.ofState teamState) := rfl
  have hstate : (RuntimeStateFileWire.ofState teamState).intoState = .ok teamState :=
    RuntimeStateFileWire.intoState_eq_ok.mpr
      ⟨RuntimeStateFileWire.ofState_migratesTo _, RuntimeState.validate_eq_ok.mp rfl⟩
  refine ⟨parseStateFile_eq_ok.mpr ⟨_, hdocument, _, hwire, fun _ ↦ rfl, hstate⟩, rfl,
    List.mem_singleton_self _, rfl⟩

end FerrisBridge
