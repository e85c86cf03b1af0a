import FerrisBridge.Format.Record
import FerrisBridge.Format.Versioned

/-!
# The state file

The current format, and the reader of all versions. The text itself is written and read by a JSON
library; its reader is a parameter, and the writer is any function whose text the reader gives back.
-/

open Foundations

namespace FerrisBridge

/-! ## Reading the parts -/

/-- The parts that a state file of any version gives. -/
structure PersistedStateParts where
  sessions : List Session
  runs : List RunRecord
  runInputs : List RunInputRecord
  inboundEvents : List InboundEventRecord
  queuedMessages : List QueuedMessage
  outboundDeliveries : List OutboundDeliveryRecord
  updatedAtUnix : U64
  normalizeAggregateUpdatedAt : Bool

namespace RuntimeState

def normalizeMigratedAggregateUpdatedAt (state : RuntimeState) : RuntimeState :=
  { state with
    updatedAtUnix := (state.sessions.map (·.updatedAtUnix) ++ state.runs.map (·.updatedAtUnix) ++
      state.runInputs.map (·.claimedAtUnix) ++ state.inboundEvents.map (·.recordedAtUnix) ++
      state.outboundDeliveries.map (·.updatedAtUnix) ++
      state.queuedMessages.map (·.enqueuedAtUnix)).foldl max state.updatedAtUnix }

def fromPersistedParts (parts : PersistedStateParts) : Except String RuntimeState := do
  let state : RuntimeState :=
    { sessions := parts.sessions
      runs := parts.runs
      runInputs := parts.runInputs
      inboundEvents := parts.inboundEvents
      queuedMessages := parts.queuedMessages
      outboundDeliveries := parts.outboundDeliveries
      updatedAtUnix := parts.updatedAtUnix }
  let state :=
    if parts.normalizeAggregateUpdatedAt then state.normalizeMigratedAggregateUpdatedAt else state
  state.validate
  return state

theorem fromPersistedParts_eq_ok {parts : PersistedStateParts} {state : RuntimeState} :
    fromPersistedParts parts = .ok state ↔ state.Valid ∧ state.sessions = parts.sessions ∧
      state.runs = parts.runs ∧ state.runInputs = parts.runInputs ∧
      state.inboundEvents = parts.inboundEvents ∧ state.queuedMessages = parts.queuedMessages ∧
      state.outboundDeliveries = parts.outboundDeliveries ∧
      state.updatedAtUnix = if parts.normalizeAggregateUpdatedAt then
        state.recordTimes.foldl max parts.updatedAtUnix else parts.updatedAtUnix := by
  obtain ⟨_, _, _, _, _, _, _⟩ := state
  simp only [fromPersistedParts, except_bind_unit_eq_ok, validate_eq_ok, except_pure_eq_ok]
  cases parts.normalizeAggregateUpdatedAt
  · simp only [Bool.false_eq_true, if_false]
    constructor
    · rintro ⟨hvalid, heq⟩
      cases heq
      exact ⟨hvalid, rfl, rfl, rfl, rfl, rfl, rfl, rfl⟩
    · rintro ⟨hvalid, rfl, rfl, rfl, rfl, rfl, rfl, rfl⟩
      exact ⟨hvalid, rfl⟩
  · rw [if_pos rfl]
    constructor
    · rintro ⟨hvalid, heq⟩
      cases heq
      exact ⟨hvalid, rfl, rfl, rfl, rfl, rfl, rfl, rfl⟩
    · rintro ⟨hvalid, rfl, rfl, rfl, rfl, rfl, rfl, hupdated⟩
      have heq : normalizeMigratedAggregateUpdatedAt ⟨parts.sessions, parts.runs, parts.runInputs,
          parts.inboundEvents, parts.queuedMessages, parts.outboundDeliveries,
          parts.updatedAtUnix⟩ = _ := congrArg (RuntimeState.mk _ _ _ _ _ _) hupdated.symm
      exact ⟨heq ▸ hvalid, heq⟩

end RuntimeState

/-! ## The wire struct of the file -/

structure RuntimeStateFileWire where
  version : U32
  sessions : List Session
  runs : WireField (List RunRecord)
  runInputs : WireField (List RunInputRecord)
  inboundEvents : WireField (List InboundEventRecord)
  queuedMessages : WireField (List QueuedMessage)
  outboundDeliveries : WireField (List OutboundDeliveryRecord)
  updatedAtUnix : U64

namespace RuntimeStateFileWire

def deserialize (document : Json) : Except String RuntimeStateFileWire := do
  let fields ← document.asStruct
    ["version", "sessions", "runs", "run_inputs", "inbound_events", "queued_messages",
      "outbound_deliveries", "updated_at_unix"]
  let version ← fields.required "version" Json.asWord
  let sessions ← fields.required "sessions" (Json.asList Session.deserialize)
  let runs ← fields.orDefault "runs"
    (deserializeWireField (Json.asList RunRecord.deserialize)) .missing
  let runInputs ← fields.orDefault "run_inputs"
    (deserializeWireField (Json.asList RunInputRecord.deserialize)) .missing
  let inboundEvents ← fields.orDefault "inbound_events"
    (deserializeWireField (Json.asList InboundEventRecord.deserialize)) .missing
  let queuedMessages ← fields.orDefault "queued_messages"
    (deserializeWireField (Json.asList QueuedMessage.deserialize)) .missing
  let outboundDeliveries ← fields.orDefault "outbound_deliveries"
    (deserializeWireField (Json.asList OutboundDeliveryRecord.deserialize)) .missing
  let updatedAtUnix ← fields.required "updated_at_unix" Json.asWord
  let wire : RuntimeStateFileWire :=
    { version, sessions, runs, runInputs, inboundEvents, queuedMessages, outboundDeliveries,
      updatedAtUnix }
  return wire

def intoState (wire : RuntimeStateFileWire) : Except String RuntimeState := do
  let collections ← decodePersistedCollections wire.version wire.runs wire.runInputs
    wire.inboundEvents wire.queuedMessages wire.outboundDeliveries
  RuntimeState.fromPersistedParts
    { sessions := wire.sessions
      runs := collections.runs
      runInputs := collections.runInputs
      inboundEvents := collections.inboundEvents
      queuedMessages := collections.queuedMessages
      outboundDeliveries := collections.outboundDeliveries
      updatedAtUnix := wire.updatedAtUnix
      normalizeAggregateUpdatedAt := collections.normalizeAggregateUpdatedAt }

end RuntimeStateFileWire

/-! ## Writing and parsing -/

def stateFileFromState (state : RuntimeState) : Json :=
  .object [
    ("version", .ofWord runtimeStateFileVersion),
    ("sessions", .ofList Session.serialize state.sessions),
    ("runs", .ofList RunRecord.serialize state.runs),
    ("run_inputs", .ofList RunInputRecord.serialize state.runInputs),
    ("inbound_events", .ofList InboundEventRecord.serialize state.inboundEvents),
    ("queued_messages", .ofList QueuedMessage.serialize state.queuedMessages),
    ("outbound_deliveries", .ofList OutboundDeliveryRecord.serialize state.outboundDeliveries),
    ("updated_at_unix", .ofWord state.updatedAtUnix)]

/-- A run of the current version must have its output field, which the wire struct would default. -/
def requireCurrentRunOutputFields (shape : Json) : Except String Unit :=
  match (shape.get? "runs").bind Json.asArray? with
  | none => .ok ()
  | some runs => runs.zipIdx.forM fun (run, index) ↦
    match run.keys? with
    | none => .ok ()
    | some keys => rejectIf ("output_delivery_ids" ∉ keys)
      (s!"runtime state version {runtimeStateFileVersion.toNat} run at index {index} " ++
        "must contain output_delivery_ids")

/-- The text is read twice: once as the wire struct, and in the current version once as a value. -/
def parseStateFile (fromStr : String → Except String Json) (input : String) :
    Except String RuntimeState := do
  let stateFile ← RuntimeStateFileWire.deserialize (← fromStr input)
  if stateFile.version = runtimeStateFileVersion then
    requireCurrentRunOutputFields (← fromStr input)
  stateFile.intoState

/-! ## Migration -/

namespace RuntimeStateFileWire

variable {wire : RuntimeStateFileWire} {state : RuntimeState}

/-- What reading a file of any version does: the collections of the version are carried over, the
others start empty, and the first two versions, which did not keep the aggregate timestamp up to
date, have it raised to the latest record. -/
structure MigratesTo (wire : RuntimeStateFileWire) (state : RuntimeState) : Prop where
  version_pos : 1 ≤ wire.version.toNat
  version_le : wire.version.toNat ≤ 8
  sessions : state.sessions = wire.sessions
  runs : wire.runs.Carries 2 wire.version.toNat state.runs
  inbound_events : wire.inboundEvents.Carries 3 wire.version.toNat state.inboundEvents
  outbound_deliveries :
    wire.outboundDeliveries.Carries 4 wire.version.toNat state.outboundDeliveries
  queued_messages : wire.queuedMessages.Carries 5 wire.version.toNat state.queuedMessages
  run_inputs : wire.runInputs.Carries 6 wire.version.toNat state.runInputs
  interrupted : wire.version.toNat < 7 → ∀ run ∈ state.runs, run.status ≠ .interrupted
  outputs : wire.version.toNat < 8 → ∀ run ∈ state.runs, run.outputDeliveryIds = []
  updated : 3 ≤ wire.version.toNat → state.updatedAtUnix = wire.updatedAtUnix
  normalized : wire.version.toNat < 3 →
    IsGreatest (insert wire.updatedAtUnix {time | time ∈ state.recordTimes}) state.updatedAtUnix

theorem MigratesTo.decodes (h : wire.MigratesTo state) :
    Decodes wire.version.toNat wire.runs wire.runInputs wire.inboundEvents wire.queuedMessages
      wire.outboundDeliveries ⟨state.runs, state.runInputs, state.inboundEvents,
        state.queuedMessages, state.outboundDeliveries, decide (wire.version.toNat < 3)⟩ where
  version_pos := h.version_pos
  version_le := h.version_le
  runs := h.runs
  inbound_events := h.inbound_events
  outbound_deliveries := h.outbound_deliveries
  queued_messages := h.queued_messages
  run_inputs := h.run_inputs
  interrupted := h.interrupted
  outputs := h.outputs
  normalize := rfl

theorem intoState_eq_ok : wire.intoState = .ok state ↔ wire.MigratesTo state ∧ state.Valid := by
  simp only [intoState, except_bind_eq_ok, decodePersistedCollections_eq_ok,
    RuntimeState.fromPersistedParts_eq_ok]
  constructor
  · rintro ⟨⟨runs, inputs, events, queued, deliveries, normalize⟩, hdecodes, hvalid, hsessions, rfl,
      rfl, rfl, rfl, rfl, hupdated⟩
    rw [hdecodes.normalize] at hupdated
    refine ⟨?_, hvalid⟩
    exact {
      version_pos := hdecodes.version_pos
      version_le := hdecodes.version_le
      sessions := hsessions
      runs := hdecodes.runs
      inbound_events := hdecodes.inbound_events
      outbound_deliveries := hdecodes.outbound_deliveries
      queued_messages := hdecodes.queued_messages
      run_inputs := hdecodes.run_inputs
      interrupted := hdecodes.interrupted
      outputs := hdecodes.outputs
      updated := by
        intro hlate
        rw [hupdated, if_neg (by simpa using hlate)]
      normalized := by
        intro hearly
        rw [hupdated, if_pos (decide_eq_true hearly)]
        exact isGreatest_foldl_max _ _ }
  · rintro ⟨hmigrates, hvalid⟩
    refine ⟨_, hmigrates.decodes, hvalid, hmigrates.sessions, rfl, rfl, rfl, rfl, rfl, ?_⟩
    by_cases hearly : wire.version.toNat < 3
    · rw [if_pos (decide_eq_true hearly)]
      exact (hmigrates.normalized hearly).unique (isGreatest_foldl_max _ _)
    · rw [if_neg (by simpa using hearly)]
      exact hmigrates.updated (not_lt.mp hearly)

/-! ## Reading what was written -/

/-- The wire struct of the current version. -/
def ofState (state : RuntimeState) : RuntimeStateFileWire where
  version := runtimeStateFileVersion
  sessions := state.sessions
  runs := .value state.runs
  runInputs := .value state.runInputs
  inboundEvents := .value state.inboundEvents
  queuedMessages := .value state.queuedMessages
  outboundDeliveries := .value state.outboundDeliveries
  updatedAtUnix := state.updatedAtUnix

theorem ofState_migratesTo (state : RuntimeState) : (ofState state).MigratesTo state where
  version_pos := by simp [ofState]
  version_le := by simp [ofState]
  sessions := rfl
  runs := rfl
  inbound_events := rfl
  outbound_deliveries := rfl
  queued_messages := rfl
  run_inputs := rfl
  interrupted := fun h ↦ absurd h (by simp [ofState])
  outputs := fun h ↦ absurd h (by simp [ofState])
  updated := fun _ ↦ rfl
  normalized := fun h ↦ absurd h (by simp [ofState])

theorem deserialize_stateFileFromState (h : state.Valid) :
    deserialize (stateFileFromState state) = .ok (ofState state) := by
  have hsessions := Json.asList_ofList fun session hsession ↦
    Session.deserialize_serialize (h.sessions session hsession)
  have hruns := deserializeWireField_ofList fun run hrun ↦
    RunRecord.deserialize_serialize (h.runs run hrun)
  have hinputs := deserializeWireField_ofList fun input hinput ↦
    RunInputRecord.deserialize_serialize (h.inputs input hinput)
  have hevents := deserializeWireField_ofList fun event hevent ↦
    InboundEventRecord.deserialize_serialize (h.events event hevent)
  have hqueued := deserializeWireField_ofList fun queued hqueued ↦
    QueuedMessage.deserialize_serialize (h.queued queued hqueued)
  have hdeliveries := deserializeWireField_ofList fun delivery hdelivery ↦
    OutboundDeliveryRecord.deserialize_serialize (h.deliveries delivery hdelivery)
  rw [deserialize, stateFileFromState, Json.asStruct_object]
  · simp only [except_bind_eq_ok, Json.Fields.required_eq_ok, except_pure_eq_ok]
    exact ⟨_, rfl, _, ⟨_, rfl, Json.asWord_ofWord _⟩, _, ⟨_, rfl, hsessions⟩, _, hruns, _, hinputs,
      _, hevents, _, hqueued, _, hdeliveries, _, ⟨_, rfl, Json.asWord_ofWord _⟩, rfl⟩
  · rfl
  · decide

end RuntimeStateFileWire

/-- The writer gives every run its output field. -/
theorem requireCurrentRunOutputFields_stateFileFromState (state : RuntimeState) :
    requireCurrentRunOutputFields (stateFileFromState state) = .ok () := by
  change (state.runs.map RunRecord.serialize).zipIdx.forM _ = _
  rw [forM_eq_ok_iff]
  rintro ⟨run, index⟩ hmem
  obtain ⟨record, -, rfl⟩ := List.mem_map.mp (List.fst_mem_of_mem_zipIdx hmem)
  change rejectIf _ _ = _
  rw [rejectIf_eq_ok]
  simp

section Parse

variable {fromStr : String → Except String Json} {input : String} {state : RuntimeState}

theorem parseStateFile_eq_ok : parseStateFile fromStr input = .ok state ↔
    ∃ document, fromStr input = .ok document ∧
      ∃ wire, RuntimeStateFileWire.deserialize document = .ok wire ∧
        (wire.version = runtimeStateFileVersion →
          requireCurrentRunOutputFields document = .ok ()) ∧ wire.intoState = .ok state := by
  rw [parseStateFile, except_bind_eq_ok]
  apply exists_congr
  intro document
  rw [and_congr_right_iff]
  intro hdocument
  rw [except_bind_eq_ok]
  apply exists_congr
  intro wire
  rw [and_congr_right_iff]
  intro _
  by_cases hversion : wire.version = runtimeStateFileVersion
  · simp [hversion, hdocument, except_bind_unit_eq_ok, except_ok_bind]
  · simp [hversion]

/-- The text of a valid state reads back as the state. -/
theorem parseStateFile_of_written (hvalid : state.Valid)
    (hinput : fromStr input = .ok (stateFileFromState state)) :
    parseStateFile fromStr input = .ok state := by
  rw [parseStateFile_eq_ok]
  refine ⟨_, hinput, _, RuntimeStateFileWire.deserialize_stateFileFromState hvalid, ?_, ?_⟩
  · intro _
    exact requireCurrentRunOutputFields_stateFileFromState state
  · rw [RuntimeStateFileWire.intoState_eq_ok]
    exact ⟨RuntimeStateFileWire.ofState_migratesTo state, hvalid⟩

end Parse

/-- Every state that the program accepts, and so every state that it writes, can be loaded. -/
theorem state_file_round_trip (fromStr : String → Except String Json) (toString : Json → String)
    (state : RuntimeState) (hvalid : state.validate = .ok ())
    (hjson : fromStr (toString (stateFileFromState state)) = .ok (stateFileFromState state)) :
    parseStateFile fromStr (toString (stateFileFromState state)) = .ok state :=
  parseStateFile_of_written (RuntimeState.validate_eq_ok.mp hvalid) hjson

/-- A file of any version is read only as its version allows, and loses nothing; what was read is
written and read back unchanged. -/
theorem migration_lossless (wire : RuntimeStateFileWire) (state : RuntimeState) :
    (wire.intoState = .ok state ↔ wire.MigratesTo state ∧ state.validate = .ok ()) ∧
      (wire.intoState = .ok state →
        ∀ (fromStr : String → Except String Json) (toString : Json → String),
          fromStr (toString (stateFileFromState state)) = .ok (stateFileFromState state) →
            parseStateFile fromStr (toString (stateFileFromState state)) = .ok state) := by
  rw [RuntimeState.validate_eq_ok, RuntimeStateFileWire.intoState_eq_ok]
  constructor
  · rfl
  · rintro ⟨-, hvalid⟩ fromStr toString hjson
    exact parseStateFile_of_written hvalid hjson

/-! ## A team with one run -/

def team : SessionScope := ⟨"feishu", "team:1", by decide, by decide⟩

/-- A file of version 2 whose aggregate timestamp is older than its records. -/
def teamFile : RuntimeStateFileWire where
  version := 2
  sessions :=
    [{ id := .forScope team, scope := team, createdAtUnix := 1, updatedAtUnix := 2 }]
  runs := .value [{
    id := ⟨"run_team", by decide⟩
    sessionId := .forScope team
    status := .running
    createdAtUnix := 3
    updatedAtUnix := 5
    startedAtUnix := some 5
    finishedAtUnix := none
    outputDeliveryIds := [] }]
  runInputs := .missing
  inboundEvents := .missing
  queuedMessages := .missing
  outboundDeliveries := .missing
  updatedAtUnix := 1

/-- The state of the file. -/
def teamState : RuntimeState where
  sessions :=
    [{ id := .forScope team, scope := team, createdAtUnix := 1, updatedAtUnix := 2 }]
  runs := [{
    id := ⟨"run_team", by decide⟩
    sessionId := .forScope team
    status := .running
    createdAtUnix := 3
    updatedAtUnix := 5
    startedAtUnix := some 5
    finishedAtUnix := none
    outputDeliveryIds := [] }]
  runInputs := []
  inboundEvents := []
  queuedMessages := []
  outboundDeliveries := []
  updatedAtUnix := 5

/-- The text in the current format. -/
def teamText : String :=
  "\x7b\n  \"version\": 8,\n  \"sessions\": [\n    \x7b\n" ++
    "      \"id\": \"session_v1_6_666569736875_6_7465616d3a31\",\n      \"scope\": \x7b\n" ++
    "        \"platform\": \"feishu\",\n        \"scope\": \"team:1\"\n      \x7d,\n" ++
    "      \"created_at_unix\": 1,\n      \"updated_at_unix\": 2\n    \x7d\n  ],\n" ++
    "  \"runs\": [\n    \x7b\n      \"id\": \"run_team\",\n" ++
    "      \"session_id\": \"session_v1_6_666569736875_6_7465616d3a31\",\n" ++
    "      \"status\": \"running\",\n      \"created_at_unix\": 3,\n" ++
    "      \"updated_at_unix\": 5,\n      \"started_at_unix\": 5,\n" ++
    "      \"finished_at_unix\": null,\n      \"output_delivery_ids\": []\n    \x7d\n  ],\n" ++
    "  \"run_inputs\": [],\n  \"inbound_events\": [],\n  \"queued_messages\": [],\n" ++
    "  \"outbound_deliveries\": [],\n  \"updated_at_unix\": 5\n\x7d\n"

/-- The reader at this text. -/
def readTeamText (input : String) : Except String Json :=
  if input = teamText then .ok (stateFileFromState teamState) else .error "expected value"

theorem state_file_round_trip_team : parseStateFile readTeamText teamText = .ok teamState :=
  state_file_round_trip readTeamText (fun _ ↦ teamText) teamState rfl (if_pos rfl)

theorem migration_lossless_team :
    teamFile.MigratesTo teamState ∧ parseStateFile readTeamText teamText = .ok teamState :=
  ⟨((migration_lossless teamFile teamState).1.mp rfl).1,
    (migration_lossless teamFile teamState).2 rfl readTeamText (fun _ ↦ teamText) (if_pos rfl)⟩

end FerrisBridge
