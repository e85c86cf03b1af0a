import FerrisBridge.Foundations.Json
import FerrisBridge.State.Validate

/-!
# Records in the state file

The writer and the reader of every record of the state file. They are separate in the source: the
writer is derived from the record itself, the reader from a wire struct that the source then checks,
so that a record that is read back is valid.
-/

open Foundations

namespace FerrisBridge

/-! ## Identifiers -/

def SessionId.serialize (id : SessionId) : Json := .string id.asStr

def SessionId.deserialize (document : Json) : Except String SessionId := do
  new (← document.asString)

def MessageId.serialize (id : MessageId) : Json := .string id.asStr

def MessageId.deserialize (document : Json) : Except String MessageId := do
  new (← document.asString)

def EventId.serialize (id : EventId) : Json := .string id.asStr

def EventId.deserialize (document : Json) : Except String EventId := do
  new (← document.asString)

def RunId.serialize (id : RunId) : Json := .string id.asStr

def RunId.deserialize (document : Json) : Except String RunId := do
  new (← document.asString)

def OutboundDeliveryId.serialize (id : OutboundDeliveryId) : Json := .string id.asStr

def OutboundDeliveryId.deserialize (document : Json) : Except String OutboundDeliveryId := do
  new (← document.asString)

theorem SessionId.deserialize_serialize (id : SessionId) : deserialize id.serialize = .ok id := by
  change new id.asStr = .ok id
  rw [new, dif_pos id.valid]

theorem MessageId.deserialize_serialize (id : MessageId) : deserialize id.serialize = .ok id := by
  change new id.asStr = .ok id
  rw [new, dif_neg (by rw [id.nonblank]; exact Bool.false_ne_true)]

theorem EventId.deserialize_serialize (id : EventId) : deserialize id.serialize = .ok id := by
  change new id.asStr = .ok id
  rw [new, dif_neg (by rw [id.nonblank]; exact Bool.false_ne_true)]

theorem RunId.deserialize_serialize (id : RunId) : deserialize id.serialize = .ok id := by
  change new id.asStr = .ok id
  rw [new, dif_pos id.valid]

theorem OutboundDeliveryId.deserialize_serialize (id : OutboundDeliveryId) :
    deserialize id.serialize = .ok id := by
  change new id.asStr = .ok id
  rw [new, dif_pos id.valid]

/-! ## Sessions -/

def SessionScope.serialize (scope : SessionScope) : Json :=
  .object [("platform", .string scope.platform), ("scope", .string scope.scope)]

def SessionScope.deserialize (document : Json) : Except String SessionScope := do
  let fields ← document.asStruct ["platform", "scope"]
  let platform ← fields.required "platform" Json.asString
  let scope ← fields.required "scope" Json.asString
  new platform scope

theorem SessionScope.deserialize_serialize (scope : SessionScope) :
    deserialize scope.serialize = .ok scope := by
  rw [deserialize, serialize, Json.asStruct_object]
  · change new scope.platform scope.scope = .ok scope
    rw [new, dif_neg (by rw [scope.platform_nonblank]; exact Bool.false_ne_true),
      dif_neg (by rw [scope.scope_nonblank]; exact Bool.false_ne_true)]
  · rfl
  · decide

def Session.serialize (session : Session) : Json :=
  .object [
    ("id", session.id.serialize),
    ("scope", session.scope.serialize),
    ("created_at_unix", .ofWord session.createdAtUnix),
    ("updated_at_unix", .ofWord session.updatedAtUnix)]

def Session.deserialize (document : Json) : Except String Session := do
  let fields ← document.asStruct ["id", "scope", "created_at_unix", "updated_at_unix"]
  let id ← fields.required "id" SessionId.deserialize
  let scope ← fields.required "scope" SessionScope.deserialize
  let createdAtUnix ← fields.required "created_at_unix" Json.asWord
  let updatedAtUnix ← fields.required "updated_at_unix" Json.asWord
  let session : Session := { id, scope, createdAtUnix, updatedAtUnix }
  session.validate
  return session

theorem Session.deserialize_serialize {session : Session} (h : session.Valid) :
    deserialize session.serialize = .ok session := by
  rw [deserialize, serialize, Json.asStruct_object]
  · simp only [except_bind_eq_ok, Json.Fields.required_eq_ok, validate_eq_ok, except_pure_eq_ok]
    exact ⟨_, rfl, _, ⟨_, rfl, session.id.deserialize_serialize⟩,
      _, ⟨_, rfl, session.scope.deserialize_serialize⟩, _, ⟨_, rfl, Json.asWord_ofWord _⟩,
      _, ⟨_, rfl, Json.asWord_ofWord _⟩, (), h, rfl⟩
  · rfl
  · decide

/-! ## Messages -/

def MessageAuthor.serialize : MessageAuthor → Json
  | .user => .string "user"
  | .agent => .string "agent"
  | .system => .string "system"

def MessageAuthor.deserialize : Json → Except String MessageAuthor :=
  Json.asVariant [("user", .user), ("agent", .agent), ("system", .system)]

theorem MessageAuthor.deserialize_serialize (author : MessageAuthor) :
    deserialize author.serialize = .ok author := by
  cases author <;> rfl

namespace MessageContent

def serialize : MessageContent → Json
  | .text value _ => .object [("type", .string "text"), ("text", .string value)]
  | .markdown value _ => .object [("type", .string "markdown"), ("markdown", .string value)]

/-- The tag chooses the check of the content; the other members are the fields of the variant. -/
def deserialize (document : Json) : Except String MessageContent := do
  let (variant, content) ← document.asTagged "type"
  if variant = "text" then
    let fields ← content.asStruct ["text"]
    newText (← fields.required "text" Json.asString)
  else if variant = "markdown" then
    let fields ← content.asStruct ["markdown"]
    newMarkdown (← fields.required "markdown" Json.asString)
  else throw s!"unknown variant {variant}"

theorem deserialize_serialize (content : MessageContent) :
    deserialize content.serialize = .ok content := by
  cases content with
  | text value nonblank => exact newText_eq nonblank
  | markdown value nonblank => exact newMarkdown_eq nonblank

end MessageContent

def Message.serialize (message : Message) : Json :=
  .object [
    ("id", message.id.serialize),
    ("session_id", .ofOption SessionId.serialize message.sessionId),
    ("author", message.author.serialize),
    ("content", message.content.serialize),
    ("created_at_unix", .ofWord message.createdAtUnix)]

def Message.deserialize (document : Json) : Except String Message := do
  let fields ← document.asStruct ["id", "session_id", "author", "content", "created_at_unix"]
  let id ← fields.required "id" MessageId.deserialize
  let sessionId ← fields.optional "session_id" SessionId.deserialize
  let author ← fields.required "author" MessageAuthor.deserialize
  let content ← fields.required "content" MessageContent.deserialize
  let createdAtUnix ← fields.required "created_at_unix" Json.asWord
  return { id, sessionId, author, content, createdAtUnix }

theorem Message.deserialize_serialize (message : Message) :
    deserialize message.serialize = .ok message := by
  have hsession := Json.asOption_ofOption (fun id h ↦ by cases h) SessionId.deserialize_serialize
    message.sessionId
  rw [deserialize, serialize, Json.asStruct_object]
  · simp only [except_bind_eq_ok, Json.Fields.required_eq_ok, except_pure_eq_ok]
    exact ⟨_, rfl, _, ⟨_, rfl, message.id.deserialize_serialize⟩, _, hsession,
      _, ⟨_, rfl, message.author.deserialize_serialize⟩,
      _, ⟨_, rfl, message.content.deserialize_serialize⟩, _, ⟨_, rfl, Json.asWord_ofWord _⟩, rfl⟩
  · rfl
  · decide

/-! ## The inbound ledger and the queue -/

namespace InboundEventRecord

def serialize (record : InboundEventRecord) : Json :=
  .object [
    ("id", record.id.serialize),
    ("received_at_unix", .ofWord record.receivedAtUnix),
    ("recorded_at_unix", .ofWord record.recordedAtUnix)]

def deserialize (document : Json) : Except String InboundEventRecord := do
  let fields ← document.asStruct ["id", "received_at_unix", "recorded_at_unix"]
  let id ← fields.required "id" EventId.deserialize
  let receivedAtUnix ← fields.required "received_at_unix" Json.asWord
  let recordedAtUnix ← fields.required "recorded_at_unix" Json.asWord
  new id receivedAtUnix recordedAtUnix

theorem deserialize_serialize {record : InboundEventRecord} (h : record.Valid) :
    deserialize record.serialize = .ok record := by
  rw [deserialize, serialize, Json.asStruct_object]
  · simp only [except_bind_eq_ok, Json.Fields.required_eq_ok, new, validate_eq_ok, except_pure_eq_ok]
    exact ⟨_, rfl, _, ⟨_, rfl, record.id.deserialize_serialize⟩, _, ⟨_, rfl, Json.asWord_ofWord _⟩,
      _, ⟨_, rfl, Json.asWord_ofWord _⟩, (), h, rfl⟩
  · rfl
  · decide

end InboundEventRecord

namespace QueuedMessage

def serialize (queued : QueuedMessage) : Json :=
  .object [
    ("event_id", queued.eventId.serialize),
    ("session_id", queued.sessionId.serialize),
    ("message", queued.message.serialize),
    ("received_at_unix", .ofWord queued.receivedAtUnix),
    ("enqueued_at_unix", .ofWord queued.enqueuedAtUnix)]

def deserialize (document : Json) : Except String QueuedMessage := do
  let fields ← document.asStruct
    ["event_id", "session_id", "message", "received_at_unix", "enqueued_at_unix"]
  let eventId ← fields.required "event_id" EventId.deserialize
  let sessionId ← fields.required "session_id" SessionId.deserialize
  let message ← fields.required "message" Message.deserialize
  let receivedAtUnix ← fields.required "received_at_unix" Json.asWord
  let enqueuedAtUnix ← fields.required "enqueued_at_unix" Json.asWord
  let queued : QueuedMessage := { eventId, sessionId, message, receivedAtUnix, enqueuedAtUnix }
  queued.validate
  return queued

theorem deserialize_serialize {queued : QueuedMessage} (h : queued.Valid) :
    deserialize queued.serialize = .ok queued := by
  rw [deserialize, serialize, Json.asStruct_object]
  · simp only [except_bind_eq_ok, Json.Fields.required_eq_ok, validate_eq_ok, except_pure_eq_ok]
    exact ⟨_, rfl, _, ⟨_, rfl, queued.eventId.deserialize_serialize⟩,
      _, ⟨_, rfl, queued.sessionId.deserialize_serialize⟩,
      _, ⟨_, rfl, queued.message.deserialize_serialize⟩, _, ⟨_, rfl, Json.asWord_ofWord _⟩,
      _, ⟨_, rfl, Json.asWord_ofWord _⟩, (), h, rfl⟩
  · rfl
  · decide

end QueuedMessage

/-! ## Runs and their inputs -/

namespace RunInputRecord

def serialize (input : RunInputRecord) : Json :=
  .object [
    ("run_id", input.runId.serialize),
    ("session_id", input.sessionId.serialize),
    ("messages", .ofList QueuedMessage.serialize input.messages),
    ("ready_at_unix", .ofWord input.readyAtUnix),
    ("claimed_at_unix", .ofWord input.claimedAtUnix)]

def deserialize (document : Json) : Except String RunInputRecord := do
  let fields ← document.asStruct
    ["run_id", "session_id", "messages", "ready_at_unix", "claimed_at_unix"]
  let runId ← fields.required "run_id" RunId.deserialize
  let sessionId ← fields.required "session_id" SessionId.deserialize
  let messages ← fields.required "messages" (Json.asList QueuedMessage.deserialize)
  let readyAtUnix ← fields.required "ready_at_unix" Json.asWord
  let claimedAtUnix ← fields.required "claimed_at_unix" Json.asWord
  let input : RunInputRecord := { runId, sessionId, messages, readyAtUnix, claimedAtUnix }
  input.validate
  return input

theorem deserialize_serialize {input : RunInputRecord} (h : input.Valid) :
    deserialize input.serialize = .ok input := by
  have hmessages := Json.asList_ofList fun message hmessage ↦
    QueuedMessage.deserialize_serialize (h.messages_valid message hmessage)
  rw [deserialize, serialize, Json.asStruct_object]
  · simp only [except_bind_eq_ok, Json.Fields.required_eq_ok, validate_eq_ok, except_pure_eq_ok]
    exact ⟨_, rfl, _, ⟨_, rfl, input.runId.deserialize_serialize⟩,
      _, ⟨_, rfl, input.sessionId.deserialize_serialize⟩, _, ⟨_, rfl, hmessages⟩,
      _, ⟨_, rfl, Json.asWord_ofWord _⟩, _, ⟨_, rfl, Json.asWord_ofWord _⟩, (), h, rfl⟩
  · rfl
  · decide

end RunInputRecord

def RunStatus.serialize : RunStatus → Json
  | .pending => .string "pending"
  | .running => .string "running"
  | .interrupted => .string "interrupted"
  | .completed => .string "completed"
  | .failed => .string "failed"
  | .cancelled => .string "cancelled"

def RunStatus.deserialize : Json → Except String RunStatus :=
  Json.asVariant [
    ("pending", .pending), ("running", .running), ("interrupted", .interrupted),
    ("completed", .completed), ("failed", .failed), ("cancelled", .cancelled)]

theorem RunStatus.deserialize_serialize (status : RunStatus) :
    deserialize status.serialize = .ok status := by
  cases status <;> rfl

namespace RunRecord

def serialize (run : RunRecord) : Json :=
  .object [
    ("id", run.id.serialize),
    ("session_id", run.sessionId.serialize),
    ("status", run.status.serialize),
    ("created_at_unix", .ofWord run.createdAtUnix),
    ("updated_at_unix", .ofWord run.updatedAtUnix),
    ("started_at_unix", .ofOption .ofWord run.startedAtUnix),
    ("finished_at_unix", .ofOption .ofWord run.finishedAtUnix),
    ("output_delivery_ids", .ofList OutboundDeliveryId.serialize run.outputDeliveryIds)]

/-- The versions before output links have runs without their field. -/
def deserialize (document : Json) : Except String RunRecord := do
  let fields ← document.asStruct
    ["id", "session_id", "status", "created_at_unix", "updated_at_unix", "started_at_unix",
      "finished_at_unix", "output_delivery_ids"]
  let id ← fields.required "id" RunId.deserialize
  let sessionId ← fields.required "session_id" SessionId.deserialize
  let status ← fields.required "status" RunStatus.deserialize
  let createdAtUnix ← fields.required "created_at_unix" Json.asWord
  let updatedAtUnix ← fields.required "updated_at_unix" Json.asWord
  let startedAtUnix ← fields.optional "started_at_unix" Json.asWord
  let finishedAtUnix ← fields.optional "finished_at_unix" Json.asWord
  let outputDeliveryIds ←
    fields.orDefault "output_delivery_ids" (Json.asList OutboundDeliveryId.deserialize) []
  let run : RunRecord :=
    { id, sessionId, status, createdAtUnix, updatedAtUnix, startedAtUnix, finishedAtUnix,
      outputDeliveryIds }
  run.validate
  return run

theorem deserialize_serialize {run : RunRecord} (h : run.Valid) :
    deserialize run.serialize = .ok run := by
  have houtputs := Json.asList_ofList fun id (_ : id ∈ run.outputDeliveryIds) ↦
    id.deserialize_serialize
  have htime (time : Option U64) := Json.asOption_ofOption
    (fun word h ↦ by cases h) Json.asWord_ofWord time
  rw [deserialize, serialize, Json.asStruct_object]
  · simp only [except_bind_eq_ok, Json.Fields.required_eq_ok, validate_eq_ok, except_pure_eq_ok]
    exact ⟨_, rfl, _, ⟨_, rfl, run.id.deserialize_serialize⟩,
      _, ⟨_, rfl, run.sessionId.deserialize_serialize⟩,
      _, ⟨_, rfl, run.status.deserialize_serialize⟩, _, ⟨_, rfl, Json.asWord_ofWord _⟩,
      _, ⟨_, rfl, Json.asWord_ofWord _⟩, _, htime _, _, htime _, _, houtputs, (), h, rfl⟩
  · rfl
  · decide

end RunRecord

/-! ## Outbound deliveries -/

def OutboundDeliveryStatus.serialize : OutboundDeliveryStatus → Json
  | .pending => .string "pending"
  | .delivering => .string "delivering"
  | .delivered => .string "delivered"
  | .failed => .string "failed"
  | .uncertain => .string "uncertain"

def OutboundDeliveryStatus.deserialize : Json → Except String OutboundDeliveryStatus :=
  Json.asVariant [
    ("pending", .pending), ("delivering", .delivering), ("delivered", .delivered),
    ("failed", .failed), ("uncertain", .uncertain)]

theorem OutboundDeliveryStatus.deserialize_serialize (status : OutboundDeliveryStatus) :
    deserialize status.serialize = .ok status := by
  cases status <;> rfl

namespace OutboundDeliveryRecord

def serialize (record : OutboundDeliveryRecord) : Json :=
  .object [
    ("id", record.id.serialize),
    ("session_id", record.sessionId.serialize),
    ("message", record.message.serialize),
    ("status", record.status.serialize),
    ("created_at_unix", .ofWord record.createdAtUnix),
    ("updated_at_unix", .ofWord record.updatedAtUnix),
    ("delivery_attempts", .ofWord record.deliveryAttempts),
    ("delivered_at_unix", .ofOption .ofWord record.deliveredAtUnix),
    ("last_error", .ofOption .string record.lastError)]

def deserialize (document : Json) : Except String OutboundDeliveryRecord := do
  let fields ← document.asStruct
    ["id", "session_id", "message", "status", "created_at_unix", "updated_at_unix",
      "delivery_attempts", "delivered_at_unix", "last_error"]
  let id ← fields.required "id" OutboundDeliveryId.deserialize
  let sessionId ← fields.required "session_id" SessionId.deserialize
  let message ← fields.required "message" Message.deserialize
  let status ← fields.required "status" OutboundDeliveryStatus.deserialize
  let createdAtUnix ← fields.required "created_at_unix" Json.asWord
  let updatedAtUnix ← fields.required "updated_at_unix" Json.asWord
  let deliveryAttempts ← fields.required "delivery_attempts" Json.asWord
  let deliveredAtUnix ← fields.optional "delivered_at_unix" Json.asWord
  let lastError ← fields.optional "last_error" Json.asString
  let record : OutboundDeliveryRecord :=
    { id, sessionId, message, status, createdAtUnix, updatedAtUnix, deliveryAttempts,
      deliveredAtUnix, lastError }
  record.validate
  return record

theorem deserialize_serialize {record : OutboundDeliveryRecord} (h : record.Valid) :
    deserialize record.serialize = .ok record := by
  have hdelivered := Json.asOption_ofOption (fun word h ↦ by cases h) Json.asWord_ofWord
    record.deliveredAtUnix
  have herror := Json.asOption_ofOption (fun text h ↦ by cases h) Json.asString_string
    record.lastError
  rw [deserialize, serialize, Json.asStruct_object]
  · simp only [except_bind_eq_ok, Json.Fields.required_eq_ok, validate_eq_ok, except_pure_eq_ok]
    exact ⟨_, rfl, _, ⟨_, rfl, record.id.deserialize_serialize⟩,
      _, ⟨_, rfl, record.sessionId.deserialize_serialize⟩,
      _, ⟨_, rfl, record.message.deserialize_serialize⟩,
      _, ⟨_, rfl, record.status.deserialize_serialize⟩, _, ⟨_, rfl, Json.asWord_ofWord _⟩,
      _, ⟨_, rfl, Json.asWord_ofWord _⟩, _, ⟨_, rfl, Json.asWord_ofWord _⟩, _, hdelivered,
      _, herror, (), h, rfl⟩
  · rfl
  · decide

end OutboundDeliveryRecord

end FerrisBridge
