import FerrisBridge.Runtime.Session

/-!
# Messages and events

Bridge-level messages, normalized inbound events, and the compact ledger record that the state keeps
of every event it has seen.
-/

open Foundations

namespace FerrisBridge

/-! ## Messages -/

structure MessageId where
  asStr : String
  nonblank : isBlank asStr = false
  deriving DecidableEq, Repr

def MessageId.new (value : String) : Except String MessageId :=
  if h : isBlank value then .error "message id must not be empty"
  else .ok ⟨value, isBlank_eq_false h⟩

instance : ToString MessageId := ⟨MessageId.asStr⟩

inductive MessageAuthor
  | user
  | agent
  | system
  deriving DecidableEq, Repr

inductive MessageContent
  | text (text : String) (nonblank : isBlank text = false)
  | markdown (markdown : String) (nonblank : isBlank markdown = false)
  deriving DecidableEq, Repr

namespace MessageContent

/-- `MessageContent::text`. -/
def newText (value : String) : Except String MessageContent :=
  if h : isBlank value then .error "message text must not be empty"
  else .ok (.text value (isBlank_eq_false h))

/-- `MessageContent::markdown`. -/
def newMarkdown (value : String) : Except String MessageContent :=
  if h : isBlank value then .error "message markdown must not be empty"
  else .ok (.markdown value (isBlank_eq_false h))

theorem newText_eq {value : String} (nonblank : isBlank value = false) :
    newText value = .ok (.text value nonblank) :=
  dif_neg (by rw [nonblank]; exact Bool.false_ne_true)

theorem newMarkdown_eq {value : String} (nonblank : isBlank value = false) :
    newMarkdown value = .ok (.markdown value nonblank) :=
  dif_neg (by rw [nonblank]; exact Bool.false_ne_true)

end MessageContent

structure Message where
  id : MessageId
  sessionId : Option SessionId
  author : MessageAuthor
  content : MessageContent
  createdAtUnix : U64
  deriving DecidableEq, Repr

/-! ## Events -/

structure EventId where
  asStr : String
  nonblank : isBlank asStr = false
  deriving DecidableEq, Repr

def EventId.new (value : String) : Except String EventId :=
  if h : isBlank value then .error "event id must not be empty"
  else .ok ⟨value, isBlank_eq_false h⟩

instance : ToString EventId := ⟨EventId.asStr⟩

inductive EventSource
  | platform
  | agent
  | runtime
  deriving DecidableEq, Repr

inductive EventKind
  | messageReceived (message : Message)
  | sessionStarted (sessionId : SessionId)
  | runtimeNotice (message : String)
  deriving DecidableEq, Repr

structure Event where
  id : EventId
  source : EventSource
  kind : EventKind
  receivedAtUnix : U64
  deriving DecidableEq, Repr

/-! ## The inbound ledger -/

structure InboundEventRecord where
  id : EventId
  receivedAtUnix : U64
  recordedAtUnix : U64
  deriving DecidableEq, Repr

inductive InboundEventRecordStatus
  | recorded
  | duplicate
  deriving DecidableEq, Repr

namespace InboundEventRecord

def validate (record : InboundEventRecord) : Except String Unit :=
  rejectIf (record.recordedAtUnix < record.receivedAtUnix)
    s!"inbound event {record.id} has recorded_at_unix before received_at_unix"

/-- What `validate` accepts. -/
def Valid (record : InboundEventRecord) : Prop := record.receivedAtUnix ≤ record.recordedAtUnix

theorem validate_eq_ok {record : InboundEventRecord} {u : Unit} : record.validate = .ok u ↔
    record.Valid := by
  simp [validate, Valid]

def new (id : EventId) (receivedAtUnix recordedAtUnix : U64) : Except String InboundEventRecord := do
  let record : InboundEventRecord := { id, receivedAtUnix, recordedAtUnix }
  record.validate
  return record

def fromEvent (event : Event) (recordedAtUnix : U64) : Except String InboundEventRecord :=
  new event.id event.receivedAtUnix (max recordedAtUnix event.receivedAtUnix)

/-- Raising the recording time to the receive time makes the record valid. -/
theorem fromEvent_eq (event : Event) (recordedAtUnix : U64) :
    fromEvent event recordedAtUnix = .ok {
      id := event.id
      receivedAtUnix := event.receivedAtUnix
      recordedAtUnix := max recordedAtUnix event.receivedAtUnix } := by
  have hvalid : validate {
      id := event.id
      receivedAtUnix := event.receivedAtUnix
      recordedAtUnix := max recordedAtUnix event.receivedAtUnix } = .ok () :=
    validate_eq_ok.mpr (le_max_right recordedAtUnix event.receivedAtUnix)
  simp only [fromEvent, new, hvalid]
  rfl

end InboundEventRecord

end FerrisBridge
