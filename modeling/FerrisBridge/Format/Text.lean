import FerrisBridge.Foundations.JsonText
import FerrisBridge.Format.Current

/-!
# The text of the state file

All numbers of the state file are unsigned integers, so that the text of every document that is written
is read back as this document.
-/

open Foundations Json

namespace FerrisBridge

/-! ## Values -/

attribute [simp] Printable.string

@[simp]
theorem printable_ofWord {width : ℕ} (word : Word width) : Printable (.ofWord word) := .integer _

@[simp]
theorem printable_ofOption {α : Type} {write : α → Json} (h : ∀ a, Printable (write a))
    (value : Option α) : Printable (.ofOption write value) := by
  cases value with
  | none => exact .null
  | some a => exact h a

@[simp]
theorem printable_ofList {α : Type} {write : α → Json} (h : ∀ a, Printable (write a))
    (list : List α) : Printable (.ofList write list) := by
  apply Printable.array
  intro item hitem
  obtain ⟨a, -, rfl⟩ := List.mem_map.mp hitem
  exact h a

/-- An object is printable when the values of its members are. -/
@[simp]
theorem printable_object_iff {members : List (String × Json)} :
    Printable (.object members) ↔ ∀ member ∈ members, Printable member.2 := by
  constructor
  · rintro (_ | _ | _ | _ | _ | h)
    exact h
  · exact .object

/-! ## Records -/

@[simp]
theorem printable_sessionId (id : SessionId) : Printable id.serialize := .string _

@[simp]
theorem printable_outboundDeliveryId (id : OutboundDeliveryId) : Printable id.serialize := .string _

@[simp]
theorem printable_message (message : Message) : Printable message.serialize := by
  have hauthor : Printable message.author.serialize := by
    cases message.author <;> exact .string _
  have hcontent : Printable message.content.serialize := by
    cases message.content <;> simp [MessageContent.serialize]
  simp [Message.serialize, MessageId.serialize, hauthor, hcontent]

@[simp]
theorem printable_queuedMessage (queued : QueuedMessage) : Printable queued.serialize := by
  simp [QueuedMessage.serialize, EventId.serialize]

theorem printable_session (session : Session) : Printable session.serialize := by
  simp [Session.serialize, SessionScope.serialize]

theorem printable_inboundEvent (record : InboundEventRecord) : Printable record.serialize := by
  simp [InboundEventRecord.serialize, EventId.serialize]

theorem printable_runInput (input : RunInputRecord) : Printable input.serialize := by
  simp [RunInputRecord.serialize, RunId.serialize]

theorem printable_run (run : RunRecord) : Printable run.serialize := by
  have hstatus : Printable run.status.serialize := by
    cases run.status <;> exact .string _
  simp [RunRecord.serialize, RunId.serialize, hstatus]

theorem printable_delivery (delivery : OutboundDeliveryRecord) : Printable delivery.serialize := by
  have hstatus : Printable delivery.status.serialize := by
    cases delivery.status <;> exact .string _
  simp [OutboundDeliveryRecord.serialize, hstatus]

/-- The text that is written for a state is read back as what was written. -/
theorem printable_stateFileFromState (state : RuntimeState) : Printable (stateFileFromState state) := by
  simp [stateFileFromState, printable_session, printable_inboundEvent, printable_runInput,
    printable_run, printable_delivery]

end FerrisBridge
