import FerrisBridge.Runtime.Event

/-!
# The adapter boundary

What the runtime exchanges with a messaging adapter, and the errors that the runtime reports.
-/

open Foundations

namespace FerrisBridge

/-! ## Runtime errors -/

inductive ErrorClass
  | fatal
  | recoverable
  | userVisible
  deriving DecidableEq, Repr

structure RuntimeError where
  «class» : ErrorClass
  message : String
  deriving DecidableEq, Repr

def RuntimeError.recoverable (message : String) : RuntimeError := ⟨.recoverable, message⟩

/-! ## Inbound deliveries -/

@[ext]
structure InboundDeliveryAckToken where
  asStr : String
  nonblank : isBlank asStr = false
  deriving Repr

instance : DecidableEq InboundDeliveryAckToken :=
  fun _ _ ↦ decidable_of_iff _ InboundDeliveryAckToken.ext_iff.symm

def InboundDeliveryAckToken.new (value : String) : Except String InboundDeliveryAckToken :=
  if h : isBlank value then .error "inbound delivery acknowledgement token must not be empty"
  else .ok ⟨value, isBlank_eq_false h⟩

structure InboundDelivery where
  event : Event
  ackToken : InboundDeliveryAckToken
  deriving DecidableEq, Repr

structure InboundDeliveryAcknowledgement where
  eventId : EventId
  ackToken : InboundDeliveryAckToken
  recordStatus : InboundEventRecordStatus
  deriving DecidableEq, Repr

structure InboundDeliveryOutcome where
  eventId : EventId
  recordStatus : InboundEventRecordStatus
  deriving DecidableEq, Repr

/-! ## Failures of outbound deliveries -/

inductive OutboundDeliveryFailureKind
  | retryable
  | uncertain
  deriving DecidableEq, Repr

structure OutboundDeliveryFailure where
  kind : OutboundDeliveryFailureKind
  message : String
  deriving DecidableEq, Repr

namespace OutboundDeliveryFailure

/-- A failure always has a message. -/
def new (kind : OutboundDeliveryFailureKind) (message : String) : OutboundDeliveryFailure :=
  if isBlank message then
    match kind with
    | .retryable =>
      ⟨kind, "outbound adapter reported a retryable failure without an error message"⟩
    | .uncertain =>
      ⟨kind, "outbound adapter reported an uncertain outcome without an error message"⟩
  else ⟨kind, message⟩

end OutboundDeliveryFailure

end FerrisBridge
