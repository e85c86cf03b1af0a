import FerrisBridge.Runtime.Outbox

/-!
# Delivery attempts and the retry policy

What a claimed delivery hands to an adapter, and the policy that decides when a delivery is due. The
bounds that the constructor of the policy checks are fields of it.
-/

open Foundations

namespace FerrisBridge

structure OutboundDeliveryAttempt where
  deliveryId : OutboundDeliveryId
  sessionScope : SessionScope
  message : Message
  attemptNumber : U32
  deriving DecidableEq, Repr

namespace OutboundDeliveryAttempt

def fromRecord (delivery : OutboundDeliveryRecord) (sessionScope : SessionScope) :
    Except String OutboundDeliveryAttempt := do
  rejectIf (delivery.status ≠ .delivering)
    s!"outbound delivery {delivery.id} cannot create an adapter attempt from {delivery.status}"
  rejectIf (SessionId.forScope sessionScope ≠ delivery.sessionId)
    s!"outbound delivery {delivery.id} session scope does not match its session id"
  return {
    deliveryId := delivery.id
    sessionScope
    message := delivery.message
    attemptNumber := delivery.deliveryAttempts }

theorem fromRecord_eq_ok {delivery : OutboundDeliveryRecord} {sessionScope : SessionScope}
    {attempt : OutboundDeliveryAttempt} (h : fromRecord delivery sessionScope = .ok attempt) :
    attempt.deliveryId = delivery.id ∧ attempt.message = delivery.message ∧
      attempt.attemptNumber = delivery.deliveryAttempts := by
  simp only [fromRecord, except_bind_unit_eq_ok, except_pure_eq_ok] at h
  obtain ⟨-, -, rfl⟩ := h
  exact ⟨rfl, rfl, rfl⟩

end OutboundDeliveryAttempt

structure OutboundDeliveryStartupRecoveryReport where
  reconciliationRequiredDeliveryIds : List OutboundDeliveryId
  deriving DecidableEq, Repr

structure OutboundRetryPolicy where
  maxAttempts : U32
  initialRetryDelaySecs : U64
  maxRetryDelaySecs : U64
  maxAttempts_pos : maxAttempts ≠ 0
  initialRetryDelaySecs_pos : initialRetryDelaySecs ≠ 0
  initial_le_max : initialRetryDelaySecs ≤ maxRetryDelaySecs
  deriving DecidableEq, Repr

namespace OutboundRetryPolicy

def new (maxAttempts : U32) (initialRetryDelaySecs maxRetryDelaySecs : U64) :
    Except String OutboundRetryPolicy :=
  if hattempts : maxAttempts = 0 then
    .error "outbound retry policy max_attempts must be greater than zero"
  else if hinitial : initialRetryDelaySecs = 0 then
    .error "outbound retry policy initial_retry_delay_secs must be greater than zero"
  else if hmax : maxRetryDelaySecs < initialRetryDelaySecs then
    .error <| "outbound retry policy max_retry_delay_secs must not be less than " ++
      "initial_retry_delay_secs"
  else .ok ⟨maxAttempts, initialRetryDelaySecs, maxRetryDelaySecs, hattempts, hinitial,
    not_lt.mp hmax⟩

variable (policy : OutboundRetryPolicy)

def retryDelaySecs (completedAttempts : U32) : U64 :=
  let exponent := completedAttempts.saturatingSub 1
  let multiplier := ((1 : U64).checkedShl exponent.toNat).getD Word.maxValue
  min (policy.initialRetryDelaySecs.saturatingMul multiplier) policy.maxRetryDelaySecs

def nextAttemptAtUnix (delivery : OutboundDeliveryRecord) : Option U64 :=
  match delivery.status with
  | .pending => some delivery.updatedAtUnix
  | .failed =>
    if delivery.deliveryAttempts < policy.maxAttempts then
      some (delivery.updatedAtUnix.saturatingAdd (policy.retryDelaySecs delivery.deliveryAttempts))
    else none
  | .delivering | .delivered | .uncertain => none

def isDue (delivery : OutboundDeliveryRecord) (nowUnix : U64) : Bool :=
  (policy.nextAttemptAtUnix delivery).any (· ≤ nowUnix)

/-- A due delivery is waiting for its first attempt, or has failed with attempts left. -/
theorem attempts_of_isDue {delivery : OutboundDeliveryRecord} {nowUnix : U64}
    (h : policy.isDue delivery nowUnix = true) :
    delivery.status = .pending ∨
      delivery.status = .failed ∧ delivery.deliveryAttempts < policy.maxAttempts := by
  unfold isDue nextAttemptAtUnix at h
  cases hstatus : delivery.status with
  | pending => exact .inl rfl
  | failed =>
    rw [hstatus] at h
    by_cases hattempts : delivery.deliveryAttempts < policy.maxAttempts
    · exact .inr ⟨rfl, hattempts⟩
    · simp [hattempts] at h
  | delivering | delivered | uncertain => simp [hstatus] at h

end OutboundRetryPolicy

end FerrisBridge
