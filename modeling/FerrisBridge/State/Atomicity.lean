import FerrisBridge.State.Claim
import FerrisBridge.State.Operation
import FerrisBridge.State.Recovery
import FerrisBridge.State.Snapshot

/-!
# Refused operations

An operation that fails leaves the state as it was. Most of them check everything before they touch
anything, which is a matter of their structure. The recovery passes could stop in the middle of their
loops; a valid state gives them no occasion to.
-/

open Foundations

namespace FerrisBridge

/-! ## Transitions of one record -/

namespace OutboundDeliveryRecord

theorem atomic_beginDelivery (time : U64) : Atomic (beginDelivery time) :=
  .get_bind fun _ ↦ .question_bind fun _ ↦ .question_bind fun _ ↦ .question_bind fun _ ↦
    .question_bind fun _ ↦ Total.modify.atomic

theorem atomic_markDelivered (time : U64) : Atomic (markDelivered time) :=
  .get_bind fun _ ↦ .question_bind fun _ ↦ .question_bind fun _ ↦ .question_bind fun _ ↦
    Total.modify.atomic

theorem atomic_markUnsuccessful (status : OutboundDeliveryStatus) (time : U64)
    (error action errorLabel : String) :
    Atomic (markUnsuccessful status time error action errorLabel) :=
  .get_bind fun _ ↦ .question_bind fun _ ↦ .question_bind fun _ ↦ .question_bind fun _ ↦
    .question_bind fun _ ↦ Total.modify.atomic

theorem atomic_resolveUncertainAsDelivered (time : U64) : Atomic (resolveUncertainAsDelivered time) :=
  .get_bind fun _ ↦ .question_bind fun _ ↦ .question_bind fun _ ↦ Total.modify.atomic

theorem atomic_resolveUncertainAsFailed (time : U64) (error : String) :
    Atomic (resolveUncertainAsFailed time error) :=
  .get_bind fun _ ↦ .question_bind fun _ ↦ .question_bind fun _ ↦ .question_bind fun _ ↦
    Total.modify.atomic

end OutboundDeliveryRecord

theorem RunRecord.atomic_completeWithOutputDeliveries (time : U64) (ids : List OutboundDeliveryId) :
    Atomic (RunRecord.completeWithOutputDeliveries time ids) :=
  .get_bind fun _ ↦ .question_bind fun _ ↦ .question_bind fun _ ↦
    (RuntimeState.atomic_finish .completed time).bind_total fun _ ↦ .modify

namespace RuntimeState

/-! ## Operations -/

theorem atomic_addRun (run : RunRecord) (now : U64) : Atomic (addRun run now) :=
  .get_bind fun _ ↦ .question_bind fun _ ↦ .question_bind fun _ ↦ .question_bind fun _ ↦
    Total.modify.atomic

theorem atomic_andClone {update : EStateM String OutboundDeliveryRecord Unit}
    (hupdate : Atomic update) : Atomic (andClone update) :=
  hupdate.bind_total fun _ ↦ .get

theorem atomic_updateOutboundDelivery {update : EStateM String OutboundDeliveryRecord Unit}
    (id : OutboundDeliveryId) (now : U64) (hupdate : Atomic update) :
    Atomic (updateOutboundDelivery id now update) :=
  (Atomic.zoom (fun _ ↦ rfl) (atomic_andClone hupdate).updateFirst).bind_total fun _ ↦
    Total.modify.bind fun _ ↦ .pure

theorem atomic_claimNextOutboundDeliveryWhere (time now : U64)
    (isEligible : OutboundDeliveryRecord → Bool) :
    Atomic (claimNextOutboundDeliveryWhere time isEligible now) := by
  have hclaim := atomic_andClone (OutboundDeliveryRecord.atomic_beginDelivery time)
  refine (Atomic.zoom (fun _ ↦ rfl) hclaim.updateFirst?).bind_total fun claimed ↦ ?_
  cases claimed with
  | none => exact .pure
  | some delivery => exact Total.modify.bind fun _ ↦ .pure

theorem atomic_claimMessageBatch (runId : RunId) (policy : MessageQueuePolicy) (nowUnix now : U64) :
    Atomic (claimMessageBatch runId policy nowUnix now) := by
  refine .get_bind fun state ↦ ?_
  dsimp only
  cases policy.pollWhere state.queuedMessages nowUnix
      (· ∉ (state.runs.filter (·.isTerminal = false)).map (·.sessionId)) with
  | waiting next => exact Total.pure.atomic
  | ready batch =>
    exact .question_bind fun _ ↦ (atomic_addRun _ now).bind_total fun _ ↦
      Total.modify.bind fun _ ↦ .pure

theorem atomic_completeRunWithOutputDeliveries (id : RunId) (deliveries : List OutboundDeliveryRecord)
    (time now : U64) : Atomic (completeRunWithOutputDeliveries id deliveries time now) :=
  .get_bind fun _ ↦ .question_bind fun _ ↦ .question_bind fun _ ↦ .question_bind fun _ ↦
    .question_bind fun _ ↦ .question_bind fun _ ↦
      (atomic_runMut (RunRecord.atomic_completeWithOutputDeliveries _ _)).bind_total fun _ ↦
        Total.modify.bind fun _ ↦ .pure

/-- On a valid state the recovery passes do not fail. -/
theorem recovery_total {state : RuntimeState} (hstate : state.Valid) (time : U64) (err : String)
    (state' : RuntimeState) :
    reconcileRunsAtStartup time state ≠ .error err state' ∧
      reconcileOutboundDeliveriesAtStartup time state ≠ .error err state' := by
  obtain ⟨_, -, -, hruns⟩ := reconcileRunsAtStartup_eq hstate time
  obtain ⟨_, -, -, hdeliveries⟩ := reconcileOutboundDeliveriesAtStartup_eq hstate time
  rw [hruns, hdeliveries]
  constructor
  · intro h
    cases h
  · intro h
    cases h

/-- A method of a valid state that fails leaves it as it was. -/
theorem Operation.atomic (operation : Operation) {state state' : RuntimeState} {now : U64}
    {err : String} (hstate : state.Valid) (h : operation.apply now state = .error err state') :
    state' = state := by
  cases operation with
  | snapshot operation => exact operation.atomic now _ _ _ h
  | claimMessageBatch runId policy nowUnix =>
    exact (atomic_claimMessageBatch runId policy nowUnix now).ignore _ _ _ h
  | claimNextOutboundDeliveryWhere time isEligible =>
    exact (atomic_claimNextOutboundDeliveryWhere time now isEligible).ignore _ _ _ h
  | markOutboundDeliveryDelivered id time =>
    exact (atomic_updateOutboundDelivery id now
      (OutboundDeliveryRecord.atomic_markDelivered time)).ignore _ _ _ h
  | markOutboundDeliveryFailed id time error =>
    exact (atomic_updateOutboundDelivery id now
      (OutboundDeliveryRecord.atomic_markUnsuccessful .failed time error _ _)).ignore _ _ _ h
  | markOutboundDeliveryUncertain id time error =>
    exact (atomic_updateOutboundDelivery id now
      (OutboundDeliveryRecord.atomic_markUnsuccessful .uncertain time error _ _)).ignore _ _ _ h
  | resolveOutboundDeliveryAsDelivered id time =>
    exact (atomic_updateOutboundDelivery id now
      (OutboundDeliveryRecord.atomic_resolveUncertainAsDelivered time)).ignore _ _ _ h
  | resolveOutboundDeliveryAsFailed id time reason =>
    exact (atomic_updateOutboundDelivery id now
      (OutboundDeliveryRecord.atomic_resolveUncertainAsFailed time reason)).ignore _ _ _ h
  | reconcileRunsAtStartup time =>
    exact absurd (ignore_eq_error.mp h) (recovery_total hstate time err state').1
  | reconcileOutboundDeliveriesAtStartup time =>
    exact absurd (ignore_eq_error.mp h) (recovery_total hstate time err state').2
  | completeRunWithOutputDeliveries id deliveries time =>
    exact (atomic_completeRunWithOutputDeliveries id deliveries time now).ignore _ _ _ h

/-- Failed operations are atomic: with any arguments, a method that fails on a valid state leaves it
unchanged. The recovery passes never fail there, and a merge step, which computes its result before
it touches the snapshot, leaves the snapshot when it finds a conflict. -/
theorem failed_operations_atomic :
    (∀ (operation : Operation) (now : U64) (state state' : RuntimeState) (err : String),
      state.validate = .ok () → operation.apply now state = .error err state' → state' = state) ∧
      (∀ (state : RuntimeState) (time : U64) (err : String) (state' : RuntimeState),
        state.validate = .ok () →
          reconcileRunsAtStartup time state ≠ .error err state' ∧
            reconcileOutboundDeliveriesAtStartup time state ≠ .error err state') ∧
      ∀ existing state state' : RuntimeState, ∀ err : String,
        ∀ preserve ∈ [preserveRunsFrom, preserveRunInputsFrom, preserveInboundEventsFrom,
          preserveQueuedMessagesFrom, preserveOutboundDeliveriesFrom],
          inPlace (preserve existing) state = .error err state' → state' = state := by
  refine ⟨fun operation now state state' err hstate h ↦ ?_, fun state time err state' hstate ↦ ?_,
    fun existing state state' err preserve _ h ↦ Atomic.inPlace state err state' h⟩
  · exact operation.atomic (validate_eq_ok.mp hstate) h
  · exact recovery_total (validate_eq_ok.mp hstate) time err state'

/-- A chat with a failed run, whose id a second claim is going to use. -/
def takenState : RuntimeState :=
  { greetingState with
    runs := [{ RunRecord.new ⟨"run_taken", by decide⟩ (.forScope greetingScope) 0 with
      status := .failed
      finishedAtUnix := some 0 }] }

/-- The claim under the id of the failed run is refused and changes nothing. -/
theorem failed_operations_atomic_claim : ∃ err state',
    (Operation.claimMessageBatch ⟨"run_taken", by decide⟩ ⟨2, 20, by decide⟩ 2).apply 2 takenState =
      .error err state' ∧ state' = takenState := by
  have h : (Operation.claimMessageBatch ⟨"run_taken", by decide⟩ ⟨2, 20, by decide⟩ 2).apply 2
      takenState = .error "duplicate run id run_taken" takenState := rfl
  exact ⟨_, _, h, failed_operations_atomic.1 _ _ _ _ _ rfl h⟩

end RuntimeState

end FerrisBridge
