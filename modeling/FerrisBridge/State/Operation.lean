import FerrisBridge.State.Evolution

/-!
# Calls of the state operations

The mutating methods of the runtime state as data, so that statements can range over all of them and
over sequences of them. `SnapshotOperation` are the methods that a caller uses on a snapshot of its
own; the others are reached through the store.
-/

open Foundations

namespace FerrisBridge

namespace RuntimeState

/-- A method that callers use on a snapshot. -/
inductive SnapshotOperation
  | upsertSession (session : Session)
  | addRun (run : RunRecord)
  | recordInboundEvent (event : Event)
  | enqueueOutboundDelivery (delivery : OutboundDeliveryRecord)
  | startRun (id : RunId) (startedAtUnix : U64)
  | interruptRun (id : RunId) (interruptedAtUnix : U64)
  | completeRun (id : RunId) (finishedAtUnix : U64)
  | failRun (id : RunId) (finishedAtUnix : U64)
  | cancelRun (id : RunId) (finishedAtUnix : U64)

/-- A mutating method. -/
inductive Operation
  | snapshot (operation : SnapshotOperation)
  | claimMessageBatch (runId : RunId) (policy : MessageQueuePolicy) (nowUnix : U64)
  | claimNextOutboundDeliveryWhere (startedAtUnix : U64)
    (isEligible : OutboundDeliveryRecord → Bool)
  | markOutboundDeliveryDelivered (id : OutboundDeliveryId) (deliveredAtUnix : U64)
  | markOutboundDeliveryFailed (id : OutboundDeliveryId) (failedAtUnix : U64) (error : String)
  | markOutboundDeliveryUncertain (id : OutboundDeliveryId) (uncertainAtUnix : U64)
    (error : String)
  | resolveOutboundDeliveryAsDelivered (id : OutboundDeliveryId) (resolvedAtUnix : U64)
  | resolveOutboundDeliveryAsFailed (id : OutboundDeliveryId) (resolvedAtUnix : U64)
    (reason : String)
  | reconcileRunsAtStartup (recoveredAtUnix : U64)
  | reconcileOutboundDeliveriesAtStartup (recoveredAtUnix : U64)
  | completeRunWithOutputDeliveries (id : RunId) (deliveries : List OutboundDeliveryRecord)
    (finishedAtUnix : U64)

/-- The call of a method when the wall clock reads `now`, without its result. -/
def SnapshotOperation.apply (operation : SnapshotOperation) (now : U64) :
    EStateM String RuntimeState Unit :=
  match operation with
  | .upsertSession session => modify (RuntimeState.upsertSession session now)
  | .addRun run => RuntimeState.addRun run now
  | .recordInboundEvent event => ignore <| RuntimeState.recordInboundEvent event now
  | .enqueueOutboundDelivery delivery =>
    ignore <| RuntimeState.enqueueOutboundDelivery delivery now
  | .startRun id startedAtUnix => RuntimeState.startRun id startedAtUnix now
  | .interruptRun id interruptedAtUnix => RuntimeState.interruptRun id interruptedAtUnix now
  | .completeRun id finishedAtUnix => RuntimeState.completeRun id finishedAtUnix now
  | .failRun id finishedAtUnix => RuntimeState.failRun id finishedAtUnix now
  | .cancelRun id finishedAtUnix => RuntimeState.cancelRun id finishedAtUnix now

@[inherit_doc SnapshotOperation.apply]
def Operation.apply (operation : Operation) (now : U64) : EStateM String RuntimeState Unit :=
  match operation with
  | .snapshot operation => operation.apply now
  | .claimMessageBatch runId policy nowUnix =>
    ignore <| RuntimeState.claimMessageBatch runId policy nowUnix now
  | .claimNextOutboundDeliveryWhere startedAtUnix isEligible =>
    ignore <| RuntimeState.claimNextOutboundDeliveryWhere startedAtUnix isEligible now
  | .markOutboundDeliveryDelivered id deliveredAtUnix =>
    ignore <| RuntimeState.markOutboundDeliveryDelivered id deliveredAtUnix now
  | .markOutboundDeliveryFailed id failedAtUnix error =>
    ignore <| RuntimeState.markOutboundDeliveryFailed id failedAtUnix error now
  | .markOutboundDeliveryUncertain id uncertainAtUnix error =>
    ignore <| RuntimeState.markOutboundDeliveryUncertain id uncertainAtUnix error now
  | .resolveOutboundDeliveryAsDelivered id resolvedAtUnix =>
    ignore <| RuntimeState.resolveOutboundDeliveryAsDelivered id resolvedAtUnix now
  | .resolveOutboundDeliveryAsFailed id resolvedAtUnix reason =>
    ignore <| RuntimeState.resolveOutboundDeliveryAsFailed id resolvedAtUnix reason now
  | .reconcileRunsAtStartup recoveredAtUnix =>
    ignore <| RuntimeState.reconcileRunsAtStartup recoveredAtUnix
  | .reconcileOutboundDeliveriesAtStartup recoveredAtUnix =>
    ignore <| RuntimeState.reconcileOutboundDeliveriesAtStartup recoveredAtUnix
  | .completeRunWithOutputDeliveries id deliveries finishedAtUnix =>
    ignore <| RuntimeState.completeRunWithOutputDeliveries id deliveries finishedAtUnix now

/-- The arguments that a caller can have: sessions and runs are valid, since only their own methods
build them, and a run that a caller adds has no outputs. -/
def SnapshotOperation.Admissible : SnapshotOperation → Prop
  | .upsertSession session => session.Valid
  | .addRun run => run.Valid ∧ run.outputDeliveryIds = []
  | _ => True

/-- Output deliveries come from their constructor, as the store builds them. -/
def Operation.Admissible : Operation → Prop
  | .snapshot operation => operation.Admissible
  | .completeRunWithOutputDeliveries _ deliveries _ => ∀ delivery ∈ deliveries,
    ∃ id sessionId message createdAtUnix,
      OutboundDeliveryRecord.new id sessionId message createdAtUnix = .ok delivery
  | _ => True

variable {state state' : RuntimeState} {now : U64} {u : Unit}

theorem SnapshotOperation.change {operation : SnapshotOperation} (hstate : state.Valid)
    (hoperation : operation.Admissible) (h : operation.apply now state = .ok u state') :
    SnapshotChange state state' := by
  cases operation with
  | upsertSession session =>
    obtain rfl := estate_modify_eq_ok.mp h
    exact .upsertSession now hoperation
  | addRun run => exact .of_addRun hoperation.1 hoperation.2 h
  | recordInboundEvent event =>
    obtain ⟨status, h⟩ := ignore_eq_ok.mp h
    exact .of_recordInboundEvent h
  | enqueueOutboundDelivery delivery =>
    obtain ⟨status, h⟩ := ignore_eq_ok.mp h
    exact .of_enqueueOutboundDelivery h
  | startRun => exact .of_startRun hstate h
  | interruptRun => exact .of_interruptRun hstate h
  | completeRun => exact .of_completeRun hstate h
  | failRun => exact .of_failRun hstate h
  | cancelRun => exact .of_cancelRun hstate h

/-- Every method that succeeds makes one of the listed changes. -/
theorem Operation.change {operation : Operation} (hstate : state.Valid)
    (hoperation : operation.Admissible) (h : operation.apply now state = .ok u state') :
    Change state state' := by
  cases operation with
  | snapshot operation => exact .snapshot (operation.change hstate hoperation h)
  | claimMessageBatch =>
    obtain ⟨_, h⟩ := ignore_eq_ok.mp h
    exact .of_claimMessageBatch h
  | claimNextOutboundDeliveryWhere =>
    obtain ⟨_, h⟩ := ignore_eq_ok.mp h
    exact .of_claimNextOutboundDeliveryWhere hstate h
  | markOutboundDeliveryDelivered =>
    obtain ⟨_, h⟩ := ignore_eq_ok.mp h
    exact .of_updateOutboundDelivery hstate
      (fun _ _ h ↦ (OutboundDeliveryRecord.advances_of_markDelivered h).1) h
  | markOutboundDeliveryFailed =>
    obtain ⟨_, h⟩ := ignore_eq_ok.mp h
    exact .of_updateOutboundDelivery hstate
      (fun _ _ h ↦ (OutboundDeliveryRecord.advances_of_markFailed h).1) h
  | markOutboundDeliveryUncertain =>
    obtain ⟨_, h⟩ := ignore_eq_ok.mp h
    exact .of_updateOutboundDelivery hstate
      (fun _ _ h ↦ (OutboundDeliveryRecord.advances_of_markUncertain h).1) h
  | resolveOutboundDeliveryAsDelivered =>
    obtain ⟨_, h⟩ := ignore_eq_ok.mp h
    exact .of_updateOutboundDelivery hstate
      (fun _ _ h ↦ (OutboundDeliveryRecord.advances_of_resolveUncertainAsDelivered h).1) h
  | resolveOutboundDeliveryAsFailed =>
    obtain ⟨_, h⟩ := ignore_eq_ok.mp h
    exact .of_updateOutboundDelivery hstate
      (fun _ _ h ↦ (OutboundDeliveryRecord.advances_of_resolveUncertainAsFailed h).1) h
  | reconcileRunsAtStartup =>
    obtain ⟨_, h⟩ := ignore_eq_ok.mp h
    exact .snapshot (.of_reconcileRunsAtStartup hstate h)
  | reconcileOutboundDeliveriesAtStartup =>
    obtain ⟨_, h⟩ := ignore_eq_ok.mp h
    exact .of_reconcileOutboundDeliveriesAtStartup hstate h
  | completeRunWithOutputDeliveries =>
    obtain ⟨_, h⟩ := ignore_eq_ok.mp h
    refine .of_completeRunWithOutputDeliveries (fun delivery hdelivery ↦ ?_) h
    obtain ⟨id, sessionId, message, createdAtUnix, hnew⟩ := hoperation delivery hdelivery
    obtain ⟨-, -, -, -, hcreated, hupdated, -⟩ := OutboundDeliveryRecord.new_eq_ok hnew
    exact hupdated.trans hcreated.symm

/-! ## Refused calls -/

theorem atomic_runMut {α : Type} {id : RunId} {update : EStateM String RunRecord α}
    (hupdate : Atomic update) : Atomic (runMut id update) :=
  .zoom (fun _ ↦ rfl) hupdate.updateFirst

theorem atomic_start (time : U64) : Atomic (RunRecord.start time) :=
  .get_bind fun _ ↦ .question_bind fun _ ↦ .question_bind fun _ ↦ Total.modify.atomic

theorem atomic_interrupt (time : U64) : Atomic (RunRecord.interrupt time) :=
  .get_bind fun _ ↦ .question_bind fun _ ↦ .question_bind fun _ ↦ .question_bind fun _ ↦
    Total.modify.atomic

theorem atomic_finish (status : RunStatus) (time : U64) : Atomic (RunRecord.finish status time) :=
  .get_bind fun _ ↦ .question_bind fun _ ↦ .question_bind fun _ ↦ Total.modify.atomic

theorem atomic_complete (time : U64) : Atomic (RunRecord.complete time) :=
  .get_bind fun _ ↦ .question_bind fun _ ↦ .question_bind fun _ ↦
    (atomic_finish .completed time).bind_total fun _ ↦ .modify

theorem atomic_fail (time : U64) : Atomic (RunRecord.fail time) :=
  .get_bind fun _ ↦ .question_bind fun _ ↦ atomic_finish .failed time

theorem atomic_cancel (time : U64) : Atomic (RunRecord.cancel time) :=
  .get_bind fun _ ↦ .question_bind fun _ ↦ atomic_finish .cancelled time

/-- A method that fails leaves the snapshot as it was. -/
theorem SnapshotOperation.atomic (operation : SnapshotOperation) (now : U64) :
    Atomic (operation.apply now) := by
  cases operation with
  | upsertSession => exact Total.modify.atomic
  | addRun =>
    exact .get_bind fun _ ↦ .question_bind fun _ ↦ .question_bind fun _ ↦ .question_bind fun _ ↦
      Total.modify.atomic
  | recordInboundEvent event =>
    refine .ignore (.get_bind fun state ↦ .question_bind fun queued ↦ ?_)
    cases state.inboundEvent event.id with
    | some existing => exact .question_bind fun _ ↦ Total.pure.atomic
    | none => exact .question_bind fun _ ↦ Total.modify.atomic.bind_total fun _ ↦ .pure
  | enqueueOutboundDelivery delivery =>
    refine .ignore (.get_bind fun state ↦ .question_bind fun _ ↦ .question_bind fun _ ↦
      .question_bind fun _ ↦ ?_)
    cases state.outboundDelivery delivery.id with
    | some existing =>
      by_cases h : existing = delivery
      · simpa only [h, if_true] using Total.pure.atomic
      · simpa only [h, if_false] using Atomic.throw
    | none => exact Total.modify.atomic.bind_total fun _ ↦ .pure
  | startRun id time => exact (atomic_runMut (atomic_start time)).bind_total fun _ ↦ .modify
  | interruptRun id time =>
    exact (atomic_runMut (atomic_interrupt time)).bind_total fun _ ↦ .modify
  | completeRun id time => exact (atomic_runMut (atomic_complete time)).bind_total fun _ ↦ .modify
  | failRun id time => exact (atomic_runMut (atomic_fail time)).bind_total fun _ ↦ .modify
  | cancelRun id time => exact (atomic_runMut (atomic_cancel time)).bind_total fun _ ↦ .modify

end RuntimeState

end FerrisBridge
