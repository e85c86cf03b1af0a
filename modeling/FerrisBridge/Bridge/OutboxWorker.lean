import FerrisBridge.Bridge.Adapter
import FerrisBridge.Store.Deliveries

/-!
# Outbox workers

`processNextWithClock` claims an attempt, hands it to the adapter and records what the adapter has
answered. These are separate steps: between them other workers and callers reach the store. The
machine of any number of workers on one store takes one such step at a time, and a worker that
nobody interrupts does what `processNextWithClock` does.
-/

open Foundations

namespace FerrisBridge

structure OutboxWorker where
  stateStore : StateStore
  retryPolicy : OutboundRetryPolicy
  deriving DecidableEq, Repr

inductive OutboxWorkerOutcome
  | idle (nextAttemptAtUnix : Option U64)
  | delivered (deliveryId : OutboundDeliveryId) (attemptNumber : U32)
  | failed (deliveryId : OutboundDeliveryId) (attemptNumber : U32) (error : String)
    (nextAttemptAtUnix : Option U64)
  | uncertain (deliveryId : OutboundDeliveryId) (attemptNumber : U32) (error : String)
  deriving DecidableEq, Repr

/-- What an adapter answers when it is handed an attempt. -/
abbrev AdapterResult := Except OutboundDeliveryFailure Unit

namespace OutboxWorker

variable (self : OutboxWorker)

/-- The claim before the adapter is called. -/
def claim (io : Io) (startedAtUnix : U64) :
    EStateM RuntimeError Disk (Option OutboundDeliveryAttempt) :=
  mapErr
    (fun err ↦ .recoverable <| "failed to durably confirm the next outbound delivery claim " ++
      "before adapter handoff; the adapter was not called, but reload persisted state before " ++
      s!"recovery because pending, failed, or delivering may be visible: {err}")
    (self.stateStore.transact io
      (StateStore.claimNextOutboundDeliveryAttempt startedAtUnix self.retryPolicy))

/-- Without a due delivery the worker reports when the next one is due. -/
def idle (io : Io) : EStateM RuntimeError Disk OutboxWorkerOutcome := do
  let state ← mapErr
    (fun err ↦ .recoverable s!"failed to inspect deferred outbound deliveries: {err}")
    (self.stateStore.load io)
  return .idle (state.outboundDeliveries.filterMap self.retryPolicy.nextAttemptAtUnix).min?

/-- The record of what the adapter has answered. -/
def record (io : Io) (attempt : OutboundDeliveryAttempt) (finishedAtUnix : U64)
    (adapterResult : AdapterResult) : EStateM RuntimeError Disk OutboxWorkerOutcome := do
  let deliveryId := attempt.deliveryId
  match adapterResult with
  | .ok _ =>
    let _ ← mapErr
      (fun err ↦ .recoverable <| s!"outbound adapter delivered {deliveryId}, but the delivered " ++
        "outcome could not be durably confirmed; reload persisted state before recovery because " ++
        s!"either the previous or updated state may be visible: {err}")
      (self.stateStore.transact io
        (StateStore.markOutboundDeliveryDelivered deliveryId finishedAtUnix))
    return .delivered deliveryId attempt.attemptNumber
  | .error ⟨.retryable, error⟩ =>
    let failed ← mapErr
      (fun err ↦ .recoverable <| s!"outbound adapter reported retryable failure for {deliveryId}, " ++
        "but the failed outcome could not be durably confirmed; reload persisted state before " ++
        s!"recovery because either the previous or updated state may be visible: {err}")
      (self.stateStore.transact io
        (StateStore.markOutboundDeliveryFailed deliveryId finishedAtUnix error))
    return .failed deliveryId attempt.attemptNumber error (self.retryPolicy.nextAttemptAtUnix failed)
  | .error ⟨.uncertain, error⟩ =>
    let _ ← mapErr
      (fun err ↦ .recoverable <| s!"outbound adapter reported an uncertain outcome for " ++
        s!"{deliveryId}, but that outcome could not be durably confirmed; reload persisted state " ++
        "before recovery because either the delivering or uncertain state may be visible: " ++ err)
      (self.stateStore.transact io
        (StateStore.markOutboundDeliveryUncertain deliveryId finishedAtUnix error))
    return .uncertain deliveryId attempt.attemptNumber error

/-- One delivery, with the two readings of the clock. The second call of the store is the inspection
or the record, whichever is made. -/
def processNextWithClock (claimIo io : Io) (deliverOutboundMessage : OutboundDeliveryAttempt → AdapterResult)
    (startedAtUnix nowUnix : U64) : EStateM RuntimeError Disk OutboxWorkerOutcome := do
  match ← self.claim claimIo startedAtUnix with
  | none => self.idle io
  | some attempt =>
    let adapterResult := deliverOutboundMessage attempt
    let finishedAtUnix := max nowUnix startedAtUnix
    self.record io attempt finishedAtUnix adapterResult

end OutboxWorker

/-! ## Workers on one store -/

/-- Where a worker is in `process_next_with_clock`. -/
inductive WorkerPhase
  | idle
  | claimed (attempt : OutboundDeliveryAttempt) (startedAtUnix : U64)
  | calling (attempt : OutboundDeliveryAttempt) (startedAtUnix : U64)
  | returned (attempt : OutboundDeliveryAttempt) (startedAtUnix : U64) (adapterResult : AdapterResult)
  deriving DecidableEq, Repr

/-- The state file and the workers. -/
structure Workers where
  disk : Disk
  phase : ℕ → WorkerPhase

namespace Workers

def enter (workers : Workers) (worker : ℕ) (phase : WorkerPhase) : Workers :=
  { workers with phase := Function.update workers.phase worker phase }

def withDisk (workers : Workers) (disk : Disk) : Workers := { workers with disk }

section Updates

variable {workers : Workers} {worker other : ℕ} {phase : WorkerPhase}

@[simp]
theorem enter_phase_self : (workers.enter worker phase).phase worker = phase :=
  Function.update_self ..

theorem enter_phase_of_ne (h : other ≠ worker) :
    (workers.enter worker phase).phase other = workers.phase other := Function.update_of_ne h ..

/-- What holds of a phase after a worker has entered one held before, or holds of the phase entered. -/
theorem of_enter (P : WorkerPhase → Prop) (h : P ((workers.enter worker phase).phase other)) :
    P (workers.phase other) ∨ other = worker ∧ P phase := by
  by_cases hother : other = worker
  · subst hother
    rw [enter_phase_self] at h
    exact .inr ⟨rfl, h⟩
  · rw [enter_phase_of_ne hother] at h
    exact .inl h

@[simp]
theorem enter_disk : (workers.enter worker phase).disk = workers.disk := rfl

@[simp]
theorem withDisk_disk {disk : Disk} : (workers.withDisk disk).disk = disk := rfl

@[simp]
theorem withDisk_phase {disk : Disk} : (workers.withDisk disk).phase = workers.phase := rfl

end Updates

end Workers

/-- The calls that only workers make. -/
def Request.byWorkers : Request → Bool
  | .method (.claimNextOutboundDeliveryAttempt _ _) => true
  | .method (.markOutboundDeliveryDelivered _ _) => true
  | .method (.markOutboundDeliveryFailed _ _ _) => true
  | .method (.markOutboundDeliveryUncertain _ _ _) => true
  | _ => false

/-- What can happen: a step of a worker, or a call of the store by someone else. -/
inductive WorkerAction
  | claim (worker : ℕ) (io : Io) (startedAtUnix : U64)
  | handOver (worker : ℕ)
  | answer (worker : ℕ) (deliverOutboundMessage : OutboundDeliveryAttempt → AdapterResult)
  | record (worker : ℕ) (io : Io) (nowUnix : U64)
  | call (call : Call) (others : call.request.byWorkers = false)

/-- What a step shows; a worker that is elsewhere in its work skips it. -/
inductive WorkerEvent
  | skipped
  | claimed (result : Except RuntimeError (Option OutboundDeliveryAttempt))
  | handedOver (attempt : OutboundDeliveryAttempt)
  | answered (adapterResult : AdapterResult)
  | recorded (result : Except RuntimeError OutboxWorkerOutcome)
  | called (result : Except String Reply)

namespace OutboxWorker

/-- The phase after a claim. -/
def phaseOfClaim (startedAtUnix : U64) :
    Except RuntimeError (Option OutboundDeliveryAttempt) → WorkerPhase
  | .ok (some attempt) => .claimed attempt startedAtUnix
  | _ => .idle

def step (self : OutboxWorker) (action : WorkerAction) (workers : Workers) : WorkerEvent × Workers :=
  match action with
  | .claim worker io startedAtUnix =>
    match workers.phase worker with
    | .idle =>
      let result := self.claim io startedAtUnix workers.disk
      (.claimed (outcome result), (workers.withDisk (finalState result)).enter worker
        (phaseOfClaim startedAtUnix (outcome result)))
    | _ => (.skipped, workers)
  | .handOver worker =>
    match workers.phase worker with
    | .claimed attempt startedAtUnix =>
      (.handedOver attempt, workers.enter worker (.calling attempt startedAtUnix))
    | _ => (.skipped, workers)
  | .answer worker deliverOutboundMessage =>
    match workers.phase worker with
    | .calling attempt startedAtUnix =>
      let adapterResult := deliverOutboundMessage attempt
      (.answered adapterResult,
        workers.enter worker (.returned attempt startedAtUnix adapterResult))
    | _ => (.skipped, workers)
  | .record worker io nowUnix =>
    match workers.phase worker with
    | .returned attempt startedAtUnix adapterResult =>
      let result := self.record io attempt (max nowUnix startedAtUnix) adapterResult workers.disk
      (.recorded (outcome result), (workers.withDisk (finalState result)).enter worker .idle)
    | _ => (.skipped, workers)
  | .call call _ =>
    let (result, disk) := self.stateStore.step call workers.disk
    (.called result, workers.withDisk disk)

end OutboxWorker

/-- A step of the workers, with the store and the phases before and after it. -/
abbrev WorkerEntry := Entry Workers WorkerAction WorkerEvent

/-- Workers that have not begun anything. -/
def Workers.starting (disk : Disk) : Workers := ⟨disk, fun _ ↦ .idle⟩

/-- The steps of workers that start on a file. -/
def OutboxWorker.run (self : OutboxWorker) (disk : Disk) (actions : List WorkerAction) :
    List WorkerEntry :=
  trace self.step (.starting disk) actions

/-! ## The calls of the store behind the steps -/

theorem StateStore.finalState_transact {α : Type} {wrap : α → Reply}
    {transaction : U64 → Transaction (α × Commit)} (self : StateStore) (io : Io) (disk : Disk) :
    finalState (self.transact io transaction disk) =
      finalState (self.transact io (fun now ↦ replying wrap (transaction now)) disk) := by
  rw [self.transact_replying]
  exact finalState_bind_pure.symm

theorem StateStore.finalState_load (self : StateStore) (io : Io) (disk : Disk) :
    finalState (self.load io disk) = disk := by
  rw [load]
  refine finalState_bind_pure.trans ?_
  rcases self.readStateFile_cases io.read disk with ⟨err, h⟩ | ⟨h, -⟩ <;> rw [h] <;> rfl

namespace OutboxWorker

/-- The method that records what an adapter has answered. -/
def outcomeMethod (attempt : OutboundDeliveryAttempt) (finishedAtUnix : U64) : AdapterResult → Method
  | .ok _ => .markOutboundDeliveryDelivered attempt.deliveryId finishedAtUnix
  | .error ⟨.retryable, error⟩ => .markOutboundDeliveryFailed attempt.deliveryId finishedAtUnix error
  | .error ⟨.uncertain, error⟩ =>
    .markOutboundDeliveryUncertain attempt.deliveryId finishedAtUnix error

/-- The call of the store that a step makes. -/
def storeCall (self : OutboxWorker) (action : WorkerAction) (workers : Workers) : Option Call :=
  match action with
  | .claim worker io startedAtUnix =>
    match workers.phase worker with
    | .idle => some ⟨.method (.claimNextOutboundDeliveryAttempt startedAtUnix self.retryPolicy), io⟩
    | _ => none
  | .record worker io nowUnix =>
    match workers.phase worker with
    | .returned attempt startedAtUnix adapterResult =>
      some ⟨.method (outcomeMethod attempt (max nowUnix startedAtUnix) adapterResult), io⟩
    | _ => none
  | .call call _ => some call
  | _ => none

variable {self : OutboxWorker} {io claimIo : Io} {disk : Disk} {workers : Workers}
  {action : WorkerAction} {attempt : OutboundDeliveryAttempt} {time nowUnix : U64}

theorem claim_disk : finalState (self.claim io time disk) = finalState (self.stateStore.call io
    (.method (.claimNextOutboundDeliveryAttempt time self.retryPolicy)) disk) := by
  rw [claim, finalState_mapErr]
  exact self.stateStore.finalState_transact io disk

/-- A claim that succeeds is a call that succeeds. -/
theorem claim_eq_ok (h : outcome (self.claim io time disk) = .ok (some attempt)) :
    self.stateStore.call io (.method (.claimNextOutboundDeliveryAttempt time self.retryPolicy)) disk =
      .ok (.attempt (some attempt)) (finalState (self.claim io time disk)) := by
  have hclaim := mapErr_eq_ok.mp (outcome_eq_ok.mp h)
  refine (self.stateStore.transact_replying io disk .attempt _).trans ?_
  exact (estate_ok_bind hclaim).trans rfl

theorem record_disk (self : OutboxWorker) {adapterResult : AdapterResult} :
    finalState (self.record io attempt time adapterResult disk) =
      finalState (self.stateStore.call io (.method (outcomeMethod attempt time adapterResult)) disk) := by
  match adapterResult with
  | .ok _ =>
    refine finalState_bind_pure.trans ?_
    rw [finalState_mapErr]
    exact self.stateStore.finalState_transact io disk
  | .error ⟨.retryable, error⟩ =>
    refine finalState_bind_pure.trans ?_
    rw [finalState_mapErr]
    exact self.stateStore.finalState_transact io disk
  | .error ⟨.uncertain, error⟩ =>
    refine finalState_bind_pure.trans ?_
    rw [finalState_mapErr]
    exact self.stateStore.finalState_transact io disk

/-- The steps of the workers reach the file through calls of the store only. -/
theorem step_disk (self : OutboxWorker) (action : WorkerAction) (workers : Workers) :
    (self.step action workers).2.disk =
      match self.storeCall action workers with
      | some call => (self.stateStore.step call workers.disk).2
      | none => workers.disk := by
  cases action with
  | claim worker io startedAtUnix =>
    cases hphase : workers.phase worker with
    | idle =>
      simp only [step, storeCall, hphase]
      exact claim_disk
    | claimed | calling | returned => simp only [step, storeCall, hphase]
  | handOver worker =>
    cases hphase : workers.phase worker <;> simp only [step, storeCall, hphase, Workers.enter]
  | answer worker deliverOutboundMessage =>
    cases hphase : workers.phase worker <;> simp only [step, storeCall, hphase, Workers.enter]
  | record worker io nowUnix =>
    cases hphase : workers.phase worker with
    | returned =>
      simp only [step, storeCall, hphase]
      exact self.record_disk
    | idle | claimed | calling => simp only [step, storeCall, hphase]
  | call call others => rfl

theorem idle_disk : finalState (self.idle io disk) = disk := by
  refine finalState_bind_pure.trans ?_
  rw [finalState_mapErr, StateStore.finalState_load]

/-- The four steps of a worker that nobody interrupts are one `process_next_with_clock`. -/
theorem processNextWithClock_steps {worker : ℕ} (hidle : workers.phase worker = .idle)
    (deliverOutboundMessage : OutboundDeliveryAttempt → AdapterResult) :
    finalOf self.step workers [.claim worker claimIo time, .handOver worker,
        .answer worker deliverOutboundMessage, .record worker io nowUnix] =
      workers.withDisk (finalState
        (self.processNextWithClock claimIo io deliverOutboundMessage time nowUnix workers.disk)) := by
  have hupdate : Function.update workers.phase worker .idle = workers.phase := by
    rw [← hidle, Function.update_eq_self]
  cases hclaim : self.claim claimIo time workers.disk with
  | error err disk' =>
    have hprocess : self.processNextWithClock claimIo io deliverOutboundMessage time nowUnix
        workers.disk = .error err disk' := estate_error_bind hclaim
    simp only [finalOf, step, hidle, hclaim, outcome, finalState, phaseOfClaim, Workers.enter,
      Workers.withDisk, hupdate, hprocess]
  | ok claimed disk' =>
    cases claimed with
    | none =>
      have hprocess : finalState (self.processNextWithClock claimIo io deliverOutboundMessage time
          nowUnix workers.disk) = disk' := by
        rw [processNextWithClock, estate_ok_bind hclaim]
        exact idle_disk
      rw [hprocess]
      simp only [finalOf, step, hidle, hclaim, outcome, finalState, phaseOfClaim, Workers.enter,
        Workers.withDisk, hupdate]
    | some attempt =>
      have hprocess : finalState (self.processNextWithClock claimIo io deliverOutboundMessage time
          nowUnix workers.disk) = finalState (self.record io attempt (max nowUnix time)
            (deliverOutboundMessage attempt) disk') := by
        rw [processNextWithClock, estate_ok_bind hclaim]
      rw [hprocess]
      simp only [finalOf, step, hidle, hclaim, outcome, finalState, phaseOfClaim, Workers.enter,
        Workers.withDisk, Function.update_self, Function.update_idem, hupdate]

end OutboxWorker

end FerrisBridge
