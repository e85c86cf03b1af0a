import FerrisBridge.Foundations.Keyed
import FerrisBridge.Runtime.Queue
import FerrisBridge.Runtime.Retry

/-!
# The runtime state

The aggregate that the state file holds, with its lookups and the operations that update it. An
operation that reads the wall clock takes the reading `now` as its last argument. An operation that
fails keeps the changes it made before, as a method with a mutable receiver does.
-/

open Foundations

namespace FerrisBridge

structure RuntimeState where
  sessions : List Session
  runs : List RunRecord
  runInputs : List RunInputRecord
  inboundEvents : List InboundEventRecord
  queuedMessages : List QueuedMessage
  outboundDeliveries : List OutboundDeliveryRecord
  updatedAtUnix : U64
  deriving DecidableEq, Repr

namespace RuntimeState

def new (now : U64) : RuntimeState :=
  { sessions := []
    runs := []
    runInputs := []
    inboundEvents := []
    queuedMessages := []
    outboundDeliveries := []
    updatedAtUnix := now }

/-! ## Lookups -/

variable (self : RuntimeState)

def session (id : SessionId) : Option Session := self.sessions.find? (·.id = id)

def run (id : RunId) : Option RunRecord := self.runs.find? (·.id = id)

def runInput (id : RunId) : Option RunInputRecord := self.runInputs.find? (·.runId = id)

def inboundEvent (id : EventId) : Option InboundEventRecord := self.inboundEvents.find? (·.id = id)

def hasInboundEvent (id : EventId) : Bool := (self.inboundEvent id).isSome

def outboundDelivery (id : OutboundDeliveryId) : Option OutboundDeliveryRecord :=
  self.outboundDeliveries.find? (·.id = id)

def pollMessageQueue (policy : MessageQueuePolicy) (nowUnix : U64) : MessageQueuePoll :=
  policy.poll self.queuedMessages nowUnix

/-- The messages that the run inputs have taken over. -/
def claimedMessages : List QueuedMessage := self.runInputs.flatMap (·.messages)

def claimedMessageForEvent (id : EventId) : Option QueuedMessage :=
  self.claimedMessages.find? (·.eventId = id)

def messageRecordForEvent (id : EventId) : Option QueuedMessage :=
  (self.queuedMessages.find? (·.eventId = id)).or (self.claimedMessageForEvent id)

def validateRunSession (run : RunRecord) : Except String Unit :=
  rejectIf (self.session run.sessionId).isNone
    s!"run {run.id} references unknown session {run.sessionId}"

def validateOutboundDeliverySession (delivery : OutboundDeliveryRecord) : Except String Unit :=
  rejectIf (self.session delivery.sessionId).isNone
    s!"outbound delivery {delivery.id} references unknown session {delivery.sessionId}"

def touchAt (updatedAtUnix : U64) (state : RuntimeState) : RuntimeState :=
  { state with updatedAtUnix := max state.updatedAtUnix updatedAtUnix }

/-! ## Sessions and runs -/

def upsertSession (session : Session) (now : U64) (state : RuntimeState) : RuntimeState :=
  match state.session session.id with
  | some existing =>
    let refreshed := existing.refreshFrom session
    touchAt (max refreshed.updatedAtUnix now)
      { state with sessions := replaceFirst (·.id) refreshed state.sessions }
  | none =>
    touchAt (max session.updatedAtUnix now) { state with sessions := state.sessions ++ [session] }

/-- A session has at most one run that is not terminal. -/
def validateNoActiveRun (run : RunRecord) : Except String Unit :=
  if run.isTerminal then .ok ()
  else match self.runs.find? fun existing ↦
      existing.sessionId = run.sessionId ∧ existing.isTerminal = false with
    | some existing =>
      .error s!"session {run.sessionId} already has active run {existing.id}"
    | none => .ok ()

def addRun (run : RunRecord) (now : U64) : EStateM String RuntimeState Unit := do
  let self ← get
  question <| self.validateRunSession run
  question <| rejectIf (self.runs.any (·.id = run.id)) s!"duplicate run id {run.id}"
  question <| self.validateNoActiveRun run
  modify fun state ↦
    touchAt (max run.updatedAtUnix now) { state with runs := state.runs ++ [run] }

/-- `run_mut` followed by a method call on the run. -/
def runMut {α : Type} (id : RunId) (update : EStateM String RunRecord α) :
    EStateM String RuntimeState α :=
  zoom runs (fun state runs ↦ { state with runs })
    (updateFirst (·.id = id) s!"unknown run id {id}" update)

def startRun (id : RunId) (startedAtUnix now : U64) : EStateM String RuntimeState Unit := do
  runMut id (RunRecord.start startedAtUnix)
  modify (touchAt (max startedAtUnix now))

def interruptRun (id : RunId) (interruptedAtUnix now : U64) : EStateM String RuntimeState Unit := do
  runMut id (RunRecord.interrupt interruptedAtUnix)
  modify (touchAt (max interruptedAtUnix now))

def completeRun (id : RunId) (finishedAtUnix now : U64) : EStateM String RuntimeState Unit := do
  runMut id (RunRecord.complete finishedAtUnix)
  modify (touchAt (max finishedAtUnix now))

def failRun (id : RunId) (finishedAtUnix now : U64) : EStateM String RuntimeState Unit := do
  runMut id (RunRecord.fail finishedAtUnix)
  modify (touchAt (max finishedAtUnix now))

def cancelRun (id : RunId) (finishedAtUnix now : U64) : EStateM String RuntimeState Unit := do
  runMut id (RunRecord.cancel finishedAtUnix)
  modify (touchAt (max finishedAtUnix now))

/-- The accumulators of the loop of `reconcileRunsAtStartup`. -/
structure RunRecovery where
  report : RunStartupRecoveryReport
  changed : Bool
  latestInterruptedAt : Option U64

/-- One iteration of the loop of `reconcileRunsAtStartup`. -/
def recoverRun (runInputIds : List RunId) (recoveredAtUnix : U64) (loop : RunRecovery) :
    EStateM String RunRecord RunRecovery := do
  let run ← get
  let interrupted : EStateM String RunRecord RunRecovery := do
    let interruptedAtUnix := max recoveredAtUnix run.updatedAtUnix
    RunRecord.interrupt interruptedAtUnix
    return {
      report := { loop.report with
        interruptedRunIds := loop.report.interruptedRunIds ++ [run.id] }
      changed := true
      latestInterruptedAt :=
        some (max (loop.latestInterruptedAt.getD interruptedAtUnix) interruptedAtUnix) }
  match run.status with
  | .pending =>
    if run.id ∈ runInputIds then
      return { loop with
        report.resumablePendingRunIds := loop.report.resumablePendingRunIds ++ [run.id] }
    else interrupted
  | .running => interrupted
  | .interrupted =>
    return { loop with report.interruptedRunIds := loop.report.interruptedRunIds ++ [run.id] }
  | .failed => return { loop with report.failedRunIds := loop.report.failedRunIds ++ [run.id] }
  | .completed | .cancelled => return loop

/-- `if let Some(time) = latest { self.touch_at(time); }`. -/
def touchLatest (latest : Option U64) (state : RuntimeState) : RuntimeState :=
  match latest with
  | some time => touchAt time state
  | none => state

def reconcileRunsAtStartup (recoveredAtUnix : U64) :
    EStateM String RuntimeState (RunStartupRecoveryReport × Bool) := do
  let self ← get
  let runInputIds := self.runInputs.map (·.runId)
  let loop ← zoom runs (fun state runs ↦ { state with runs })
    (forEachMut (recoverRun runInputIds recoveredAtUnix) ⟨⟨[], [], []⟩, false, none⟩)
  modify (touchLatest loop.latestInterruptedAt)
  return (loop.report, loop.changed)

/-! ## Inbound events and the queue -/

/-- The enqueue times of the messages of a session, claimed and queued. -/
def ownedEnqueueTimes (id : SessionId) : List U64 :=
  ((self.runInputs.filter (·.sessionId = id)).flatMap (·.messages) ++
    self.queuedMessages.filter (·.sessionId = id)).map (·.enqueuedAtUnix)

def queuedMessageForEvent (event : Event) (recordedAtUnix : U64) :
    Except String (Option QueuedMessage) :=
  match event.kind with
  | .messageReceived message => do
    let sessionId ← okOr message.sessionId
      s!"inbound message event {event.id} must reference a session before persistence"
    rejectIf (self.session sessionId).isNone
      s!"inbound message event {event.id} references unknown session {sessionId}"
    let previousEnqueuedAt := (self.ownedEnqueueTimes sessionId).max?.getD 0
    let queued ← QueuedMessage.fromEvent event (max recordedAtUnix previousEnqueuedAt)
    return some queued
  | _ => .ok none

/-- The checks of an event that the ledger already has. -/
def validateDuplicateEvent (event : Event) (existingRecord : InboundEventRecord)
    (queued : Option QueuedMessage) : Except String Unit := do
  rejectIf (existingRecord.receivedAtUnix ≠ event.receivedAtUnix)
    s!"conflicting inbound event {event.id} received_at_unix"
  match self.messageRecordForEvent event.id, queued with
  | some existingMessage, some candidateQueued =>
    rejectIf (existingMessage.hasSameIdentity candidateQueued = false)
      s!"conflicting queued message event {event.id}"
  | some _, none =>
    throw s!"duplicate inbound event {event.id} conflicts with a queued message record"
  | none, some _ =>
    throw s!"duplicate inbound message event {event.id} has no queued message record"
  | none, none => return ()

/-- The tail of `record_inbound_event_at`: the ledger record and the queued message go in. -/
def pushInboundEvent (record : InboundEventRecord) (queued : Option QueuedMessage)
    (state : RuntimeState) : RuntimeState :=
  let recorded := { state with inboundEvents := state.inboundEvents ++ [record] }
  touchAt record.recordedAtUnix <|
    match queued with
    | some queued =>
      { touchAt queued.enqueuedAtUnix recorded with
        queuedMessages := recorded.queuedMessages ++ [queued] }
    | none => recorded

def recordInboundEventAt (event : Event) (recordedAtUnix : U64) :
    EStateM String RuntimeState InboundEventRecordStatus := do
  let self ← get
  let queued ← question <| self.queuedMessageForEvent event recordedAtUnix
  match self.inboundEvent event.id with
  | some existingRecord =>
    question <| self.validateDuplicateEvent event existingRecord queued
    return .duplicate
  | none =>
    let record ← question <| InboundEventRecord.fromEvent event recordedAtUnix
    modify (pushInboundEvent record queued)
    return .recorded

def recordInboundEvent (event : Event) (now : U64) :
    EStateM String RuntimeState InboundEventRecordStatus := recordInboundEventAt event now

def claimMessageBatch (runId : RunId) (policy : MessageQueuePolicy) (nowUnix now : U64) :
    EStateM String RuntimeState MessageBatchClaimOutcome := do
  let self ← get
  let activeSessions := (self.runs.filter (·.isTerminal = false)).map (·.sessionId)
  match policy.pollWhere self.queuedMessages nowUnix (· ∉ activeSessions) with
  | .waiting nextReadyAtUnix => return .waiting nextReadyAtUnix
  | .ready batch =>
    let run := RunRecord.new runId batch.sessionId nowUnix
    let input ← question <| RunInputRecord.fromBatch runId batch nowUnix
    let claimedEventIds := input.messages.map (·.eventId)
    addRun run now
    modify fun state ↦
      touchAt input.claimedAtUnix { state with
        queuedMessages := state.queuedMessages.filter (·.eventId ∉ claimedEventIds)
        runInputs := state.runInputs ++ [input] }
    return .claimed run input

/-! ## Outbound deliveries -/

def enqueueOutboundDelivery (delivery : OutboundDeliveryRecord) (now : U64) :
    EStateM String RuntimeState OutboundDeliveryEnqueueStatus := do
  let self ← get
  question delivery.validate
  question <| self.validateOutboundDeliverySession delivery
  question <| rejectIf (delivery.status ≠ .pending)
    s!"outbound delivery {delivery.id} cannot enqueue from {delivery.status}"
  match self.outboundDelivery delivery.id with
  | some existing =>
    if existing = delivery then return .duplicate
    else throw s!"conflicting outbound delivery {delivery.id}"
  | none =>
    modify fun state ↦
      touchAt (max delivery.updatedAtUnix now) { state with
        outboundDeliveries := state.outboundDeliveries ++ [delivery] }
    return .queued

/-- A transition of a delivery, followed by a copy of the updated record. -/
def andClone (update : EStateM String OutboundDeliveryRecord Unit) :
    EStateM String OutboundDeliveryRecord OutboundDeliveryRecord := do
  update
  get

def claimNextOutboundDeliveryWhere (startedAtUnix : U64)
    (isEligible : OutboundDeliveryRecord → Bool) (now : U64) :
    EStateM String RuntimeState (Option OutboundDeliveryRecord) := do
  let claimed ← zoom outboundDeliveries
    (fun state outboundDeliveries ↦ { state with outboundDeliveries })
    (updateFirst?
      (fun delivery ↦
        (delivery.status = .pending ∨ delivery.status = .failed) && isEligible delivery)
      (andClone (OutboundDeliveryRecord.beginDelivery startedAtUnix)))
  match claimed with
  | none => return none
  | some delivery =>
    modify (touchAt (max delivery.updatedAtUnix now))
    return some delivery

/-- `outbound_delivery_mut` followed by a transition, with a copy of the updated record. -/
def updateOutboundDelivery (id : OutboundDeliveryId) (now : U64)
    (update : EStateM String OutboundDeliveryRecord Unit) :
    EStateM String RuntimeState OutboundDeliveryRecord := do
  let updatedDelivery ← zoom outboundDeliveries
    (fun state outboundDeliveries ↦ { state with outboundDeliveries })
    (updateFirst (·.id = id) s!"unknown outbound delivery id {id}" (andClone update))
  modify (touchAt (max updatedDelivery.updatedAtUnix now))
  return updatedDelivery

def markOutboundDeliveryDelivered (id : OutboundDeliveryId) (deliveredAtUnix now : U64) :
    EStateM String RuntimeState OutboundDeliveryRecord :=
  updateOutboundDelivery id now (OutboundDeliveryRecord.markDelivered deliveredAtUnix)

def markOutboundDeliveryFailed (id : OutboundDeliveryId) (failedAtUnix : U64) (error : String)
    (now : U64) : EStateM String RuntimeState OutboundDeliveryRecord :=
  updateOutboundDelivery id now (OutboundDeliveryRecord.markFailed failedAtUnix error)

def markOutboundDeliveryUncertain (id : OutboundDeliveryId) (uncertainAtUnix : U64)
    (error : String) (now : U64) : EStateM String RuntimeState OutboundDeliveryRecord :=
  updateOutboundDelivery id now (OutboundDeliveryRecord.markUncertain uncertainAtUnix error)

def resolveOutboundDeliveryAsDelivered (id : OutboundDeliveryId) (resolvedAtUnix now : U64) :
    EStateM String RuntimeState OutboundDeliveryRecord :=
  updateOutboundDelivery id now (OutboundDeliveryRecord.resolveUncertainAsDelivered resolvedAtUnix)

def resolveOutboundDeliveryAsFailed (id : OutboundDeliveryId) (resolvedAtUnix : U64)
    (reason : String) (now : U64) : EStateM String RuntimeState OutboundDeliveryRecord :=
  updateOutboundDelivery id now
    (OutboundDeliveryRecord.resolveUncertainAsFailed resolvedAtUnix reason)

/-- The accumulators of the loop of `reconcileOutboundDeliveriesAtStartup`. -/
structure OutboundRecovery where
  reconciliationRequiredDeliveryIds : List OutboundDeliveryId
  changed : Bool
  latestRecoveredAt : Option U64

/-- One iteration of the loop of `reconcileOutboundDeliveriesAtStartup`. -/
def recoverOutboundDelivery (recoveredAtUnix : U64) (loop : OutboundRecovery) :
    EStateM String OutboundDeliveryRecord OutboundRecovery := do
  let delivery ← get
  let required := loop.reconciliationRequiredDeliveryIds ++ [delivery.id]
  match delivery.status with
  | .delivering =>
    let recoveredAtUnix := max recoveredAtUnix delivery.updatedAtUnix
    OutboundDeliveryRecord.markUncertain recoveredAtUnix startupRecoveryDiagnostic
    return {
      reconciliationRequiredDeliveryIds := required
      changed := true
      latestRecoveredAt :=
        some (max (loop.latestRecoveredAt.getD recoveredAtUnix) recoveredAtUnix) }
  | .uncertain => return { loop with reconciliationRequiredDeliveryIds := required }
  | .pending | .delivered | .failed => return loop

def reconcileOutboundDeliveriesAtStartup (recoveredAtUnix : U64) :
    EStateM String RuntimeState (OutboundDeliveryStartupRecoveryReport × Bool) := do
  let loop ← zoom outboundDeliveries
    (fun state outboundDeliveries ↦ { state with outboundDeliveries })
    (forEachMut (recoverOutboundDelivery recoveredAtUnix) ⟨[], false, none⟩)
  modify (touchLatest loop.latestRecoveredAt)
  return (⟨loop.reconciliationRequiredDeliveryIds⟩, loop.changed)

/-! ## Completion with outputs -/

/-- One iteration of the delivery loop of `completeRunWithOutputDeliveries`. -/
def validateOutputDelivery (run : RunRecord) (finishedAtUnix : U64)
    (deliveryIds : List OutboundDeliveryId) (delivery : OutboundDeliveryRecord) :
    Except String (List OutboundDeliveryId) := do
  delivery.validate
  self.validateOutboundDeliverySession delivery
  rejectIf (delivery.status ≠ .pending)
    s!"agent run {run.id} output delivery {delivery.id} must be pending"
  rejectIf (delivery.sessionId ≠ run.sessionId)
    s!"agent run {run.id} output delivery {delivery.id} does not match session {run.sessionId}"
  rejectIf (delivery.message.author ≠ .agent)
    s!"agent run {run.id} output delivery {delivery.id} must contain an agent-authored message"
  rejectIf (delivery.createdAtUnix ≠ finishedAtUnix)
    (s!"agent run {run.id} output delivery {delivery.id} " ++
      "created_at_unix must match completion time")
  rejectIf (delivery.id ∈ deliveryIds)
    s!"agent run {run.id} contains duplicate output delivery id {delivery.id}"
  rejectIf (self.outboundDelivery delivery.id).isSome
    s!"agent run {run.id} output delivery {delivery.id} already exists"
  return deliveryIds ++ [delivery.id]

def completeRunWithOutputDeliveries (id : RunId) (deliveries : List OutboundDeliveryRecord)
    (finishedAtUnix now : U64) : EStateM String RuntimeState (List OutboundDeliveryRecord) := do
  let self ← get
  question <| rejectIf (deliveries = [])
    s!"agent run {id} completion must contain outbound deliveries"
  let run ← question <| okOr (self.run id) s!"unknown run id {id}"
  question <| rejectIf (run.status ≠ .running) s!"run {id} cannot complete from {run.status}"
  question <| rejectIf (finishedAtUnix < run.updatedAtUnix)
    s!"run {id} cannot complete before updated_at_unix"
  let _ ← question <| deliveries.foldlM (self.validateOutputDelivery run finishedAtUnix) []
  runMut id (RunRecord.completeWithOutputDeliveries finishedAtUnix (deliveries.map (·.id)))
  modify fun state ↦
    touchAt (max finishedAtUnix now) { state with
      outboundDeliveries := state.outboundDeliveries ++ deliveries }
  return deliveries

end RuntimeState

end FerrisBridge
