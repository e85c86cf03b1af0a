import FerrisBridge.State.Snapshot

/-!
# The state store

The store keeps one runtime state in a file. Every method holds the write lock, loads the state,
works on it in memory, and ends with at most one write or durability check of the file. The work is
a `Transaction`: a computation on the loaded state that returns the reply together with what is to
be done with the file. `transact` runs it against the file.

The file has a visible content, and a durable content that a crash leaves behind. A file that no
write has created is absent. What the file system answers during a call, and the readings of the
wall clock, are given by `Io`.
-/

open Foundations

namespace FerrisBridge

structure StateStore where
  path : String
  deriving DecidableEq, Repr

/-- The state file. -/
structure Disk where
  visible : Option RuntimeState
  durable : Option RuntimeState
  deriving DecidableEq, Repr

/-- No write has created the file yet. -/
def Disk.absent : Disk := ⟨none, none⟩

/-- How an atomic replacement of the file ends. -/
inductive WriteOutcome
  | replaced
  | failedBeforeReplace (err : String)
  | failedAfterReplace (err : String)
  deriving DecidableEq, Repr

/-- The answers of the file system and the wall clock during one call. A failed operation answers
with its error. `newStateAt` is the clock reading of `RuntimeState::new`. -/
structure Io where
  read : Option String
  readForMerge : Option String
  write : WriteOutcome
  confirm : Option String
  newStateAt : U64
  now : U64
  deriving DecidableEq, Repr

/-- No operation fails, at the beginning of the epoch. -/
def Io.untroubled : Io := ⟨none, none, .replaced, none, 0, 0⟩

/-- What a call does with the file when its work has succeeded. -/
inductive Commit
  | nothing
  | confirm
  | write
  | save
  deriving DecidableEq, Repr

/-- The work of a call on the state that it has loaded. -/
abbrev Transaction := EStateM String RuntimeState

namespace StateStore

/-! ## The inbound side -/

def persistInboundEvent (event : Event) (now : U64) : Transaction (InboundEventRecordStatus × Commit) := do
  let recordStatus ← RuntimeState.recordInboundEvent event now
  return (recordStatus, if recordStatus = .recorded then .save else .nothing)

def pollMessageQueue (policy : MessageQueuePolicy) (nowUnix : U64) :
    Transaction (MessageQueuePoll × Commit) := do
  let state ← get
  return (state.pollMessageQueue policy nowUnix, .nothing)

def claimMessageBatch (runId : RunId) (policy : MessageQueuePolicy) (nowUnix now : U64) :
    Transaction (MessageBatchClaimOutcome × Commit) := do
  let outcome ← RuntimeState.claimMessageBatch runId policy nowUnix now
  match outcome with
  | .claimed _ _ => return (outcome, .write)
  | .waiting _ => return (outcome, .nothing)

/-! ## The outbox -/

def enqueueOutboundDelivery (delivery : OutboundDeliveryRecord) (now : U64) :
    Transaction (OutboundDeliveryEnqueueStatus × Commit) := do
  let enqueueStatus ← RuntimeState.enqueueOutboundDelivery delivery now
  return (enqueueStatus, if enqueueStatus = .queued then .save else .nothing)

def claimNextOutboundDeliveryAttempt (startedAtUnix : U64) (retryPolicy : OutboundRetryPolicy)
    (now : U64) : Transaction (Option OutboundDeliveryAttempt × Commit) := do
  let delivery ← RuntimeState.claimNextOutboundDeliveryWhere startedAtUnix
    (fun delivery ↦ retryPolicy.isDue delivery startedAtUnix) now
  match delivery with
  | none => return (none, .nothing)
  | some delivery =>
    let state ← get
    let session ← question <| okOr (state.session delivery.sessionId)
      s!"outbound delivery {delivery.id} references unknown session {delivery.sessionId}"
    let attempt ← question <| OutboundDeliveryAttempt.fromRecord delivery session.scope
    return (some attempt, .write)

def markOutboundDeliveryDelivered (id : OutboundDeliveryId) (deliveredAtUnix now : U64) :
    Transaction (OutboundDeliveryRecord × Commit) := do
  let delivery ← RuntimeState.markOutboundDeliveryDelivered id deliveredAtUnix now
  return (delivery, .write)

def markOutboundDeliveryFailed (id : OutboundDeliveryId) (failedAtUnix : U64) (error : String)
    (now : U64) : Transaction (OutboundDeliveryRecord × Commit) := do
  let delivery ← RuntimeState.markOutboundDeliveryFailed id failedAtUnix error now
  return (delivery, .write)

def markOutboundDeliveryUncertain (id : OutboundDeliveryId) (uncertainAtUnix : U64)
    (error : String) (now : U64) : Transaction (OutboundDeliveryRecord × Commit) := do
  let delivery ← RuntimeState.markOutboundDeliveryUncertain id uncertainAtUnix error now
  return (delivery, .write)

def resolveOutboundDeliveryAsDelivered (id : OutboundDeliveryId) (resolvedAtUnix now : U64) :
    Transaction (OutboundDeliveryRecord × Commit) := do
  let state ← get
  let existing ← question <| okOr (state.outboundDelivery id) s!"unknown outbound delivery id {id}"
  match existing.status with
  | .uncertain =>
    let resolved ← RuntimeState.resolveOutboundDeliveryAsDelivered id resolvedAtUnix now
    return (resolved, .write)
  | .delivered =>
    if existing.deliveredAtUnix = some resolvedAtUnix then return (existing, .confirm)
    else throw (s!"outbound delivery {id} delivered resolution timestamp conflicts with " ++
      "persisted state")
  | status => throw s!"outbound delivery {id} cannot resolve as delivered from {status}"

def resolveOutboundDeliveryAsFailed (id : OutboundDeliveryId) (resolvedAtUnix : U64)
    (reason : String) (now : U64) : Transaction (OutboundDeliveryRecord × Commit) := do
  let state ← get
  let existing ← question <| okOr (state.outboundDelivery id) s!"unknown outbound delivery id {id}"
  match existing.status with
  | .uncertain =>
    let resolved ← RuntimeState.resolveOutboundDeliveryAsFailed id resolvedAtUnix reason now
    return (resolved, .write)
  | .failed =>
    if isBlank reason then throw s!"outbound delivery {id} resolution failure is empty"
    else if existing.updatedAtUnix = resolvedAtUnix ∧ existing.lastError = some reason then
      return (existing, .confirm)
    else throw s!"outbound delivery {id} failed resolution conflicts with persisted state"
  | status => throw s!"outbound delivery {id} cannot resolve as failed from {status}"

/-! ## Startup recovery -/

def reconcileRunsAtStartup (recoveredAtUnix : U64) : Transaction (RunStartupRecoveryReport × Commit) := do
  let (report, changed) ← RuntimeState.reconcileRunsAtStartup recoveredAtUnix
  return (report, if changed then .write else .confirm)

def reconcileOutboundDeliveriesAtStartup (recoveredAtUnix : U64) :
    Transaction (OutboundDeliveryStartupRecoveryReport × Commit) := do
  let (report, changed) ← RuntimeState.reconcileOutboundDeliveriesAtStartup recoveredAtUnix
  return (report, if changed then .write else .confirm)

/-! ## Agent runs -/

def startAgentRun (id : RunId) (startedAtUnix now : U64) : Transaction (RunInputRecord × Commit) := do
  let state ← get
  let run ← question <| okOr (state.run id) s!"unknown run id {id}"
  let input ← question <| okOr (state.runInput id) s!"agent run {id} has no durable input"
  question <| rejectIf (input.sessionId ≠ run.sessionId)
    s!"agent run {id} input does not match session {run.sessionId}"
  question <| rejectIf (startedAtUnix < run.updatedAtUnix)
    s!"agent run {id} cannot start before updated_at_unix"
  RuntimeState.startRun id startedAtUnix now
  return (input, .write)

def outputDeliveryId (runId : RunId) (index : ℕ) : Except String OutboundDeliveryId :=
  OutboundDeliveryId.new s!"agent-run-output:{runId.asStr.utf8ByteSize}:{runId}:{index}"

/-- The delivery of one message of a completion. -/
def outputDelivery (runId : RunId) (sessionId : SessionId) (finishedAtUnix : U64)
    (output : Message × ℕ) : Except String OutboundDeliveryRecord := do
  let (message, index) := output
  rejectIf (message.author ≠ .agent)
    s!"agent run {runId} output message {message.id} must be agent-authored"
  rejectIf (message.sessionId ≠ some sessionId)
    s!"agent run {runId} output message {message.id} does not match session {sessionId}"
  let id ← outputDeliveryId runId index
  OutboundDeliveryRecord.new id sessionId message finishedAtUnix

def outputDeliveries (runId : RunId) (sessionId : SessionId) (messages : List Message)
    (finishedAtUnix : U64) : Except String (List OutboundDeliveryRecord) := do
  rejectIf (messages = []) s!"agent run {runId} completion must contain output messages"
  messages.zipIdx.mapM (outputDelivery runId sessionId finishedAtUnix)

/-- The check of one output of a completion that is replayed. -/
def verifyOutput (state : RuntimeState) (run : RunRecord) (expected : OutboundDeliveryRecord) :
    Except String Unit := do
  let persisted ← okOr (state.outboundDelivery expected.id)
    s!"agent run {run.id} completion is missing outbound delivery {expected.id}"
  rejectIf (persisted.hasSameEnqueueIdentity expected = false)
    s!"agent run {run.id} completion output {expected.id} conflicts with persisted state"

def verifyCompletionReplay (state : RuntimeState) (run : RunRecord)
    (expected : List OutboundDeliveryRecord) (finishedAtUnix : U64) : Except String Unit := do
  rejectIf (run.finishedAtUnix ≠ some finishedAtUnix)
    s!"agent run {run.id} completion timestamp conflicts with persisted state"
  rejectIf (run.outputDeliveryIds ≠ expected.map (·.id))
    s!"agent run {run.id} completion output ids conflict with persisted state"
  expected.forM (verifyOutput state run)

/-- A replay returns the current records of the outputs, which the verification has found. -/
def completeAgentRun (id : RunId) (messages : List Message) (finishedAtUnix now : U64) :
    Transaction (List OutboundDeliveryRecord × Commit) := do
  let state ← get
  let run ← question <| okOr (state.run id) s!"unknown run id {id}"
  let expected ← question <| outputDeliveries id run.sessionId messages finishedAtUnix
  match run.status with
  | .running =>
    let completed ←
      RuntimeState.completeRunWithOutputDeliveries id expected finishedAtUnix now
    return (completed, .write)
  | .completed =>
    question <| verifyCompletionReplay state run expected finishedAtUnix
    return (run.outputDeliveryIds.filterMap state.outboundDelivery, .confirm)
  | status => throw s!"run {id} cannot complete from {status}"

def requireNondecreasingOutcomeTime (run : RunRecord) (outcomeAtUnix : U64) (action : String) :
    Except String Unit :=
  rejectIf (outcomeAtUnix < run.updatedAtUnix)
    s!"agent run {run.id} cannot {action} before updated_at_unix"

def failAgentRun (id : RunId) (failedAtUnix now : U64) : Transaction (RunRecord × Commit) := do
  let state ← get
  let run ← question <| okOr (state.run id) s!"unknown run id {id}"
  match run.status with
  | .running =>
    question <| requireNondecreasingOutcomeTime run failedAtUnix "fail"
    RuntimeState.failRun id failedAtUnix now
    let failed ← question <| okOr ((← get).run id) "failed run must remain in state"
    return (failed, .write)
  | .failed =>
    if run.startedAtUnix.isSome ∧ run.finishedAtUnix = some failedAtUnix then
      return (run, .confirm)
    else throw s!"agent run {id} failed outcome conflicts with persisted state"
  | status => throw s!"agent run {id} cannot fail from {status}"

def interruptAgentRun (id : RunId) (interruptedAtUnix now : U64) : Transaction (RunRecord × Commit) := do
  let state ← get
  let run ← question <| okOr (state.run id) s!"unknown run id {id}"
  match run.status with
  | .running =>
    question <| requireNondecreasingOutcomeTime run interruptedAtUnix "interrupt"
    RuntimeState.interruptRun id interruptedAtUnix now
    let interrupted ← question <| okOr ((← get).run id) "interrupted run must remain in state"
    return (interrupted, .write)
  | .interrupted =>
    if run.startedAtUnix.isSome ∧ run.updatedAtUnix = interruptedAtUnix then
      return (run, .confirm)
    else throw s!"agent run {id} interrupted outcome conflicts with persisted state"
  | status => throw s!"agent run {id} cannot interrupt from {status}"

/-! ## The file -/

/-- The new content is made durable before it replaces the old one; the replacement itself becomes
durable with the directory. -/
def writeJsonAtomic (io : Io) (state : RuntimeState) : EStateM String Disk Unit :=
  match io.write with
  | .replaced => set (Disk.mk (some state) (some state))
  | .failedBeforeReplace err => throw err
  | .failedAfterReplace err => do
    modify fun disk ↦ { disk with visible := some state }
    throw err

def confirmExistingFileDurable (io : Io) : EStateM String Disk Unit :=
  match io.confirm with
  | some err => throw err
  | none => modify fun disk ↦ { disk with durable := disk.visible }

variable (self : StateStore)

/-- The content of the file, which is checked whenever it is read. -/
def parseStateFile (content : RuntimeState) : Except String RuntimeState :=
  match content.validate with
  | .ok _ => .ok content
  | .error err => .error s!"failed to parse {self.path}: {err}"

/-- Reading the file; there is nothing to read before the first write. -/
def readStateFile (failure : Option String) : EStateM String Disk (Option RuntimeState) := do
  let disk ← get
  match failure, disk.visible with
  | some err, _ => throw s!"failed to read runtime state {self.path}: {err}"
  | none, none => return none
  | none, some content =>
    let state ← question (self.parseStateFile content)
    return some state

def load (io : Io) : EStateM String Disk RuntimeState := do
  let existing ← self.readStateFile io.read
  return existing.getD (.new io.newStateAt)

def loadExistingForMerge (io : Io) : EStateM String Disk (Option RuntimeState) :=
  self.readStateFile io.readForMerge

def writeUnlocked (io : Io) (state : RuntimeState) : EStateM String Disk Unit := do
  question state.validate
  mapErr (fun err ↦ s!"failed to save runtime state {self.path}: {err}")
    (writeJsonAtomic io state)

def saveUnlocked (io : Io) (state : RuntimeState) : EStateM String Disk Unit := do
  let existing ← self.loadExistingForMerge io
  let merged ← question (state.mergeSnapshot existing)
  self.writeUnlocked io merged

def confirmDurable (io : Io) : EStateM String Disk Unit :=
  mapErr (fun err ↦ s!"failed to confirm runtime state {self.path} durability: {err}")
    (confirmExistingFileDurable io)

def commit (io : Io) (state : RuntimeState) : Commit → EStateM String Disk Unit
  | .nothing => pure ()
  | .confirm => self.confirmDurable io
  | .write => self.writeUnlocked io state
  | .save => self.saveUnlocked io state

/-- A method of the store: it loads the state, works on it and commits the result. -/
def transact {α : Type} (io : Io) (transaction : U64 → Transaction (α × Commit)) : EStateM String Disk α := do
  let state ← self.load io
  match transaction io.now state with
  | .error err _ => throw err
  | .ok (reply, commit) state =>
    self.commit io state commit
    return reply

/-- The method that takes a whole snapshot; it does not load a state to work on. -/
def save (io : Io) (state : RuntimeState) : EStateM String Disk Unit :=
  self.saveUnlocked io state

end StateStore

end FerrisBridge
