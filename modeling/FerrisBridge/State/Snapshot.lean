import FerrisBridge.State.Evolution

/-!
# Saving a snapshot

A save does not overwrite the file with the snapshot it is given: four guards refuse what a snapshot
may not introduce, and the snapshot is merged into the state that the file holds. `mergeSnapshot` is
the part of `save_unlocked` between the read and the write; `mergeSnapshot_eq_ok` gives its exact
result for valid states.
-/

open Foundations

namespace FerrisBridge

namespace RuntimeState

/-! ## Guards -/

def validateSnapshotOutboundAdditions (candidate : RuntimeState) (existing : Option RuntimeState) :
    Except String Unit :=
  candidate.outboundDeliveries.forM fun delivery ↦
    let alreadyExists := (existing.bind (·.outboundDelivery delivery.id)).isSome
    rejectIf (alreadyExists = false ∧ delivery.status ≠ .pending)
      (s!"runtime state save cannot introduce outbound delivery {delivery.id} with status " ++
        s!"{delivery.status}; new snapshot deliveries must be pending")

def validateSnapshotRunInputAdditions (candidate : RuntimeState) (existing : Option RuntimeState) :
    Except String Unit :=
  candidate.runInputs.forM fun input ↦
    let alreadyExists := (existing.bind (·.runInput input.runId)).isSome
    rejectIf (alreadyExists = false)
      (s!"runtime state save cannot introduce run input {input.runId}; message batches must be " ++
        "claimed through StateStore::claim_message_batch")

def validateSnapshotRunOutputAdditions (candidate : RuntimeState) (existing : Option RuntimeState) :
    Except String Unit :=
  candidate.runs.forM fun run ↦
    if run.outputDeliveryIds = [] then .ok ()
    else
      let existingOutputIds := (existing.bind (·.run run.id)).map (·.outputDeliveryIds)
      rejectIf (existingOutputIds ≠ some run.outputDeliveryIds)
        ("runtime state save cannot introduce or change output delivery ownership for run " ++
          s!"{run.id}; agent output must be committed through the StateStore agent-run " ++
          "completion transition")

/-- A run with a durable input has a record in a valid state, so the lookup of the existing run
cannot fail; the source panics there. -/
def validateSnapshotAgentRunTransition (existing : RuntimeState) (candidateRun : RunRecord) :
    Except String Unit :=
  if (existing.runInput candidateRun.id).isNone then .ok ()
  else do
    let existingRun ← okOr (existing.run candidateRun.id)
      "validated run input must reference an existing run"
    if candidateRun = existingRun ∨ existingRun.isDescendantOf candidateRun = true then return ()
    rejectIf (candidateRun.status = .running ∨ candidateRun.status = .completed)
      ("runtime state save cannot create a handoff or completion for durable agent run " ++
        s!"{candidateRun.id}; use the StateStore agent-run transition")

def validateSnapshotAgentRunTransitions (candidate : RuntimeState)
    (existing : Option RuntimeState) : Except String Unit :=
  match existing with
  | none => .ok ()
  | some existing => candidate.runs.forM (validateSnapshotAgentRunTransition existing)

/-! ## Merge steps -/

/-- `for record in &merged { self.touch_at(time of the record); }`. -/
def touchEach (times : List U64) (state : RuntimeState) : RuntimeState :=
  times.foldl (fun state time ↦ touchAt time state) state

/-- One iteration of the loop of `validateSharedInboundEventIdentity`. -/
def validateSharedInboundEvent (self existing : RuntimeState) (candidateEvent : InboundEventRecord) :
    Except String Unit :=
  match existing.inboundEvents.find? (·.id = candidateEvent.id) with
  | none => .ok ()
  | some existingEvent => do
    rejectIf (existingEvent ≠ candidateEvent)
      s!"conflicting inbound event record {candidateEvent.id}"
    let conflict := s!"conflicting inbound event queue identity {candidateEvent.id}"
    match existing.messageRecordForEvent candidateEvent.id,
      self.messageRecordForEvent candidateEvent.id with
    | some existingMessage, some candidateMessage =>
      rejectIf (existingMessage.hasSameIdentity candidateMessage = false) conflict
    | none, none => return ()
    | _, _ => throw conflict

def validateSharedInboundEventIdentity (self existing : RuntimeState) : Except String Unit :=
  self.inboundEvents.forM (self.validateSharedInboundEvent existing)

def preserveRunsFrom (existing self : RuntimeState) : Except String RuntimeState := do
  let merged ← mergeEvolving RunRecord.id RunRecord.isDescendantOf
    (fun run ↦ s!"conflicting run record {run.id}") existing.runs self.runs
  return { touchEach (merged.map (·.updatedAtUnix)) self with runs := merged }

def preserveRunInputsFrom (existing self : RuntimeState) : Except String RuntimeState := do
  let merged ← mergeAppendOnly RunInputRecord.runId
    (fun input ↦ s!"conflicting run input record {input.runId}") existing.runInputs self.runInputs
  return { touchEach (merged.map (·.claimedAtUnix)) self with runInputs := merged }

def preserveInboundEventsFrom (existing self : RuntimeState) : Except String RuntimeState := do
  let merged ← mergeAppendOnly InboundEventRecord.id
    (fun event ↦ s!"conflicting inbound event record {event.id}") existing.inboundEvents
    self.inboundEvents
  return { touchEach (merged.map (·.recordedAtUnix)) self with inboundEvents := merged }

def preserveOutboundDeliveriesFrom (existing self : RuntimeState) :
    Except String RuntimeState := do
  let merged ← mergeAppendOnly OutboundDeliveryRecord.id
    (fun delivery ↦ s!"conflicting outbound delivery {delivery.id}") existing.outboundDeliveries
    self.outboundDeliveries
  return { touchEach (merged.map (·.updatedAtUnix)) self with outboundDeliveries := merged }

/-- One iteration of the loop over the existing queue. -/
def preserveExistingQueued (self : RuntimeState) (merged : List QueuedMessage)
    (existingQueued : QueuedMessage) : Except String (List QueuedMessage) :=
  match self.claimedMessageForEvent existingQueued.eventId with
  | some claimed =>
    if claimed.hasSameIdentity existingQueued then .ok merged
    else .error s!"conflicting claimed message event {existingQueued.eventId}"
  | none => .ok (merged ++ [existingQueued])

/-- `last_owned_enqueued_at_by_session`, with one more message of a session. -/
def insertLastOwned (lastOwned : SessionId → Option U64) (sessionId : SessionId)
    (message : QueuedMessage) : SessionId → Option U64 :=
  Function.update lastOwned sessionId (some message.enqueuedAtUnix)

/-- `last_owned_enqueued_at_by_session` before the loop over the candidate queue. -/
def lastOwnedEnqueuedAtBySession (self : RuntimeState) (merged : List QueuedMessage) :
    SessionId → Option U64 :=
  merged.foldl (fun lastOwned queued ↦ insertLastOwned lastOwned queued.sessionId queued)
    (self.runInputs.foldl (fun lastOwned input ↦ input.messages.foldl
      (fun lastOwned message ↦ insertLastOwned lastOwned input.sessionId message) lastOwned)
      fun _ ↦ none)

/-- The accumulators of the loop over the candidate queue. -/
structure QueueMerge where
  merged : List QueuedMessage
  lastOwnedEnqueuedAtBySession : SessionId → Option U64

/-- A candidate message is queued no earlier than the last owned message of its session. -/
def rebaseAfter (lastOwned : SessionId → Option U64) (queued : QueuedMessage) : QueuedMessage :=
  match lastOwned queued.sessionId with
  | some previousEnqueuedAt => queued.rebaseEnqueuedAtUnix previousEnqueuedAt
  | none => queued

/-- One iteration of the loop over the candidate queue. -/
def preserveCandidateQueued (self existing : RuntimeState) (loop : QueueMerge)
    (candidateQueued : QueuedMessage) : Except String QueueMerge :=
  match self.claimedMessageForEvent candidateQueued.eventId with
  | some claimed =>
    if claimed.hasSameIdentity candidateQueued then .ok loop
    else .error s!"conflicting claimed message event {candidateQueued.eventId}"
  | none =>
    match existing.queuedMessages.find? (·.eventId = candidateQueued.eventId) with
    | some existingQueued =>
      if existingQueued.hasSameIdentity candidateQueued then .ok loop
      else .error s!"conflicting queued message event {candidateQueued.eventId}"
    | none =>
      let rebased := rebaseAfter loop.lastOwnedEnqueuedAtBySession candidateQueued
      .ok {
        merged := loop.merged ++ [rebased]
        lastOwnedEnqueuedAtBySession :=
          insertLastOwned loop.lastOwnedEnqueuedAtBySession rebased.sessionId rebased }

def preserveQueuedMessagesFrom (existing self : RuntimeState) : Except String RuntimeState := do
  let kept ← existing.queuedMessages.foldlM self.preserveExistingQueued []
  let loop ← self.queuedMessages.foldlM (self.preserveCandidateQueued existing)
    ⟨kept, self.lastOwnedEnqueuedAtBySession kept⟩
  return { touchEach (loop.merged.map (·.enqueuedAtUnix)) self with
    queuedMessages := loop.merged }

/-- What a save writes, given the state that the file holds, if there is one. -/
def mergeSnapshot (candidate : RuntimeState) (existing : Option RuntimeState) :
    Except String RuntimeState := do
  candidate.validateSnapshotOutboundAdditions existing
  candidate.validateSnapshotRunInputAdditions existing
  candidate.validateSnapshotAgentRunTransitions existing
  candidate.validateSnapshotRunOutputAdditions existing
  match existing with
  | none => return candidate
  | some existing =>
    candidate.validateSharedInboundEventIdentity existing
    let state ← preserveRunsFrom existing candidate
    let state ← preserveRunInputsFrom existing state
    let state ← preserveInboundEventsFrom existing state
    let state ← preserveQueuedMessagesFrom existing state
    preserveOutboundDeliveriesFrom existing state

end RuntimeState

end FerrisBridge
