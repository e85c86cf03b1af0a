import FerrisBridge.State.Model

/-!
# Validity of the runtime state

`validate` is the check that every load and every write of the state makes, with the loops and
accumulators of the source. `Valid` states what it accepts, collection by collection, and
`validate_eq_ok` connects the two.
-/

open Foundations

namespace FerrisBridge

namespace RuntimeState

/-! ## The checks -/

/-- One iteration of the session loop; the accumulator is `session_ids`. -/
def validateSession (self : RuntimeState) (sessionIds : List SessionId) (session : Session) :
    Except String (List SessionId) := do
  session.validate
  rejectIf (session.id ∈ sessionIds) s!"duplicate session id {session.id}"
  rejectIf (self.updatedAtUnix < session.updatedAtUnix)
    s!"runtime state updated_at_unix before session {session.id} updated_at_unix"
  return sessionIds ++ [session.id]

/-- The accumulators of the run loop. -/
structure RunLoop where
  runIds : List RunId
  outputDeliveryOwnerById : List (OutboundDeliveryId × RunId)
  activeRunBySession : List (SessionId × RunId)

/-- One iteration of the loop over the output deliveries of a run. -/
def validateOutputOwner (run : RunRecord) (owners : List (OutboundDeliveryId × RunId))
    (deliveryId : OutboundDeliveryId) : Except String (List (OutboundDeliveryId × RunId)) :=
  match owners.lookup deliveryId with
  | some existingRunId =>
    .error (s!"outbound delivery {deliveryId} is output for multiple runs {existingRunId} " ++
      s!"and {run.id}")
  | none => .ok (owners ++ [(deliveryId, run.id)])

/-- The active run of a session, if the run is not terminal. -/
def validateActiveRun (run : RunRecord) (active : List (SessionId × RunId)) :
    Except String (List (SessionId × RunId)) :=
  if run.isTerminal then .ok active
  else match active.lookup run.sessionId with
    | some existingRunId =>
      .error (s!"session {run.sessionId} has multiple active runs {existingRunId} " ++
        s!"and {run.id}")
    | none => .ok (active ++ [(run.sessionId, run.id)])

/-- One iteration of the run loop. -/
def validateRun (self : RuntimeState) (loop : RunLoop) (run : RunRecord) :
    Except String RunLoop := do
  run.validate
  self.validateRunSession run
  rejectIf (run.id ∈ loop.runIds) s!"duplicate run id {run.id}"
  let outputDeliveryOwnerById ←
    run.outputDeliveryIds.foldlM (validateOutputOwner run) loop.outputDeliveryOwnerById
  let activeRunBySession ← validateActiveRun run loop.activeRunBySession
  rejectIf (self.updatedAtUnix < run.updatedAtUnix)
    s!"runtime state updated_at_unix before run {run.id} updated_at_unix"
  return {
    runIds := loop.runIds ++ [run.id]
    outputDeliveryOwnerById
    activeRunBySession }

/-- One iteration of the ledger loop; the accumulator holds the keys of
`inbound_event_positions`. -/
def validateInboundEvent (self : RuntimeState) (eventIds : List EventId)
    (event : InboundEventRecord) : Except String (List EventId) := do
  event.validate
  rejectIf (event.id ∈ eventIds) s!"duplicate inbound event id {event.id}"
  rejectIf (self.updatedAtUnix < event.recordedAtUnix)
    s!"runtime state updated_at_unix before inbound event {event.id} recorded_at_unix"
  return eventIds ++ [event.id]

/-- One iteration of the delivery loop; the accumulator is `outbound_delivery_ids`. -/
def validateOutboundDelivery (self : RuntimeState) (deliveryIds : List OutboundDeliveryId)
    (delivery : OutboundDeliveryRecord) : Except String (List OutboundDeliveryId) := do
  delivery.validate
  rejectIf (delivery.id ∈ deliveryIds) s!"duplicate outbound delivery id {delivery.id}"
  self.validateOutboundDeliverySession delivery
  rejectIf (self.updatedAtUnix < delivery.updatedAtUnix)
    s!"runtime state updated_at_unix before outbound delivery {delivery.id} updated_at_unix"
  return deliveryIds ++ [delivery.id]

/-- One iteration of the loop over the owned output deliveries. The run was collected before, so
its lookup cannot fail; the source panics there. -/
def validateOutputOwnership (self : RuntimeState) (owner : OutboundDeliveryId × RunId) :
    Except String Unit := do
  let (deliveryId, runId) := owner
  let run ← okOr (self.run runId)
    "run output ownership was collected from a validated run"
  let delivery ← okOr (self.outboundDelivery deliveryId)
    s!"completed run {runId} references missing outbound delivery {deliveryId}"
  rejectIf (delivery.sessionId ≠ run.sessionId)
    (s!"completed run {runId} output delivery {deliveryId} does not match session " ++
      s!"{run.sessionId}")
  rejectIf (delivery.message.author ≠ .agent)
    s!"completed run {runId} output delivery {deliveryId} must be agent-authored"
  rejectIf (some delivery.createdAtUnix ≠ run.finishedAtUnix)
    s!"completed run {runId} output delivery {deliveryId} does not match finished_at_unix"

/-- The ledger position that `inbound_event_positions` maps an event to. -/
def inboundPosition (self : RuntimeState) (id : EventId) : ℕ :=
  (self.inboundEvents.map (·.id)).idxOf id

/-- The accumulators of the first queue loop. -/
structure QueueLoop where
  queuedEventIds : List EventId
  lastQueuedInboundPosition : Option ℕ
  lastQueuedAtBySession : SessionId → Option U64

/-- One iteration of the first queue loop. -/
def validateQueuedMessage (self : RuntimeState) (loop : QueueLoop) (queued : QueuedMessage) :
    Except String QueueLoop := do
  queued.validate
  rejectIf (queued.eventId ∈ loop.queuedEventIds)
    s!"duplicate queued inbound event id {queued.eventId}"
  let inboundEvent ← okOr (self.inboundEvent queued.eventId)
    s!"queued message event {queued.eventId} has no inbound event record"
  let inboundPosition := self.inboundPosition queued.eventId
  rejectIf (loop.lastQueuedInboundPosition.any (inboundPosition ≤ ·))
    s!"queued message event {queued.eventId} is out of inbound ledger order"
  rejectIf (queued.receivedAtUnix ≠ inboundEvent.receivedAtUnix)
    s!"queued message event {queued.eventId} does not match inbound event received_at_unix"
  rejectIf (queued.enqueuedAtUnix < inboundEvent.recordedAtUnix)
    (s!"queued message event {queued.eventId} has enqueued_at_unix before inbound event " ++
      "recorded_at_unix")
  rejectIf (self.session queued.sessionId).isNone
    s!"queued message event {queued.eventId} references unknown session {queued.sessionId}"
  rejectIf ((loop.lastQueuedAtBySession queued.sessionId).any (queued.enqueuedAtUnix < ·))
    s!"queued messages for session {queued.sessionId} are not ordered by enqueued_at_unix"
  rejectIf (self.updatedAtUnix < queued.enqueuedAtUnix)
    (s!"runtime state updated_at_unix before queued message event {queued.eventId} " ++
      "enqueued_at_unix")
  return {
    queuedEventIds := loop.queuedEventIds ++ [queued.eventId]
    lastQueuedInboundPosition := some inboundPosition
    lastQueuedAtBySession :=
      Function.update loop.lastQueuedAtBySession queued.sessionId (some queued.enqueuedAtUnix) }

/-- The accumulators shared by the run input loop and the second queue loop. -/
structure OwnerLoop where
  runInputIds : List RunId
  claimedEventIds : List EventId
  lastOwnedEnqueuedAtBySession : SessionId → Option U64
  lastOwnedInboundPositionBySession : SessionId → Option ℕ

/-- Both last-owned maps take the message over. -/
def OwnerLoop.own (loop : OwnerLoop) (sessionId : SessionId) (message : QueuedMessage)
    (inboundPosition : ℕ) : OwnerLoop :=
  { loop with
    lastOwnedEnqueuedAtBySession :=
      Function.update loop.lastOwnedEnqueuedAtBySession sessionId (some message.enqueuedAtUnix)
    lastOwnedInboundPositionBySession :=
      Function.update loop.lastOwnedInboundPositionBySession sessionId (some inboundPosition) }

/-- One iteration of the message loop of a run input. -/
def validateClaimedMessage (self : RuntimeState) (input : RunInputRecord) (loop : OwnerLoop)
    (message : QueuedMessage) : Except String OwnerLoop := do
  rejectIf (message.eventId ∈ self.queuedMessages.map (·.eventId))
    s!"run input {input.runId} event {message.eventId} is still present in the message queue"
  rejectIf (message.eventId ∈ loop.claimedEventIds)
    s!"queued message event {message.eventId} is claimed by multiple runs"
  let inboundEvent ← okOr (self.inboundEvent message.eventId)
    s!"run input {input.runId} message event {message.eventId} has no inbound event record"
  let inboundPosition := self.inboundPosition message.eventId
  rejectIf (message.receivedAtUnix ≠ inboundEvent.receivedAtUnix)
    (s!"run input {input.runId} message event {message.eventId} does not match inbound event " ++
      "received_at_unix")
  rejectIf (message.enqueuedAtUnix < inboundEvent.recordedAtUnix)
    (s!"run input {input.runId} message event {message.eventId} was enqueued before its inbound " ++
      "event record")
  rejectIf ((loop.lastOwnedEnqueuedAtBySession input.sessionId).any (message.enqueuedAtUnix < ·))
    (s!"run input {input.runId} message event {message.eventId} is out of session enqueue " ++
      "order")
  rejectIf ((loop.lastOwnedInboundPositionBySession input.sessionId).any (inboundPosition ≤ ·))
    (s!"run input {input.runId} message event {message.eventId} is out of session ownership " ++
      "order")
  return { loop with claimedEventIds := loop.claimedEventIds ++ [message.eventId] }.own
    input.sessionId message inboundPosition

/-- One iteration of the run input loop. -/
def validateRunInput (self : RuntimeState) (loop : OwnerLoop) (input : RunInputRecord) :
    Except String OwnerLoop := do
  input.validate
  rejectIf (input.runId ∈ loop.runInputIds) s!"duplicate run input id {input.runId}"
  let run ← okOr (self.run input.runId) s!"run input {input.runId} references unknown run"
  rejectIf (run.sessionId ≠ input.sessionId)
    s!"run input {input.runId} does not match run session {run.sessionId}"
  rejectIf (run.createdAtUnix ≠ input.claimedAtUnix)
    s!"run input {input.runId} claimed_at_unix does not match run created_at_unix"
  let loop ← input.messages.foldlM (self.validateClaimedMessage input)
    { loop with runInputIds := loop.runInputIds ++ [input.runId] }
  rejectIf (self.updatedAtUnix < input.claimedAtUnix)
    s!"runtime state updated_at_unix before run input {input.runId} claimed_at_unix"
  return loop

/-- One iteration of the second queue loop. -/
def validateQueuedAfterClaims (self : RuntimeState) (loop : OwnerLoop) (queued : QueuedMessage) :
    Except String OwnerLoop := do
  rejectIf ((loop.lastOwnedEnqueuedAtBySession queued.sessionId).any (queued.enqueuedAtUnix < ·))
    (s!"queued message event {queued.eventId} is before already claimed enqueue time for " ++
      s!"session {queued.sessionId}")
  let inboundPosition := self.inboundPosition queued.eventId
  rejectIf ((loop.lastOwnedInboundPositionBySession queued.sessionId).any (inboundPosition ≤ ·))
    (s!"queued message event {queued.eventId} is before already claimed work for session " ++
      s!"{queued.sessionId}")
  return loop.own queued.sessionId queued inboundPosition

/-- The owned output deliveries are visited in the order of their ids. -/
def validate (self : RuntimeState) : Except String Unit := do
  let _ ← self.sessions.foldlM self.validateSession []
  let runLoop ← self.runs.foldlM self.validateRun ⟨[], [], []⟩
  let _ ← self.inboundEvents.foldlM self.validateInboundEvent []
  let _ ← self.outboundDeliveries.foldlM self.validateOutboundDelivery []
  (runLoop.outputDeliveryOwnerById.insertionSort (·.1 ≤ ·.1)).forM self.validateOutputOwnership
  let _ ← self.queuedMessages.foldlM self.validateQueuedMessage ⟨[], none, fun _ ↦ none⟩
  let ownerLoop ← self.runInputs.foldlM self.validateRunInput
    ⟨[], [], fun _ ↦ none, fun _ ↦ none⟩
  let _ ← self.queuedMessages.foldlM self.validateQueuedAfterClaims ownerLoop

/-! ## What the check accepts -/

/-- All messages of a state: those claimed by run inputs, then those in the queue. -/
def ownedMessages (self : RuntimeState) : List QueuedMessage :=
  self.claimedMessages ++ self.queuedMessages

/-- The messages of a session, claimed and then queued. -/
def ownedOf (self : RuntimeState) (id : SessionId) : List QueuedMessage :=
  self.ownedMessages.filter (·.sessionId = id)

/-- The event of a message is in the ledger, with the same receive time and no later. -/
def Recorded (self : RuntimeState) (message : QueuedMessage) : Prop :=
  ∃ event, self.inboundEvent message.eventId = some event ∧
    message.receivedAtUnix = event.receivedAtUnix ∧ event.recordedAtUnix ≤ message.enqueuedAtUnix

/-- The claim of an input is the creation of its run. -/
def Claimed (self : RuntimeState) (input : RunInputRecord) : Prop :=
  ∃ run, self.run input.runId = some run ∧ run.sessionId = input.sessionId ∧
    run.createdAtUnix = input.claimedAtUnix

/-- An output of a run is a delivery of its session, created when the run finished. -/
def Delivers (self : RuntimeState) (run : RunRecord) (id : OutboundDeliveryId) : Prop :=
  ∃ delivery, self.outboundDelivery id = some delivery ∧ delivery.sessionId = run.sessionId ∧
    delivery.message.author = .agent ∧ some delivery.createdAtUnix = run.finishedAtUnix

/-- The times the aggregate timestamp must not precede. -/
def recordTimes (self : RuntimeState) : List U64 :=
  self.sessions.map (·.updatedAtUnix) ++ self.runs.map (·.updatedAtUnix) ++
    self.runInputs.map (·.claimedAtUnix) ++ self.inboundEvents.map (·.recordedAtUnix) ++
    self.outboundDeliveries.map (·.updatedAtUnix) ++ self.queuedMessages.map (·.enqueuedAtUnix)

/-- Not both runs are active in one session. -/
def NotBothActive (first second : RunRecord) : Prop :=
  first.isTerminal = false → second.isTerminal = false → first.sessionId ≠ second.sessionId

/-- What `validate` accepts, apart from the aggregate timestamp. -/
structure Consistent (state : RuntimeState) : Prop where
  sessions : ∀ session ∈ state.sessions, session.Valid
  session_ids : (state.sessions.map (·.id)).Nodup
  runs : ∀ run ∈ state.runs, run.Valid
  run_sessions : ∀ run ∈ state.runs, run.sessionId ∈ state.sessions.map (·.id)
  run_ids : (state.runs.map (·.id)).Nodup
  output_ids : (state.runs.flatMap (·.outputDeliveryIds)).Nodup
  active : state.runs.Pairwise NotBothActive
  events : ∀ event ∈ state.inboundEvents, event.Valid
  event_ids : (state.inboundEvents.map (·.id)).Nodup
  deliveries : ∀ delivery ∈ state.outboundDeliveries, delivery.Valid
  delivery_ids : (state.outboundDeliveries.map (·.id)).Nodup
  delivery_sessions :
    ∀ delivery ∈ state.outboundDeliveries, delivery.sessionId ∈ state.sessions.map (·.id)
  outputs : ∀ run ∈ state.runs, ∀ id ∈ run.outputDeliveryIds, state.Delivers run id
  queued : ∀ queued ∈ state.queuedMessages, queued.Valid
  queued_ledger :
    (state.queuedMessages.map (·.eventId)).Sublist (state.inboundEvents.map (·.id))
  queued_sessions : ∀ queued ∈ state.queuedMessages, queued.sessionId ∈ state.sessions.map (·.id)
  inputs : ∀ input ∈ state.runInputs, input.Valid
  input_ids : (state.runInputs.map (·.runId)).Nodup
  input_runs : ∀ input ∈ state.runInputs, state.Claimed input
  recorded : ∀ message ∈ state.ownedMessages, state.Recorded message
  owned_ids : (state.ownedMessages.map (·.eventId)).Nodup
  owned_ledger :
    ∀ id, ((state.ownedOf id).map (·.eventId)).Sublist (state.inboundEvents.map (·.id))
  owned_ordered : ∀ id, (state.ownedOf id).Pairwise fun first second ↦
    first.enqueuedAtUnix ≤ second.enqueuedAtUnix

/-- What `validate` accepts. -/
structure Valid (state : RuntimeState) : Prop extends state.Consistent where
  updated : ∀ time ∈ state.recordTimes, time ≤ state.updatedAtUnix

variable {self : RuntimeState}

theorem session_isSome {id : SessionId} :
    (self.session id).isSome ↔ id ∈ self.sessions.map (·.id) := find_key_isSome

theorem session_isNone {id : SessionId} :
    (self.session id).isNone ↔ id ∉ self.sessions.map (·.id) := by
  rw [← session_isSome]
  simp

theorem validateRunSession_eq_ok {run : RunRecord} {u : Unit} :
    self.validateRunSession run = .ok u ↔ run.sessionId ∈ self.sessions.map (·.id) := by
  rw [validateRunSession, rejectIf_eq_ok, session_isNone, not_not]

theorem validateOutboundDeliverySession_eq_ok {delivery : OutboundDeliveryRecord} {u : Unit} :
    self.validateOutboundDeliverySession delivery = .ok u ↔
      delivery.sessionId ∈ self.sessions.map (·.id) := by
  rw [validateOutboundDeliverySession, rejectIf_eq_ok, session_isNone, not_not]

theorem validateSessions_eq_ok {ids : List SessionId} :
    self.sessions.foldlM self.validateSession [] = .ok ids ↔
      ((∀ session ∈ self.sessions, session.Valid) ∧ (self.sessions.map (·.id)).Nodup ∧
        ∀ session ∈ self.sessions, session.updatedAtUnix ≤ self.updatedAtUnix) ∧
      self.sessions.map (·.id) = ids := by
  refine (foldlM_eq_ok_iff (fun done : List Session ↦ done.map (·.id))
    (fun done session ↦ session.Valid ∧ session.id ∉ done.map (·.id) ∧
      session.updatedAtUnix ≤ self.updatedAtUnix)
    (fun done session _ ids' ↦ ?_) ids).trans (and_congr_left' ?_)
  · simp only [validateSession, except_bind_unit_eq_ok, Session.validate_eq_ok, rejectIf_eq_ok,
      except_pure_eq_ok, not_lt, List.map_append, List.map_cons, List.map_nil, and_assoc]
  · rw [EachAfter.and, EachAfter.and, EachAfter.const, EachAfter.const, EachAfter.nodup]

/-- The entries that the outputs of a run add to the owner map. -/
def outputOwners (run : RunRecord) : List (OutboundDeliveryId × RunId) :=
  run.outputDeliveryIds.map (·, run.id)

theorem validateOutputOwners_eq_ok {run : RunRecord} {ids : List OutboundDeliveryId}
    {owners owners' : List (OutboundDeliveryId × RunId)} :
    ids.foldlM (validateOutputOwner run) owners = .ok owners' ↔
      EachAfter (fun seen id ↦ id ∉ seen) (owners.map (·.1)) ids ∧
        owners ++ ids.map (·, run.id) = owners' := by
  rw [← EachAfter.shift]
  conv_lhs => rw [← List.append_nil owners]
  refine foldlM_eq_ok_iff
    (fun visited : List OutboundDeliveryId ↦ owners ++ visited.map (·, run.id))
    (fun visited id ↦ id ∉ owners.map (·.1) ++ visited) (fun visited id _ owners'' ↦ ?_) _
  have hfst : (owners ++ visited.map (·, run.id)).map (·.1) = owners.map (·.1) ++ visited := by
    simp [Function.comp_def]
  rw [← hfst, validateOutputOwner]
  cases hlookup : (owners ++ visited.map (·, run.id)).lookup id with
  | none =>
    have hnotMem := lookup_eq_none_iff_notMem.mp hlookup
    rw [hfst] at hnotMem ⊢
    simp only [hnotMem, not_false_eq_true, true_and, Except.ok.injEq, List.map_append,
      List.map_cons, List.map_nil, List.append_assoc]
  | some existing =>
    have hmem : id ∈ (owners ++ visited.map (·, run.id)).map (·.1) := by
      by_contra hnotMem
      simp [lookup_eq_none_iff_notMem.mpr hnotMem] at hlookup
    simp only [hmem, not_true_eq_false, false_and, iff_false]
    exact nofun

/-- The active runs seen so far, by session. -/
def activeRuns (runs : List RunRecord) : List (SessionId × RunId) :=
  (runs.filter (·.isTerminal = false)).map fun run ↦ (run.sessionId, run.id)

theorem validateActiveRun_eq_ok {done : List RunRecord} {run : RunRecord}
    {active : List (SessionId × RunId)} :
    validateActiveRun run (activeRuns done) = .ok active ↔
      (∀ other ∈ done, NotBothActive other run) ∧ activeRuns (done ++ [run]) = active := by
  unfold validateActiveRun
  by_cases hrun : run.isTerminal = true
  · simp [hrun, activeRuns, List.filter_append, NotBothActive]
  · have hactive : activeRuns (done ++ [run]) = activeRuns done ++ [(run.sessionId, run.id)] := by
      simp [activeRuns, List.filter_append, hrun]
    have hnone : (activeRuns done).lookup run.sessionId = none ↔
        ∀ other ∈ done, NotBothActive other run := by
      rw [lookup_eq_none_iff_notMem]
      simp [activeRuns, NotBothActive, hrun]
    rw [hactive, ← hnone]
    cases hlookup : (activeRuns done).lookup run.sessionId <;> simp [hrun]

theorem validateRuns_eq_ok {loop : RunLoop} :
    self.runs.foldlM self.validateRun ⟨[], [], []⟩ = .ok loop ↔
      ((∀ run ∈ self.runs, run.Valid) ∧
        (∀ run ∈ self.runs, run.sessionId ∈ self.sessions.map (·.id)) ∧
        (self.runs.map (·.id)).Nodup ∧ (self.runs.flatMap (·.outputDeliveryIds)).Nodup ∧
        self.runs.Pairwise NotBothActive ∧
        ∀ run ∈ self.runs, run.updatedAtUnix ≤ self.updatedAtUnix) ∧
      ⟨self.runs.map (·.id), self.runs.flatMap outputOwners, activeRuns self.runs⟩ = loop := by
  refine (foldlM_eq_ok_iff
    (fun done : List RunRecord ↦
      ⟨done.map (·.id), done.flatMap outputOwners, activeRuns done⟩)
    (fun done run ↦ run.Valid ∧ run.sessionId ∈ self.sessions.map (·.id) ∧
      run.id ∉ done.map (·.id) ∧
      EachAfter (fun seen id ↦ id ∉ seen) (done.flatMap (·.outputDeliveryIds))
        run.outputDeliveryIds ∧
      (∀ other ∈ done, NotBothActive other run) ∧ run.updatedAtUnix ≤ self.updatedAtUnix)
    (fun done run _ loop' ↦ ?_) loop).trans (and_congr_left' ?_)
  · have hfst : (done.flatMap outputOwners).map (·.1) = done.flatMap (·.outputDeliveryIds) := by
      simp [outputOwners, List.map_flatMap, Function.comp_def]
    simp only [validateRun, except_bind_eq_ok, RunRecord.validate_eq_ok, validateRunSession_eq_ok,
      rejectIf_eq_ok, validateOutputOwners_eq_ok, hfst, validateActiveRun_eq_ok,
      except_pure_eq_ok, not_lt]
    constructor
    · rintro ⟨_, hvalid, _, hsession, _, hid, _, ⟨houtputs, rfl⟩, _, ⟨hactive, rfl⟩, _, hupdated,
        rfl⟩
      exact ⟨⟨hvalid, hsession, hid, houtputs, hactive, hupdated⟩, by simp [outputOwners]⟩
    · rintro ⟨⟨hvalid, hsession, hid, houtputs, hactive, hupdated⟩, rfl⟩
      exact ⟨(), hvalid, (), hsession, (), hid, _, ⟨houtputs, rfl⟩, _, ⟨hactive, rfl⟩, (), hupdated,
        by simp [outputOwners]⟩
  · rw [EachAfter.and, EachAfter.and, EachAfter.and, EachAfter.and, EachAfter.and,
      EachAfter.const, EachAfter.const, EachAfter.const, EachAfter.nodup, EachAfter.pairwise]
    have := EachAfter.flatMap (fun seen (id : OutboundDeliveryId) ↦ id ∉ seen)
      (fun run : RunRecord ↦ run.outputDeliveryIds) [] self.runs
    rw [this, List.flatMap_nil, EachAfter.nodup_self]

theorem validateInboundEvents_eq_ok {ids : List EventId} :
    self.inboundEvents.foldlM self.validateInboundEvent [] = .ok ids ↔
      ((∀ event ∈ self.inboundEvents, event.Valid) ∧ (self.inboundEvents.map (·.id)).Nodup ∧
        ∀ event ∈ self.inboundEvents, event.recordedAtUnix ≤ self.updatedAtUnix) ∧
      self.inboundEvents.map (·.id) = ids := by
  refine (foldlM_eq_ok_iff
    (fun done : List InboundEventRecord ↦ done.map (·.id))
    (fun done event ↦ event.Valid ∧ event.id ∉ done.map (·.id) ∧
      event.recordedAtUnix ≤ self.updatedAtUnix)
    (fun done event _ ids' ↦ ?_) ids).trans (and_congr_left' ?_)
  · simp only [validateInboundEvent, except_bind_unit_eq_ok, InboundEventRecord.validate_eq_ok,
      rejectIf_eq_ok, except_pure_eq_ok, not_lt, List.map_append, List.map_cons, List.map_nil,
      and_assoc]
  · rw [EachAfter.and, EachAfter.and, EachAfter.const, EachAfter.const, EachAfter.nodup]

theorem validateOutboundDeliveries_eq_ok {ids : List OutboundDeliveryId} :
    self.outboundDeliveries.foldlM self.validateOutboundDelivery [] = .ok ids ↔
      ((∀ delivery ∈ self.outboundDeliveries, delivery.Valid) ∧
        (self.outboundDeliveries.map (·.id)).Nodup ∧
        (∀ delivery ∈ self.outboundDeliveries,
          delivery.sessionId ∈ self.sessions.map (·.id)) ∧
        ∀ delivery ∈ self.outboundDeliveries, delivery.updatedAtUnix ≤ self.updatedAtUnix) ∧
      self.outboundDeliveries.map (·.id) = ids := by
  refine (foldlM_eq_ok_iff
    (fun done : List OutboundDeliveryRecord ↦ done.map (·.id))
    (fun done delivery ↦ delivery.Valid ∧ delivery.id ∉ done.map (·.id) ∧
      delivery.sessionId ∈ self.sessions.map (·.id) ∧
      delivery.updatedAtUnix ≤ self.updatedAtUnix)
    (fun done delivery _ ids' ↦ ?_) ids).trans (and_congr_left' ?_)
  · simp only [validateOutboundDelivery, except_bind_unit_eq_ok,
      OutboundDeliveryRecord.validate_eq_ok, validateOutboundDeliverySession_eq_ok,
      rejectIf_eq_ok, except_pure_eq_ok, not_lt, List.map_append, List.map_cons, List.map_nil,
      and_assoc]
  · rw [EachAfter.and, EachAfter.and, EachAfter.and, EachAfter.const, EachAfter.const,
      EachAfter.const, EachAfter.nodup]

theorem validateOutputOwnership_eq_ok {run : RunRecord} {id : OutboundDeliveryId} {u : Unit}
    (hrun : self.run run.id = some run) :
    self.validateOutputOwnership (id, run.id) = .ok u ↔ self.Delivers run id := by
  simp only [validateOutputOwnership, except_bind_eq_ok, okOr_eq_ok, hrun, Option.some.injEq,
    rejectIf_eq_ok, not_not, Delivers]
  constructor
  · rintro ⟨_, rfl, delivery, hdelivery, _, hsession, _, hauthor, hcreated⟩
    exact ⟨delivery, hdelivery, hsession, hauthor, hcreated⟩
  · rintro ⟨delivery, hdelivery, hsession, hauthor, hcreated⟩
    exact ⟨_, rfl, delivery, hdelivery, (), hsession, (), hauthor, hcreated⟩

theorem validateOutputOwnerships_eq_ok {u : Unit} (hids : (self.runs.map (·.id)).Nodup) :
    ((self.runs.flatMap outputOwners).insertionSort (·.1 ≤ ·.1)).forM
        self.validateOutputOwnership = .ok u ↔
      ∀ run ∈ self.runs, ∀ id ∈ run.outputDeliveryIds, self.Delivers run id := by
  simp only [forM_eq_ok_iff, List.mem_insertionSort, List.mem_flatMap, outputOwners, List.mem_map]
  constructor
  · intro h run hrun id hid
    exact (validateOutputOwnership_eq_ok (find_key_of_mem hids hrun)).mp
      (h _ ⟨run, hrun, id, hid, rfl⟩)
  · rintro h _ ⟨run, hrun, id, hid, rfl⟩
    exact (validateOutputOwnership_eq_ok (find_key_of_mem hids hrun)).mpr (h run hrun id hid)

/-! ## Ledger order and enqueue order -/

/-- The map of a loop, updated with an element, holds the last element of every group. -/
theorem update_lastOf {β : Type} {f : QueuedMessage → β} {message : QueuedMessage}
    {done : List QueuedMessage} :
    Function.update (fun id ↦ (lastOf (·.sessionId) id done).map f) message.sessionId
        (some (f message)) =
      fun id ↦ (lastOf (·.sessionId) id (done ++ [message])).map f := by
  funext id
  rw [lastOf_concat, Function.update_apply]
  rcases eq_or_ne id message.sessionId with rfl | h
  · simp
  · simp [h, h.symm]

theorem validateQueuedMessages_eq_ok {loop : QueueLoop} :
    self.queuedMessages.foldlM self.validateQueuedMessage ⟨[], none, fun _ ↦ none⟩ = .ok loop ↔
      ((∀ queued ∈ self.queuedMessages, queued.Valid) ∧
        (self.queuedMessages.map (·.eventId)).Nodup ∧
        (∀ queued ∈ self.queuedMessages, self.Recorded queued) ∧
        self.queuedMessages.Pairwise (fun first second ↦
          self.inboundPosition first.eventId < self.inboundPosition second.eventId) ∧
        (∀ queued ∈ self.queuedMessages, queued.sessionId ∈ self.sessions.map (·.id)) ∧
        (self.queuedMessages.Pairwise fun first second ↦ first.sessionId = second.sessionId →
          first.enqueuedAtUnix ≤ second.enqueuedAtUnix) ∧
        ∀ queued ∈ self.queuedMessages, queued.enqueuedAtUnix ≤ self.updatedAtUnix) ∧
      ⟨self.queuedMessages.map (·.eventId),
        self.queuedMessages.getLast?.map (self.inboundPosition ·.eventId),
        fun id ↦ (lastOf (·.sessionId) id self.queuedMessages).map (·.enqueuedAtUnix)⟩ = loop := by
  refine (foldlM_eq_ok_iff
    (fun done : List QueuedMessage ↦ ⟨done.map (·.eventId),
      done.getLast?.map (self.inboundPosition ·.eventId),
      fun id ↦ (lastOf (·.sessionId) id done).map (·.enqueuedAtUnix)⟩)
    (fun done queued ↦ queued.Valid ∧ queued.eventId ∉ done.map (·.eventId) ∧
      self.Recorded queued ∧
      (∀ last, done.getLast? = some last →
        self.inboundPosition last.eventId < self.inboundPosition queued.eventId) ∧
      queued.sessionId ∈ self.sessions.map (·.id) ∧
      (∀ last, lastOf (·.sessionId) queued.sessionId done = some last →
        last.enqueuedAtUnix ≤ queued.enqueuedAtUnix) ∧
      queued.enqueuedAtUnix ≤ self.updatedAtUnix)
    (fun done queued _ loop' ↦ ?_) loop).trans (and_congr_left' ?_)
  · simp only [validateQueuedMessage, except_bind_eq_ok, QueuedMessage.validate_eq_ok,
      rejectIf_eq_ok, okOr_eq_ok, session_isNone, not_not, not_lt, Bool.not_eq_true,
      decide_eq_false_iff_not, except_pure_eq_ok, update_lastOf,
      Option.any_eq_false, Option.map_eq_some_iff, forall_exists_index, and_imp,
      forall_apply_eq_imp_iff₂, not_le, Recorded, List.map_append, List.map_cons, List.map_nil,
      List.getLast?_append_cons, List.getLast?_singleton, Option.map_some]
    constructor
    · rintro ⟨_, hvalid, _, hid, event, hevent, _, hposition, _, hreceived, _, hrecorded,
        _, hsession, _, hlast, _, hupdated, rfl⟩
      exact ⟨⟨hvalid, hid, ⟨event, hevent, hreceived, hrecorded⟩, hposition, hsession, hlast,
        hupdated⟩, rfl⟩
    · rintro ⟨⟨hvalid, hid, ⟨event, hevent, hreceived, hrecorded⟩, hposition, hsession, hlast,
        hupdated⟩, rfl⟩
      exact ⟨(), hvalid, (), hid, event, hevent, (), hposition, (), hreceived, (), hrecorded,
        (), hsession, (), hlast, (), hupdated, rfl⟩
  · rw [EachAfter.and, EachAfter.and, EachAfter.and, EachAfter.and, EachAfter.and,
      EachAfter.and, EachAfter.const, EachAfter.const, EachAfter.const, EachAfter.const,
      EachAfter.nodup]
    rw [EachAfter.getLast_iff (R := fun first second : QueuedMessage ↦
        self.inboundPosition first.eventId < self.inboundPosition second.eventId)
        fun _ _ _ ↦ lt_trans,
      EachAfter.lastOf_iff (R := fun first second : QueuedMessage ↦
        first.enqueuedAtUnix ≤ second.enqueuedAtUnix) fun _ _ _ ↦ le_trans]

/-- One message follows another in the order of its session. -/
def FollowsInSession (self : RuntimeState) (first second : QueuedMessage) : Prop :=
  first.enqueuedAtUnix ≤ second.enqueuedAtUnix ∧
    self.inboundPosition first.eventId < self.inboundPosition second.eventId

/-- The accumulators after the inputs `inputs`, with the messages claimed and owned so far. -/
def ownerLoop (self : RuntimeState) (inputs : List RunInputRecord)
    (claimed owned : List QueuedMessage) : OwnerLoop where
  runInputIds := inputs.map (·.runId)
  claimedEventIds := claimed.map (·.eventId)
  lastOwnedEnqueuedAtBySession id := (lastOf (·.sessionId) id owned).map (·.enqueuedAtUnix)
  lastOwnedInboundPositionBySession id :=
    (lastOf (·.sessionId) id owned).map (self.inboundPosition ·.eventId)

theorem own_ownerLoop (self : RuntimeState) (inputs : List RunInputRecord) (claimed owned : List QueuedMessage)
    (message : QueuedMessage) :
    (self.ownerLoop inputs claimed owned).own message.sessionId message
        (self.inboundPosition message.eventId) =
      self.ownerLoop inputs claimed (owned ++ [message]) := by
  simp only [OwnerLoop.own, ownerLoop, update_lastOf]

theorem ownerLoop_any_eq_false (self : RuntimeState) (inputs : List RunInputRecord)
    (claimed owned : List QueuedMessage) (id : SessionId) (message : QueuedMessage) :
    ((self.ownerLoop inputs claimed owned).lastOwnedEnqueuedAtBySession id).any
          (message.enqueuedAtUnix < ·) = false ∧
        ((self.ownerLoop inputs claimed owned).lastOwnedInboundPositionBySession id).any
          (self.inboundPosition message.eventId ≤ ·) = false ↔
      ∀ last, lastOf (·.sessionId) id owned = some last → self.FollowsInSession last message := by
  simp only [ownerLoop, Option.any_eq_false, Option.map_eq_some_iff, forall_exists_index, and_imp,
    forall_apply_eq_imp_iff₂, decide_eq_false_iff_not, not_lt, not_le, FollowsInSession]
  exact ⟨fun h last hlast ↦ ⟨h.1 last hlast, h.2 last hlast⟩,
    fun h ↦ ⟨fun last hlast ↦ (h last hlast).1, fun last hlast ↦ (h last hlast).2⟩⟩

/-- What the message loop of an input checks of one message, after the messages `done`. -/
def ClaimedInOrder (self : RuntimeState) (done : List QueuedMessage) (message : QueuedMessage) :
    Prop :=
  message.eventId ∉ self.queuedMessages.map (·.eventId) ∧
    message.eventId ∉ done.map (·.eventId) ∧ self.Recorded message ∧
    ∀ last, lastOf (·.sessionId) message.sessionId done = some last →
      self.FollowsInSession last message

theorem validateClaimedMessages_eq_ok {input : RunInputRecord} {inputs : List RunInputRecord}
    {done : List QueuedMessage} {loop : OwnerLoop} (hinput : input.Valid) :
    input.messages.foldlM (self.validateClaimedMessage input) (self.ownerLoop inputs done done) =
        .ok loop ↔
      EachAfter self.ClaimedInOrder done input.messages ∧
        self.ownerLoop inputs (done ++ input.messages) (done ++ input.messages) = loop := by
  rw [← EachAfter.shift]
  conv_lhs => rw [← List.append_nil done]
  refine foldlM_eq_ok_iff
    (fun visited ↦ self.ownerLoop inputs (done ++ visited) (done ++ visited))
    (fun visited message ↦ self.ClaimedInOrder (done ++ visited) message)
    (fun visited message hvisited loop' ↦ ?_) _
  have hmem : message ∈ input.messages := hvisited.subset (by simp)
  have hown := self.own_ownerLoop inputs (done ++ visited ++ [message])
    (done ++ visited) message
  rw [hinput.messages_session message hmem] at hown
  have horder := self.ownerLoop_any_eq_false inputs (done ++ visited) (done ++ visited)
    input.sessionId message
  simp only [validateClaimedMessage, except_bind_eq_ok, rejectIf_eq_ok, okOr_eq_ok, not_not, not_lt,
    Bool.not_eq_true, except_pure_eq_ok, ClaimedInOrder, Recorded,
    hinput.messages_session message hmem, ← horder]
  constructor
  · rintro ⟨_, hqueued, _, hclaimed, event, hevent, _, hreceived, _, hrecorded, _, henqueued,
      _, hposition, rfl⟩
    exact ⟨⟨hqueued, hclaimed, ⟨event, hevent, hreceived, hrecorded⟩, henqueued, hposition⟩,
      by simpa [ownerLoop, OwnerLoop.own] using hown.symm⟩
  · rintro ⟨⟨hqueued, hclaimed, ⟨event, hevent, hreceived, hrecorded⟩, henqueued, hposition⟩, rfl⟩
    exact ⟨(), hqueued, (), hclaimed, event, hevent, (), hreceived, (), hrecorded, (), henqueued,
      (), hposition, by simpa [ownerLoop, OwnerLoop.own] using hown⟩

theorem validateRunInputs_eq_ok {loop : OwnerLoop} :
    self.runInputs.foldlM self.validateRunInput ⟨[], [], fun _ ↦ none, fun _ ↦ none⟩ = .ok loop ↔
      ((∀ input ∈ self.runInputs, input.Valid) ∧ (self.runInputs.map (·.runId)).Nodup ∧
        (∀ input ∈ self.runInputs, self.Claimed input) ∧
        EachAfter self.ClaimedInOrder [] self.claimedMessages ∧
        ∀ input ∈ self.runInputs, input.claimedAtUnix ≤ self.updatedAtUnix) ∧
      self.ownerLoop self.runInputs self.claimedMessages self.claimedMessages = loop := by
  refine (foldlM_eq_ok_iff
    (fun done : List RunInputRecord ↦
      self.ownerLoop done (done.flatMap (·.messages)) (done.flatMap (·.messages)))
    (fun done input ↦ input.Valid ∧ input.runId ∉ done.map (·.runId) ∧
      self.Claimed input ∧
      EachAfter self.ClaimedInOrder (done.flatMap (·.messages)) input.messages ∧
      input.claimedAtUnix ≤ self.updatedAtUnix)
    (fun done input _ loop' ↦ ?_) loop).trans (and_congr_left' ?_)
  · rw [validateRunInput, except_bind_unit_eq_ok, RunInputRecord.validate_eq_ok, and_assoc]
    refine and_congr_right fun hinput ↦ ?_
    have hloop : ({ self.ownerLoop done (done.flatMap (·.messages))
        (done.flatMap (·.messages)) with runInputIds := done.map (·.runId) ++ [input.runId] } :
          OwnerLoop) = self.ownerLoop (done ++ [input]) (done.flatMap (·.messages))
            (done.flatMap (·.messages)) := by
      simp [ownerLoop]
    have hids : (self.ownerLoop done (done.flatMap (·.messages))
        (done.flatMap (·.messages))).runInputIds = done.map (·.runId) := rfl
    simp only [except_bind_eq_ok, rejectIf_eq_ok, okOr_eq_ok, not_not, not_lt, except_pure_eq_ok,
      hids, hloop, validateClaimedMessages_eq_ok hinput, Claimed, List.flatMap_append,
      List.flatMap_cons, List.flatMap_nil, List.append_nil]
    constructor
    · rintro ⟨_, hid, run, hrun, _, hsession, _, hcreated, _, ⟨hmessages, rfl⟩, _, hupdated, rfl⟩
      exact ⟨⟨hid, ⟨run, hrun, hsession, hcreated⟩, hmessages, hupdated⟩, rfl⟩
    · rintro ⟨⟨hid, ⟨run, hrun, hsession, hcreated⟩, hmessages, hupdated⟩, rfl⟩
      exact ⟨(), hid, run, hrun, (), hsession, (), hcreated, _, ⟨hmessages, rfl⟩, (), hupdated,
        rfl⟩
  · rw [EachAfter.and, EachAfter.and, EachAfter.and, EachAfter.and, EachAfter.const,
      EachAfter.const, EachAfter.const, EachAfter.nodup,
      EachAfter.flatMap self.ClaimedInOrder fun input : RunInputRecord ↦ input.messages]
    rfl

theorem validateQueuedAfterClaims_eq_ok {loop : OwnerLoop} :
    self.queuedMessages.foldlM self.validateQueuedAfterClaims
        (self.ownerLoop self.runInputs self.claimedMessages self.claimedMessages) = .ok loop ↔
      EachAfter (fun done queued ↦ ∀ last,
          lastOf (·.sessionId) queued.sessionId done = some last →
          self.FollowsInSession last queued) self.claimedMessages self.queuedMessages ∧
        self.ownerLoop self.runInputs self.claimedMessages self.ownedMessages = loop := by
  rw [← EachAfter.shift]
  conv_lhs => arg 1; arg 2; arg 4; rw [← List.append_nil self.claimedMessages]
  refine foldlM_eq_ok_iff
    (fun done ↦
      self.ownerLoop self.runInputs self.claimedMessages (self.claimedMessages ++ done))
    (fun done queued ↦ ∀ last,
      lastOf (·.sessionId) queued.sessionId (self.claimedMessages ++ done) = some last →
        self.FollowsInSession last queued)
    (fun done queued _ loop' ↦ ?_) _
  rw [← List.append_assoc, ← self.own_ownerLoop,
    ← self.ownerLoop_any_eq_false self.runInputs self.claimedMessages]
  simp only [validateQueuedAfterClaims, except_bind_unit_eq_ok, rejectIf_eq_ok, Bool.not_eq_true,
    except_pure_eq_ok, and_assoc]

/-- With the ledger free of duplicates, order within the sessions is ledger order and enqueue order
of each of them. -/
theorem followsInSession_iff {list : List QueuedMessage}
    (hledger : (self.inboundEvents.map (·.id)).Nodup)
    (hrecorded : ∀ message ∈ list, self.Recorded message) :
    (list.Pairwise fun first second ↦
        first.sessionId = second.sessionId → self.FollowsInSession first second) ↔
      (∀ id, ((list.filter (·.sessionId = id)).map (·.eventId)).Sublist
        (self.inboundEvents.map (·.id))) ∧
      ∀ id, (list.filter (·.sessionId = id)).Pairwise fun first second ↦
        first.enqueuedAtUnix ≤ second.enqueuedAtUnix := by
  rw [pairwise_group_iff, ← forall_and]
  refine forall_congr' fun id ↦ ?_
  have hmem : ∀ eventId ∈ (list.filter (·.sessionId = id)).map (·.eventId),
      eventId ∈ self.inboundEvents.map (·.id) := by
    simp only [List.mem_map, List.mem_filter, decide_eq_true_eq, forall_exists_index, and_imp]
    rintro _ message hmessage - rfl
    obtain ⟨event, hevent, -⟩ := hrecorded message hmessage
    exact List.mem_map.mp (find_key_isSome.mp (Option.isSome_iff_exists.mpr ⟨event, hevent⟩))
  rw [← pairwise_idxOf_iff_sublist hledger hmem, List.pairwise_map, and_comm]
  exact List.pairwise_and_iff

/-- The two loops over the owned messages check one order on claimed and queued messages. -/
theorem owned_iff :
    (EachAfter self.ClaimedInOrder [] self.claimedMessages ∧
        EachAfter (fun done queued ↦ ∀ last,
          lastOf (·.sessionId) queued.sessionId done = some last →
          self.FollowsInSession last queued) self.claimedMessages self.queuedMessages) ∧
      (self.queuedMessages.map (·.eventId)).Nodup ∧
      (∀ queued ∈ self.queuedMessages, self.Recorded queued) ↔
    (∀ message ∈ self.ownedMessages, self.Recorded message) ∧
      (self.ownedMessages.map (·.eventId)).Nodup ∧
      self.ownedMessages.Pairwise fun first second ↦
        first.sessionId = second.sessionId → self.FollowsInSession first second := by
  have htrans : ∀ a b c, self.FollowsInSession a b → self.FollowsInSession b c →
      self.FollowsInSession a c :=
    fun _ _ _ hab hbc ↦ ⟨hab.1.trans hbc.1, hab.2.trans hbc.2⟩
  unfold ClaimedInOrder
  rw [EachAfter.and, EachAfter.and, EachAfter.and, EachAfter.const, EachAfter.const,
    EachAfter.nodup, ← EachAfter.lastOf_iff htrans, ownedMessages, EachAfter.append,
    List.map_append, List.nodup_append', List.disjoint_left, List.nil_append, List.forall_mem_append,
    List.forall_mem_map]
  tauto

theorem mem_recordTimes_iff {p : U64 → Prop} : (∀ time ∈ self.recordTimes, p time) ↔
    (∀ session ∈ self.sessions, p session.updatedAtUnix) ∧
      (∀ run ∈ self.runs, p run.updatedAtUnix) ∧
      (∀ input ∈ self.runInputs, p input.claimedAtUnix) ∧
      (∀ event ∈ self.inboundEvents, p event.recordedAtUnix) ∧
      (∀ delivery ∈ self.outboundDeliveries, p delivery.updatedAtUnix) ∧
      ∀ queued ∈ self.queuedMessages, p queued.enqueuedAtUnix := by
  simp only [recordTimes, List.forall_mem_append, List.forall_mem_map, and_assoc]

theorem queued_positions_iff (hledger : (self.inboundEvents.map (·.id)).Nodup)
    (hrecorded : ∀ queued ∈ self.queuedMessages, self.Recorded queued) :
    self.queuedMessages.Pairwise (fun first second ↦
        self.inboundPosition first.eventId < self.inboundPosition second.eventId) ↔
      (self.queuedMessages.map (·.eventId)).Sublist (self.inboundEvents.map (·.id)) := by
  rw [← pairwise_idxOf_iff_sublist hledger, List.pairwise_map]
  · rfl
  · simp only [List.forall_mem_map]
    intro queued hqueued
    obtain ⟨event, hevent, -⟩ := hrecorded queued hqueued
    exact find_key_isSome.mp (Option.isSome_iff_exists.mpr ⟨event, hevent⟩)

theorem Consistent.recorded_queued (h : self.Consistent) :
    ∀ queued ∈ self.queuedMessages, self.Recorded queued :=
  fun queued hqueued ↦ h.recorded queued (List.mem_append_right _ hqueued)

theorem validate_eq_ok {u : Unit} : self.validate = .ok u ↔ self.Valid := by
  simp only [validate, except_bind_eq_ok, validateSessions_eq_ok, validateRuns_eq_ok,
    validateInboundEvents_eq_ok, validateOutboundDeliveries_eq_ok, validateQueuedMessages_eq_ok,
    validateRunInputs_eq_ok]
  constructor
  · rintro ⟨_, ⟨⟨hsessions, hsessionIds, hsessionsUpdated⟩, rfl⟩,
      _, ⟨⟨hruns, hrunSessions, hrunIds, houtputIds, hactive, hrunsUpdated⟩, rfl⟩,
      _, ⟨⟨hevents, heventIds, heventsUpdated⟩, rfl⟩,
      _, ⟨⟨hdeliveries, hdeliveryIds, hdeliverySessions, hdeliveriesUpdated⟩, rfl⟩,
      _, houtputs,
      _, ⟨⟨hqueued, hqueuedIds, hqueuedRecorded, hpositions, hqueuedSessions, -, hqueuedUpdated⟩,
        rfl⟩,
      _, ⟨⟨hinputs, hinputIds, hclaimed, hclaimedOrder, hinputsUpdated⟩, rfl⟩, hafter⟩
    simp only [validateQueuedAfterClaims_eq_ok] at hafter
    obtain ⟨_, ⟨hafter, -⟩, -⟩ := hafter
    obtain ⟨hrecorded, hownedIds, howned⟩ :=
      owned_iff.mp ⟨⟨hclaimedOrder, hafter⟩, hqueuedIds, hqueuedRecorded⟩
    obtain ⟨hownedLedger, hownedOrdered⟩ := (followsInSession_iff heventIds hrecorded).mp howned
    exact {
      sessions := hsessions
      session_ids := hsessionIds
      runs := hruns
      run_sessions := hrunSessions
      run_ids := hrunIds
      output_ids := houtputIds
      active := hactive
      events := hevents
      event_ids := heventIds
      deliveries := hdeliveries
      delivery_ids := hdeliveryIds
      delivery_sessions := hdeliverySessions
      outputs := (validateOutputOwnerships_eq_ok hrunIds).mp houtputs
      queued := hqueued
      queued_ledger := (queued_positions_iff heventIds hqueuedRecorded).mp hpositions
      queued_sessions := hqueuedSessions
      inputs := hinputs
      input_ids := hinputIds
      input_runs := hclaimed
      recorded := hrecorded
      owned_ids := hownedIds
      owned_ledger := hownedLedger
      owned_ordered := hownedOrdered
      updated := mem_recordTimes_iff.mpr ⟨hsessionsUpdated, hrunsUpdated, hinputsUpdated,
        heventsUpdated, hdeliveriesUpdated, hqueuedUpdated⟩ }
  · intro h
    obtain ⟨hsessionsUpdated, hrunsUpdated, hinputsUpdated, heventsUpdated, hdeliveriesUpdated,
      hqueuedUpdated⟩ := mem_recordTimes_iff.mp h.updated
    have howned := (followsInSession_iff h.event_ids h.recorded).mpr
      ⟨h.owned_ledger, h.owned_ordered⟩
    obtain ⟨⟨hclaimedOrder, hafter⟩, hqueuedIds, -⟩ :=
      owned_iff.mpr ⟨h.recorded, h.owned_ids, howned⟩
    have hqueuedOrdered := (List.pairwise_append.mp howned).2.1.imp
      (S := fun first second ↦ first.sessionId = second.sessionId →
        first.enqueuedAtUnix ≤ second.enqueuedAtUnix) fun hfollows heq ↦ (hfollows heq).1
    refine ⟨_, ⟨⟨h.sessions, h.session_ids, hsessionsUpdated⟩, rfl⟩,
      _, ⟨⟨h.runs, h.run_sessions, h.run_ids, h.output_ids, h.active, hrunsUpdated⟩, rfl⟩,
      _, ⟨⟨h.events, h.event_ids, heventsUpdated⟩, rfl⟩,
      _, ⟨⟨h.deliveries, h.delivery_ids, h.delivery_sessions, hdeliveriesUpdated⟩, rfl⟩,
      (), (validateOutputOwnerships_eq_ok h.run_ids).mpr h.outputs,
      _, ⟨⟨h.queued, hqueuedIds, h.recorded_queued,
        (queued_positions_iff h.event_ids h.recorded_queued).mpr h.queued_ledger,
        h.queued_sessions, hqueuedOrdered, hqueuedUpdated⟩, rfl⟩,
      _, ⟨⟨h.inputs, h.input_ids, h.input_runs, hclaimedOrder, hinputsUpdated⟩, rfl⟩, ?_⟩
    simp only [validateQueuedAfterClaims_eq_ok]
    exact ⟨_, ⟨hafter, rfl⟩, rfl⟩

end RuntimeState

end FerrisBridge
