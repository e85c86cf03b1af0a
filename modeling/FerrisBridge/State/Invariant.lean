import FerrisBridge.State.Validate

/-!
# The state invariant

What a runtime state has to satisfy, in terms of its records and their places in the lists, without
the maps that the check goes through. `validate_eq_ok_iff_invariant` shows that the check accepts
exactly this.
-/

open Foundations

namespace FerrisBridge

namespace RuntimeState

variable (state : RuntimeState)

/-- The ledger has the first event at an earlier position than the second one. -/
def LedgerPrecedes (first second : EventId) : Prop :=
  Precedes (state.inboundEvents.map (·.id)) first second

/-- The state has the session. -/
def Knows (id : SessionId) : Prop := ∃ session ∈ state.sessions, session.id = id

/-- The messages that the run inputs of a session hold, followed by its messages in the queue. -/
def sessionMessages (id : SessionId) : List QueuedMessage :=
  (state.runInputs.filter (·.sessionId = id)).flatMap (·.messages) ++
    state.queuedMessages.filter (·.sessionId = id)

/-- The message waits in the queue, or a run input holds it. -/
def QueuedOrClaimed (message : QueuedMessage) : Prop :=
  message ∈ state.queuedMessages ∨ ∃ input ∈ state.runInputs, message ∈ input.messages

/-- The declarative state invariant. -/
structure Invariant : Prop where
  sessions : ∀ session ∈ state.sessions, session.validate = .ok ()
  runs : ∀ run ∈ state.runs, run.validate = .ok ()
  inputs : ∀ input ∈ state.runInputs, input.validate = .ok ()
  events : ∀ event ∈ state.inboundEvents, event.validate = .ok ()
  queued : ∀ queued ∈ state.queuedMessages, queued.validate = .ok ()
  deliveries : ∀ delivery ∈ state.outboundDeliveries, delivery.validate = .ok ()
  session_ids : (state.sessions.map (·.id)).Nodup
  run_ids : (state.runs.map (·.id)).Nodup
  input_ids : (state.runInputs.map (·.runId)).Nodup
  event_ids : (state.inboundEvents.map (·.id)).Nodup
  delivery_ids : (state.outboundDeliveries.map (·.id)).Nodup
  run_sessions : ∀ run ∈ state.runs, state.Knows run.sessionId
  queued_sessions : ∀ queued ∈ state.queuedMessages, state.Knows queued.sessionId
  delivery_sessions : ∀ delivery ∈ state.outboundDeliveries, state.Knows delivery.sessionId
  active : ∀ run ∈ state.runs, ∀ other ∈ state.runs, run.isTerminal = false →
    other.isTerminal = false → run.sessionId = other.sessionId → run = other
  output_owners : ∀ run ∈ state.runs, ∀ other ∈ state.runs, ∀ id ∈ run.outputDeliveryIds,
    id ∈ other.outputDeliveryIds → run = other
  outputs : ∀ run ∈ state.runs, ∀ id ∈ run.outputDeliveryIds,
    ∃ delivery ∈ state.outboundDeliveries, delivery.id = id ∧
      delivery.sessionId = run.sessionId ∧ delivery.message.author = .agent ∧
      run.finishedAtUnix = some delivery.createdAtUnix
  input_runs : ∀ input ∈ state.runInputs, ∃ run ∈ state.runs, run.id = input.runId ∧
    run.sessionId = input.sessionId ∧ run.createdAtUnix = input.claimedAtUnix
  queued_ordered : state.queuedMessages.Pairwise fun first second ↦
    state.LedgerPrecedes first.eventId second.eventId
  recorded : ∀ message, state.QueuedOrClaimed message → ∃ event ∈ state.inboundEvents,
    event.id = message.eventId ∧ event.receivedAtUnix = message.receivedAtUnix ∧
      event.recordedAtUnix ≤ message.enqueuedAtUnix
  claimed_once : ((state.runInputs.flatMap (·.messages)).map (·.eventId)).Nodup
  claimed_or_queued : ∀ input ∈ state.runInputs, ∀ message ∈ input.messages,
    ∀ queued ∈ state.queuedMessages, message.eventId ≠ queued.eventId
  session_ledger : ∀ id, (state.sessionMessages id).Pairwise fun first second ↦
    state.LedgerPrecedes first.eventId second.eventId
  session_ordered : ∀ id, (state.sessionMessages id).Pairwise fun first second ↦
    first.enqueuedAtUnix ≤ second.enqueuedAtUnix
  session_updated : ∀ session ∈ state.sessions, session.updatedAtUnix ≤ state.updatedAtUnix
  run_updated : ∀ run ∈ state.runs, run.updatedAtUnix ≤ state.updatedAtUnix
  input_claimed : ∀ input ∈ state.runInputs, input.claimedAtUnix ≤ state.updatedAtUnix
  event_recorded : ∀ event ∈ state.inboundEvents, event.recordedAtUnix ≤ state.updatedAtUnix
  queued_enqueued : ∀ queued ∈ state.queuedMessages, queued.enqueuedAtUnix ≤ state.updatedAtUnix
  delivery_updated : ∀ delivery ∈ state.outboundDeliveries,
    delivery.updatedAtUnix ≤ state.updatedAtUnix

variable {state}

theorem knows_iff {id : SessionId} : state.Knows id ↔ id ∈ state.sessions.map (·.id) :=
  List.mem_map.symm

theorem queuedOrClaimed_iff {message : QueuedMessage} :
    state.QueuedOrClaimed message ↔ message ∈ state.ownedMessages := by
  simp only [QueuedOrClaimed, ownedMessages, claimedMessages, List.mem_append, List.mem_flatMap,
    or_comm]

theorem recorded_iff (hevents : (state.inboundEvents.map (·.id)).Nodup) {message : QueuedMessage} :
    state.Recorded message ↔ ∃ event ∈ state.inboundEvents, event.id = message.eventId ∧
      event.receivedAtUnix = message.receivedAtUnix ∧
      event.recordedAtUnix ≤ message.enqueuedAtUnix := by
  refine exists_congr fun event ↦ ?_
  rw [inboundEvent, find_key_iff hevents, and_assoc, @eq_comm _ message.receivedAtUnix]

theorem claimed_iff (hruns : (state.runs.map (·.id)).Nodup) {input : RunInputRecord} :
    state.Claimed input ↔ ∃ run ∈ state.runs, run.id = input.runId ∧
      run.sessionId = input.sessionId ∧ run.createdAtUnix = input.claimedAtUnix := by
  refine exists_congr fun run ↦ ?_
  rw [RuntimeState.run, find_key_iff hruns, and_assoc]

theorem delivers_iff (hdeliveries : (state.outboundDeliveries.map (·.id)).Nodup) {run : RunRecord}
    {id : OutboundDeliveryId} :
    state.Delivers run id ↔ ∃ delivery ∈ state.outboundDeliveries, delivery.id = id ∧
      delivery.sessionId = run.sessionId ∧ delivery.message.author = .agent ∧
      run.finishedAtUnix = some delivery.createdAtUnix := by
  refine exists_congr fun delivery ↦ ?_
  rw [outboundDelivery, find_key_iff hdeliveries, and_assoc, @eq_comm _ run.finishedAtUnix]

/-- Among runs with different ids, at most one is active in a session. -/
theorem active_iff (hruns : (state.runs.map (·.id)).Nodup) :
    state.runs.Pairwise NotBothActive ↔ ∀ run ∈ state.runs, ∀ other ∈ state.runs,
      run.isTerminal = false → other.isTerminal = false → run.sessionId = other.sessionId →
        run = other := by
  have : Std.Symm NotBothActive := ⟨fun _ _ h hsecond hfirst heq ↦ h hfirst hsecond heq.symm⟩
  rw [← (hruns.of_map _).pairwise_coe]
  constructor
  · intro h run hrun other hother hactive hactive' heq
    by_contra hne
    exact h hrun hother hne hactive hactive' heq
  · intro h run hrun other hother hne hactive hactive' heq
    exact hne (h run hrun other hother hactive hactive' heq)

/-- Output ids that each run has once are owned once when no two runs share one. -/
theorem output_owners_iff (hruns : (state.runs.map (·.id)).Nodup)
    (houtputs : ∀ run ∈ state.runs, run.outputDeliveryIds.Nodup) :
    (state.runs.flatMap (·.outputDeliveryIds)).Nodup ↔ ∀ run ∈ state.runs, ∀ other ∈ state.runs,
      ∀ id ∈ run.outputDeliveryIds, id ∈ other.outputDeliveryIds → run = other := by
  have : Std.Symm fun run other : RunRecord ↦
      List.Disjoint run.outputDeliveryIds other.outputDeliveryIds := ⟨fun _ _ h ↦ h.symm⟩
  rw [List.nodup_flatMap, and_iff_right houtputs]
  refine (hruns.of_map _).pairwise_coe.symm.trans ?_
  constructor
  · intro h run hrun other hother id hid hid'
    by_contra hne
    exact h hrun hother hne hid hid'
  · intro h run hrun other hother hne id hid hid'
    exact hne (h run hrun other hother id hid hid')

/-- No event is claimed twice or both claimed and queued, and none is queued twice. -/
theorem owned_ids_iff : (state.ownedMessages.map (·.eventId)).Nodup ↔
    ((state.runInputs.flatMap (·.messages)).map (·.eventId)).Nodup ∧
      (state.queuedMessages.map (·.eventId)).Nodup ∧ ∀ input ∈ state.runInputs,
        ∀ message ∈ input.messages, ∀ queued ∈ state.queuedMessages,
          message.eventId ≠ queued.eventId := by
  rw [ownedMessages, List.map_append, List.nodup_append]
  refine and_congr_right' (and_congr_right' ⟨fun h input hinput message hmessage queued hqueued ↦ ?_,
    fun h _ hclaimedId _ hqueuedId ↦ ?_⟩)
  · have hclaimed : message ∈ state.claimedMessages := List.mem_flatMap.mpr ⟨input, hinput, hmessage⟩
    exact h _ (List.mem_map_of_mem hclaimed) _ (List.mem_map_of_mem hqueued)
  · obtain ⟨message, hclaimed, rfl⟩ := List.mem_map.mp hclaimedId
    obtain ⟨queued, hqueued, rfl⟩ := List.mem_map.mp hqueuedId
    obtain ⟨input, hinput, hmessage⟩ := List.mem_flatMap.mp hclaimed
    exact h input hinput message hmessage queued hqueued

/-- Messages that are all in the ledger are in its order when each precedes those after it. -/
theorem pairwise_ledgerPrecedes_iff (hevents : (state.inboundEvents.map (·.id)).Nodup)
    {messages : List QueuedMessage} (hrecorded : ∀ message ∈ messages, state.Recorded message) :
    (messages.Pairwise fun first second ↦ state.LedgerPrecedes first.eventId second.eventId) ↔
      (messages.map (·.eventId)).Sublist (state.inboundEvents.map (·.id)) := by
  rw [← pairwise_precedes_iff_sublist hevents, List.pairwise_map]
  · exact Iff.rfl
  · refine List.forall_mem_map.mpr fun message hmessage ↦ ?_
    obtain ⟨event, hevent, -⟩ := hrecorded message hmessage
    exact find_key_isSome.mp (Option.isSome_iff_exists.mpr ⟨event, hevent⟩)

theorem sessionMessages_eq (hinputs : ∀ input ∈ state.runInputs, input.Valid) (id : SessionId) :
    state.sessionMessages id = state.ownedOf id := by
  rw [sessionMessages, ownedOf, ownedMessages, List.filter_append, claimedMessages,
    flatMap_filter_of_key _ fun input hinput ↦ (hinputs input hinput).messages_session]

theorem mem_ownedOf {id : SessionId} {message : QueuedMessage} (h : message ∈ state.ownedOf id) :
    message ∈ state.ownedMessages := List.mem_of_mem_filter h

/-- The check accepts exactly the states that satisfy the invariant. -/
theorem valid_iff_invariant : state.Valid ↔ state.Invariant := by
  constructor
  · intro h
    obtain ⟨hclaimed, hqueuedIds, hdisjoint⟩ := owned_ids_iff.mp h.owned_ids
    obtain ⟨hsessions, hruns, hinputs, hevents, hdeliveries, hqueued⟩ :=
      mem_recordTimes_iff.mp h.updated
    have howned : ∀ id, ∀ message ∈ state.ownedOf id, state.Recorded message :=
      fun id message hmessage ↦ h.recorded message (mem_ownedOf hmessage)
    exact {
      sessions := fun session hsession ↦ Session.validate_eq_ok.mpr (h.sessions session hsession)
      runs := fun run hrun ↦ RunRecord.validate_eq_ok.mpr (h.runs run hrun)
      inputs := fun input hinput ↦ RunInputRecord.validate_eq_ok.mpr (h.inputs input hinput)
      events := fun event hevent ↦ InboundEventRecord.validate_eq_ok.mpr (h.events event hevent)
      queued := fun queued hmem ↦ QueuedMessage.validate_eq_ok.mpr (h.queued queued hmem)
      deliveries := fun delivery hdelivery ↦
        OutboundDeliveryRecord.validate_eq_ok.mpr (h.deliveries delivery hdelivery)
      session_ids := h.session_ids
      run_ids := h.run_ids
      input_ids := h.input_ids
      event_ids := h.event_ids
      delivery_ids := h.delivery_ids
      run_sessions := fun run hrun ↦ knows_iff.mpr (h.run_sessions run hrun)
      queued_sessions := fun queued hmem ↦ knows_iff.mpr (h.queued_sessions queued hmem)
      delivery_sessions := fun delivery hdelivery ↦
        knows_iff.mpr (h.delivery_sessions delivery hdelivery)
      active := (active_iff h.run_ids).mp h.active
      output_owners := (output_owners_iff h.run_ids fun run hrun ↦
        (h.runs run hrun).outputs_nodup).mp h.output_ids
      outputs := fun run hrun id hid ↦ (delivers_iff h.delivery_ids).mp (h.outputs run hrun id hid)
      input_runs := fun input hinput ↦ (claimed_iff h.run_ids).mp (h.input_runs input hinput)
      queued_ordered := (pairwise_ledgerPrecedes_iff h.event_ids h.recorded_queued).mpr h.queued_ledger
      recorded := fun message hmessage ↦
        (recorded_iff h.event_ids).mp (h.recorded message (queuedOrClaimed_iff.mp hmessage))
      claimed_once := hclaimed
      claimed_or_queued := hdisjoint
      session_ledger := fun id ↦ by
        rw [sessionMessages_eq h.inputs]
        exact (pairwise_ledgerPrecedes_iff h.event_ids (howned id)).mpr (h.owned_ledger id)
      session_ordered := fun id ↦ by
        rw [sessionMessages_eq h.inputs]
        exact h.owned_ordered id
      session_updated := hsessions
      run_updated := hruns
      input_claimed := hinputs
      event_recorded := hevents
      queued_enqueued := hqueued
      delivery_updated := hdeliveries }
  · intro h
    have hruns : ∀ run ∈ state.runs, run.Valid :=
      fun run hrun ↦ RunRecord.validate_eq_ok.mp (h.runs run hrun)
    have hinputs : ∀ input ∈ state.runInputs, input.Valid :=
      fun input hinput ↦ RunInputRecord.validate_eq_ok.mp (h.inputs input hinput)
    have hrecorded : ∀ message ∈ state.ownedMessages, state.Recorded message :=
      fun message hmessage ↦
        (recorded_iff h.event_ids).mpr (h.recorded message (queuedOrClaimed_iff.mpr hmessage))
    have hledger : (state.queuedMessages.map (·.eventId)).Sublist
        (state.inboundEvents.map (·.id)) :=
      (pairwise_ledgerPrecedes_iff h.event_ids fun queued hmem ↦
        hrecorded queued (List.mem_append_right _ hmem)).mp h.queued_ordered
    exact {
      sessions := fun session hsession ↦ Session.validate_eq_ok.mp (h.sessions session hsession)
      session_ids := h.session_ids
      runs := hruns
      run_sessions := fun run hrun ↦ knows_iff.mp (h.run_sessions run hrun)
      run_ids := h.run_ids
      output_ids := (output_owners_iff h.run_ids fun run hrun ↦
        (hruns run hrun).outputs_nodup).mpr h.output_owners
      active := (active_iff h.run_ids).mpr h.active
      events := fun event hevent ↦ InboundEventRecord.validate_eq_ok.mp (h.events event hevent)
      event_ids := h.event_ids
      deliveries := fun delivery hdelivery ↦
        OutboundDeliveryRecord.validate_eq_ok.mp (h.deliveries delivery hdelivery)
      delivery_ids := h.delivery_ids
      delivery_sessions := fun delivery hdelivery ↦
        knows_iff.mp (h.delivery_sessions delivery hdelivery)
      outputs := fun run hrun id hid ↦ (delivers_iff h.delivery_ids).mpr (h.outputs run hrun id hid)
      queued := fun queued hmem ↦ QueuedMessage.validate_eq_ok.mp (h.queued queued hmem)
      queued_ledger := hledger
      queued_sessions := fun queued hmem ↦ knows_iff.mp (h.queued_sessions queued hmem)
      inputs := hinputs
      input_ids := h.input_ids
      input_runs := fun input hinput ↦ (claimed_iff h.run_ids).mpr (h.input_runs input hinput)
      recorded := hrecorded
      -- The order of the queue leaves no room for an event that is queued twice.
      owned_ids := owned_ids_iff.mpr
        ⟨h.claimed_once, h.event_ids.sublist hledger, h.claimed_or_queued⟩
      owned_ledger := fun id ↦ by
        rw [← pairwise_ledgerPrecedes_iff h.event_ids fun message hmessage ↦
          hrecorded message (mem_ownedOf hmessage), ← sessionMessages_eq hinputs]
        exact h.session_ledger id
      owned_ordered := fun id ↦ by
        rw [← sessionMessages_eq hinputs]
        exact h.session_ordered id
      updated := mem_recordTimes_iff.mpr ⟨h.session_updated, h.run_updated, h.input_claimed,
        h.event_recorded, h.delivery_updated, h.queued_enqueued⟩ }

/-- `validate` accepts exactly the states that satisfy the declarative invariant. -/
theorem validate_eq_ok_iff_invariant (state : RuntimeState) :
    state.validate = .ok () ↔ state.Invariant :=
  validate_eq_ok.trans valid_iff_invariant

end RuntimeState

end FerrisBridge
