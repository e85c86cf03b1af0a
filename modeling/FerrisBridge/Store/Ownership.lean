import FerrisBridge.State.Duplicate
import FerrisBridge.Store.History

/-!
# Message ownership

Every inbound message is owned exactly once: it waits in the queue until a claim moves it into the
input of a run. Over any history of the store, the messages of a session, claimed and then queued,
are those that its events carried when they first became visible, in the order of the ledger, and no
message is claimed twice.
-/

open Foundations

namespace FerrisBridge

namespace RuntimeState

variable {state : RuntimeState}

/-- The messages of a session that are owned by its run inputs, followed by those in the queue. -/
def claimedThenQueued (state : RuntimeState) (id : SessionId) : List QueuedMessage :=
  (state.runInputs.filter (·.sessionId = id)).flatMap (·.messages) ++
    state.queuedMessages.filter (·.sessionId = id)

theorem Consistent.claimedThenQueued_eq (h : state.Consistent) (id : SessionId) :
    state.claimedThenQueued id = state.ownedOf id := by
  rw [claimedThenQueued, ownedOf, ownedMessages, List.filter_append, claimedMessages,
    flatMap_filter_of_key _ fun input hinput ↦ (h.inputs input hinput).messages_session]

/-- The messages of a session are what its events in the ledger carry, in ledger order. -/
theorem Consistent.ownedOf_eq (h : state.Consistent) (id : SessionId) :
    state.ownedOf id = (state.inboundEvents.map (·.id)).filterMap fun eventId ↦
      (state.messageRecordForEvent eventId).filter (·.sessionId = id) := by
  refine eq_filterMap_of_sublist h.event_ids (h.owned_ledger id) fun eventId message ↦ ?_
  rw [Option.filter_eq_some_iff, h.messageRecordForEvent_eq_some, ownedOf, List.mem_filter]
  tauto

end RuntimeState

/-- The event, the session, the message and the receive time of a message record. -/
abbrev MessageIdentity := EventId × SessionId × Message × U64

/-- What an event carried when it first became visible. Recording an event stores the event's own message
(`RuntimeState.hasRecorded_of_recordInboundEventAt`), which `firstMessage_of_persisted` says of calls. -/
def firstMessage (visited : List RuntimeState) (id : EventId) : Option MessageIdentity :=
  (visited.find? (·.hasInboundEvent id)).bind fun state ↦
    (state.messageRecordForEvent id).map (·.identity)

/-- The events whose messages a call has claimed and returned. -/
def claimedEventIds (e : CallEntry) : List EventId :=
  match e.input.request, e.output with
  | .method (.claimMessageBatch _ _ _), .ok (.batch (.claimed _ input)) =>
    input.messages.map (·.eventId)
  | _, _ => []

namespace StateStore

variable {self : StateStore} {calls : List Call} {state : RuntimeState} {e : CallEntry}

/-- An event keeps the message that it carried when it first became visible. -/
theorem firstMessage_eq (hvisible : (self.after calls).visible = some state) {id : EventId}
    (hid : id ∈ state.inboundEvents.map (·.id)) :
    firstMessage (visibleStates (self.history calls)) id =
      (state.messageRecordForEvent id).map (·.identity) := by
  have hself : state.hasInboundEvent id = true := find_key_isSome.mpr hid
  unfold firstMessage
  cases hfind : (visibleStates (self.history calls)).find? (·.hasInboundEvent id) with
  | none => exact absurd hself (List.find?_eq_none.mp hfind state (mem_visibleStates hvisible))
  | some first =>
    have hfirst := List.mem_of_find?_eq_some hfind
    have hhas : first.hasInboundEvent id = true := by simpa using List.find?_some hfind
    have hknown : id ∈ first.inboundEvents.map (·.id) := find_key_isSome.mp hhas
    exact ((visibleStates_evolve hvisible hfirst).messages id hknown).symm

/-- The messages of a session, claimed and then queued, are those that its events carried when they
first became visible. -/
theorem claimedThenQueued_identities (hvisible : (self.after calls).visible = some state)
    (id : SessionId) :
    (state.claimedThenQueued id).map (·.identity) =
      (state.inboundEvents.filterMap fun event ↦
        firstMessage (visibleStates (self.history calls)) event.id).filter (·.2.1 = id) := by
  have hstate : state.Valid := history_valid.2 state hvisible
  have hfirst : ∀ event ∈ state.inboundEvents,
      firstMessage (visibleStates (self.history calls)) event.id =
        (state.messageRecordForEvent event.id).map (·.identity) := fun event hevent ↦
    firstMessage_eq hvisible (List.mem_map_of_mem hevent)
  rw [hstate.claimedThenQueued_eq, hstate.ownedOf_eq, List.filterMap_map, List.map_filterMap,
    List.filterMap_congr hfirst, List.filter_filterMap]
  refine List.filterMap_congr fun event _ ↦ ?_
  rw [Function.comp_apply]
  cases state.messageRecordForEvent event.id with
  | none => rfl
  | some message =>
    by_cases hsession : message.sessionId = id <;>
      simp [Option.filter, QueuedMessage.identity, hsession]

/-- A batch that a call returns is the head of a session in the queue, and becomes a run input. -/
theorem claimedBatch_eq_ok {runId : RunId} {policy : MessageQueuePolicy} {time now : U64}
    {run : RunRecord} {input : RunInputRecord} {commit : Commit} {state' : RuntimeState}
    (h : (Method.claimMessageBatch runId policy time).work now state =
      .ok (.batch (.claimed run input), commit) state') :
    commit = .write ∧ input.Valid ∧
      input.messages <+: state.queuedMessages.filter (·.sessionId = input.sessionId) ∧
      state'.runInputs = state.runInputs ++ [input] := by
  obtain ⟨outcome, hwork, houtcome⟩ := replying_eq_ok.mp h
  obtain rfl := Reply.batch.inj houtcome
  obtain ⟨hclaim, ⟨_, _, -, hcommit⟩ | ⟨_, hwaiting, -⟩⟩ := claimMessageBatch_eq_ok hwork
  · obtain ⟨_, hwaiting, -⟩ | ⟨_, _, hclaimed, -, hinput, -, -, hmessages, -, rfl⟩ :=
      RuntimeState.claimMessageBatch_eq_ok hclaim
    · cases hwaiting
    · obtain ⟨rfl, rfl⟩ := MessageBatchClaimOutcome.claimed.inj hclaimed
      exact ⟨hcommit, hinput, hmessages, rfl⟩
  · cases hwaiting

/-- The messages that a call claims wait in the queue before it and belong to a run input after it. -/
theorem claimedEventIds_spec (he : e ∈ self.history calls) :
    (claimedEventIds e).Nodup ∧ ∀ id ∈ claimedEventIds e,
      (∃ state ∈ e.after.visible, id ∈ state.claimedMessages.map (·.eventId)) ∧
        ∀ state ∈ e.before.visible, id ∉ state.claimedMessages.map (·.eventId) := by
  unfold claimedEventIds
  split
  case h_1 run input hrequest houtput =>
    obtain ⟨commit, state, hwork, hafter⟩ := history_method_eq_ok he hrequest houtput
    obtain ⟨rfl, hinput, hmessages, hinputs⟩ := claimedBatch_eq_ok hwork
    refine ⟨hinput.eventIds_nodup, fun id hid ↦ ⟨⟨state, congrArg Disk.visible hafter, ?_⟩,
      fun before hbefore hclaimed ↦ ?_⟩⟩
    · rw [RuntimeState.claimedMessages, hinputs, List.flatMap_append, List.flatMap_singleton,
        List.map_append]
      exact List.mem_append_right _ hid
    · have hvalid : before.Valid := (history_valid.1 e he).1 before hbefore
      have hqueued : id ∈ before.queuedMessages.map (·.eventId) := by
        rw [Option.mem_def.mp hbefore] at hmessages
        exact ((hmessages.sublist.trans List.filter_sublist).map _).subset hid
      have hdisjoint := hvalid.owned_ids
      rw [RuntimeState.ownedMessages, List.map_append, List.nodup_append'] at hdisjoint
      exact hdisjoint.2.2 hclaimed hqueued
  case h_2 => exact ⟨List.nodup_nil, fun id h ↦ absurd h List.not_mem_nil⟩

/-- The file shows an event as recorded when a call has persisted it. -/
theorem hasRecorded_of_persisted {event : Event} {status : InboundEventRecordStatus}
    (he : e ∈ self.history calls) (hrequest : e.input.request = .method (.persistInboundEvent event))
    (houtput : e.output = .ok (.persisted status)) :
    ∃ state, e.after.visible = some state ∧ state.HasRecorded event := by
  obtain ⟨commit, state, hreplying, hafter⟩ := history_method_eq_ok he hrequest houtput
  obtain ⟨_, hwork, -⟩ := replying_eq_ok.mp hreplying
  obtain ⟨hrecord, rfl⟩ := persistInboundEvent_eq_ok hwork
  have hloaded := (history_valid.1 e he).1.loaded e.input.io
  have hrecorded := RuntimeState.hasRecorded_of_recordInboundEventAt hloaded hrecord
  refine ⟨state, ?_, hrecorded⟩
  rw [hafter]
  obtain ⟨_, -, ⟨rfl, rfl, -⟩ | ⟨rfl, -⟩⟩ := RuntimeState.recordInboundEventAt_eq_ok hrecord
  · -- a duplicate is in the loaded state, so that there is a file
    cases hvisible : e.before.visible with
    | none =>
      obtain ⟨_, hledger, -⟩ := hrecorded.ledger
      rw [hvisible] at hledger
      cases hledger
    | some before => exact hvisible
  · rfl

/-- An event that a call has persisted first became visible with the message that it carries. -/
theorem firstMessage_of_persisted {event : Event} {status : InboundEventRecordStatus}
    (he : e ∈ self.history calls) (hrequest : e.input.request = .method (.persistInboundEvent event))
    (houtput : e.output = .ok (.persisted status)) :
    firstMessage (visibleStates (self.history calls)) event.id = event.messageIdentity := by
  obtain ⟨shown, hshown, hrecorded⟩ := hasRecorded_of_persisted he hrequest houtput
  obtain ⟨state, hvisible, hevolves⟩ := history_evolves he shown hshown
  have hfinal := hrecorded.evolves hevolves
  obtain ⟨record, hrecord, -⟩ := hfinal.ledger
  have hid := find_key_isSome.mp (Option.isSome_iff_exists.mpr ⟨record, hrecord⟩)
  rw [firstMessage_eq hvisible hid, hfinal.message]

/-- Message ownership is exact and in order, no message is claimed twice, and the messages are those
that the events carried which calls have persisted. -/
theorem messages_owned_exactly_once (self : StateStore) (calls : List Call) :
    (∀ state ∈ (self.after calls).visible,
      (state.inboundEvents.map (·.id)).Nodup ∧
        ∀ id, (state.claimedThenQueued id).map (·.identity) =
          (state.inboundEvents.filterMap fun event ↦
            firstMessage (visibleStates (self.history calls)) event.id).filter (·.2.1 = id)) ∧
      ((self.history calls).flatMap claimedEventIds).Nodup ∧
      ∀ e ∈ self.history calls, ∀ event status,
        e.input.request = .method (.persistInboundEvent event) → e.output = .ok (.persisted status) →
          firstMessage (visibleStates (self.history calls)) event.id = event.messageIdentity := by
  refine ⟨fun state hstate ↦ ⟨(history_valid.2 state hstate).event_ids,
    claimedThenQueued_identities hstate⟩, List.nodup_flatMap.mpr ⟨fun e he ↦
      (claimedEventIds_spec he).1, ?_⟩, fun e he event status hrequest houtput ↦
        firstMessage_of_persisted he hrequest houtput⟩
  refine history_pairwise.imp_of_mem fun he hlater hevolves ↦ ?_
  intro id hid hid'
  obtain ⟨state, hstate, hclaimed⟩ := ((claimedEventIds_spec he).2 id hid).1
  obtain ⟨state', hstate', hstep⟩ := hevolves state hstate
  refine ((claimedEventIds_spec hlater).2 id hid').2 state' hstate' ?_
  obtain ⟨added, hadded⟩ := hstep.inputs
  rw [RuntimeState.claimedMessages, ← hadded, List.flatMap_append, List.map_append]
  exact List.mem_append_left _ hclaimed

end StateStore

end FerrisBridge
