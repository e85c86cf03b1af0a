import FerrisBridge.State.Preserve

/-!
# Evolution of the runtime state

What holds between a state and any later one: the ledger, the run inputs, the runs and the
deliveries only grow, records only move forward, and an event keeps the message it arrived with.
Evolution is a preorder, and every change of a valid state is an evolution.
-/

open Foundations

namespace FerrisBridge

/-! ## Deliveries over time -/

namespace OutboundDeliveryRecord

/-- Any number of transitions. -/
def Evolves : OutboundDeliveryRecord → OutboundDeliveryRecord → Prop :=
  Relation.ReflTransGen Advances

namespace Evolves

variable {before after last : OutboundDeliveryRecord}

theorem refl (record : OutboundDeliveryRecord) : record.Evolves record :=
  Relation.ReflTransGen.refl

theorem trans (h : before.Evolves after) (h' : after.Evolves last) : before.Evolves last :=
  Relation.ReflTransGen.trans h h'

theorem of_advances (h : before.Advances after) : before.Evolves after := .single h

theorem of_steps (h : before.Steps after) : before.Evolves after := by
  rcases h with rfl | h
  · exact .refl _
  · exact .of_advances h

theorem hasSameEnqueueIdentity (h : before.Evolves after) :
    after.hasSameEnqueueIdentity before = true := by
  induction h with
  | refl => simp [OutboundDeliveryRecord.hasSameEnqueueIdentity]
  | tail _ hadvances ih =>
    rw [hasSameEnqueueIdentity_iff] at ih ⊢
    exact ⟨hadvances.id_eq.trans ih.1, hadvances.sessionId_eq.trans ih.2.1,
      hadvances.message_eq.trans ih.2.2.1, hadvances.createdAt_eq.trans ih.2.2.2⟩

theorem id_eq (h : before.Evolves after) : after.id = before.id :=
  (hasSameEnqueueIdentity_iff.mp h.hasSameEnqueueIdentity).1

/-- Two versions of a record have the enqueue identity of the same records. -/
theorem sameEnqueueIdentity_iff {other : OutboundDeliveryRecord} (h : before.Evolves after) :
    after.hasSameEnqueueIdentity other = true ↔ before.hasSameEnqueueIdentity other = true := by
  obtain ⟨hid, hsession, hmessage, hcreated⟩ :=
    hasSameEnqueueIdentity_iff.mp h.hasSameEnqueueIdentity
  rw [hasSameEnqueueIdentity_iff, hasSameEnqueueIdentity_iff, hid, hsession, hmessage, hcreated]

theorem updated_le (h : before.Evolves after) : before.updatedAtUnix ≤ after.updatedAtUnix := by
  induction h with
  | refl => exact le_rfl
  | tail _ hadvances ih => exact ih.trans hadvances.updated_le

theorem attempts_le (h : before.Evolves after) :
    before.deliveryAttempts ≤ after.deliveryAttempts := by
  induction h with
  | refl => exact le_rfl
  | tail _ hadvances ih =>
    refine ih.trans (Word.le_iff_toNat.mpr ?_)
    rw [hadvances.attempts]
    exact Nat.le_add_right _ _

/-- A delivered record never changes again. -/
theorem eq_of_delivered (h : before.Evolves after) (hbefore : before.status = .delivered) :
    after = before := by
  rcases Relation.ReflTransGen.cases_head h with rfl | ⟨next, hadvances, -⟩
  · rfl
  · have := hadvances.status
    rw [hbefore] at this
    cases next.status <;> simp [OutboundDeliveryStatus.canBecome] at this

end Evolves

end OutboundDeliveryRecord

namespace RuntimeState

variable {state state' state'' : RuntimeState}

/-! ## The message of an event -/

/-- An event has at most one message record, in the queue or in a run input. -/
theorem Consistent.messageRecordForEvent_eq_some (h : state.Consistent) {id : EventId}
    {message : QueuedMessage} :
    state.messageRecordForEvent id = some message ↔
      message ∈ state.ownedMessages ∧ message.eventId = id := by
  have hids : ((state.queuedMessages ++ state.claimedMessages).map (·.eventId)).Nodup :=
    (List.perm_append_comm.map _).nodup_iff.mp h.owned_ids
  rw [messageRecordForEvent, claimedMessageForEvent, ← List.find?_append, find_key_iff hids,
    ownedMessages, List.mem_append, List.mem_append, or_comm]

/-- States that own the same messages of an event have the same record for it. -/
theorem Consistent.messageRecordForEvent_congr (h : state.Consistent) (h' : state'.Consistent)
    {id : EventId} (howned : ∀ message : QueuedMessage, message.eventId = id →
      (message ∈ state'.ownedMessages ↔ message ∈ state.ownedMessages)) :
    state'.messageRecordForEvent id = state.messageRecordForEvent id := by
  refine Option.ext fun message ↦ ?_
  rw [h'.messageRecordForEvent_eq_some, h.messageRecordForEvent_eq_some]
  exact and_congr_left fun hid ↦ howned message hid

/-! ## Evolution -/

/-- What holds between a state and any later one. -/
structure Evolves (before after : RuntimeState) : Prop where
  events : before.inboundEvents <+: after.inboundEvents
  messages : ∀ id ∈ before.inboundEvents.map (·.id),
    (after.messageRecordForEvent id).map (·.identity) =
      (before.messageRecordForEvent id).map (·.identity)
  inputs : before.runInputs <+: after.runInputs
  runs : Extends RunRecord.Evolves before.runs after.runs
  deliveries : Extends OutboundDeliveryRecord.Evolves before.outboundDeliveries
    after.outboundDeliveries

namespace Evolves

theorem refl (state : RuntimeState) : state.Evolves state where
  events := List.prefix_refl _
  messages _ _ := rfl
  inputs := List.prefix_refl _
  runs := .refl fun run _ ↦ .refl run
  deliveries := .refl fun delivery _ ↦ .refl delivery

theorem trans (h : state.Evolves state') (h' : state'.Evolves state'') : state.Evolves state'' where
  events := h.events.trans h'.events
  messages id hid :=
    (h'.messages id ((h.events.map _).subset hid)).trans (h.messages id hid)
  inputs := h.inputs.trans h'.inputs
  runs := h.runs.trans (fun _ _ _ ↦ .trans) h'.runs
  deliveries := h.deliveries.trans (fun _ _ _ ↦ .trans) h'.deliveries

theorem inboundEvent (h : state.Evolves state') {id : EventId} {event : InboundEventRecord}
    (hevent : state.inboundEvent id = some event) : state'.inboundEvent id = some event := by
  obtain ⟨added, hadded⟩ := h.events
  rw [RuntimeState.inboundEvent] at hevent ⊢
  rw [← hadded, List.find?_append, hevent, Option.some_or]

theorem runInput (h : state.Evolves state') {id : RunId} {input : RunInputRecord}
    (hinput : state.runInput id = some input) : state'.runInput id = some input := by
  obtain ⟨added, hadded⟩ := h.inputs
  rw [RuntimeState.runInput] at hinput ⊢
  rw [← hadded, List.find?_append, hinput, Option.some_or]

theorem run (h : state.Evolves state') {id : RunId} {run : RunRecord}
    (hrun : state.run id = some run) : ∃ run', state'.run id = some run' ∧ run.Evolves run' :=
  h.runs.find_key RunRecord.id (fun _ _ hevolves ↦ hevolves.id_eq.symm) hrun

theorem delivery (h : state.Evolves state') {id : OutboundDeliveryId}
    {delivery : OutboundDeliveryRecord} (hdelivery : state.outboundDelivery id = some delivery) :
    ∃ delivery', state'.outboundDelivery id = some delivery' ∧ delivery.Evolves delivery' :=
  h.deliveries.find_key OutboundDeliveryRecord.id
    (fun _ _ hevolves ↦ hevolves.id_eq.symm) hdelivery

end Evolves

theorem SnapshotChange.evolves (h : SnapshotChange state state') (hstate : state.Valid) :
    state.Evolves state' := by
  have hrefl := Evolves.refl state
  have hstate' := h.valid hstate
  cases h with
  | refl => exact hrefl
  | upsertSession now hsession =>
    rcases state.upsertSession_sessions _ now with ⟨_, -, -, heq⟩ | ⟨-, heq⟩
    · rw [heq]
      exact { hrefl with }
    · rw [heq]
      exact { hrefl with }
  | addRun => exact { hrefl with runs := .of_append fun run _ ↦ .refl run }
  | stepRuns hsteps =>
    exact { hrefl with runs := .of_forall₂ (hsteps.imp fun _ _ hstep ↦ hstep.evolves) }
  | @recordEvent event _ queued record hqueued hnew hrecord =>
    obtain ⟨-, hid, -, -⟩ := fromEvent_eq_ok hrecord
    have hmessages : ∀ id ∈ state.inboundEvents.map (·.id),
        (pushInboundEvent record queued state).messageRecordForEvent id =
          state.messageRecordForEvent id := by
      intro id hmem
      refine hstate.messageRecordForEvent_congr hstate'.toConsistent fun message hmessage ↦ ?_
      cases queued with
      | none => exact Iff.rfl
      | some queued =>
        obtain ⟨-, heventId, -⟩ := hstate.queuedMessageForEvent_eq_ok hqueued
        have hne : message ≠ queued := by
          rintro rfl
          rw [← hmessage, heventId] at hmem
          exact find_key_eq_none_iff_notMem.mp hnew hmem
        change message ∈ state.claimedMessages ++ (state.queuedMessages ++ [queued]) ↔ _
        rw [← List.append_assoc, List.mem_append, List.mem_singleton]
        exact or_iff_left hne
    have hevents : state.inboundEvents <+: (pushInboundEvent record queued state).inboundEvents := by
      cases queued <;> exact List.prefix_append _ _
    refine ⟨hevents, fun id hmem ↦ by rw [hmessages id hmem], ?_, ?_, ?_⟩ <;> cases queued
    · exact hrefl.inputs
    · exact hrefl.inputs
    · exact hrefl.runs
    · exact hrefl.runs
    · exact hrefl.deliveries
    · exact hrefl.deliveries
  | enqueue => exact { hrefl with deliveries := .of_append fun delivery _ ↦ .refl delivery }

/-- Every change of a valid state is an evolution. -/
theorem Change.evolves (h : Change state state') (hstate : state.Valid) :
    state.Evolves state' := by
  have hrefl := Evolves.refl state
  have hstate' := h.valid hstate
  cases h with
  | snapshot h => exact h.evolves hstate
  | @claim run input time hrun hpending hsession hid hactive hinput hinputId hinputSession hclaimed
      hmessages =>
    refine { hrefl with
      messages := fun id _ ↦ ?_
      inputs := List.prefix_append _ _
      runs := .of_append fun run _ ↦ .refl run }
    have howned := perm_of_filter_key (ownedOf_claim hstate.toConsistent hmessages)
    rw [hstate.messageRecordForEvent_congr hstate'.toConsistent fun message _ ↦ howned.mem_iff]
  | stepDeliveries hsteps =>
    exact { hrefl with deliveries := .of_forall₂ (hsteps.imp fun _ _ hstep ↦ .of_steps hstep) }
  | complete hruns hadvances =>
    refine { hrefl with
      runs := .of_forall₂ ?_
      deliveries := .of_append fun delivery _ ↦ .refl delivery }
    rw [hruns]
    exact forall₂_replace RunRecord.Evolves.refl (.inr hadvances.descends)

end RuntimeState

end FerrisBridge
