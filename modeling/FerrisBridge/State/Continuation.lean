import FerrisBridge.State.MergeValid
import FerrisBridge.State.Operation

/-!
# Snapshots that continue the existing state

A caller that loads the state, calls methods on it and saves the result leaves a snapshot that
continues the state in the file. Merging such a snapshot is the identity: every merge step gives
back the collection of the snapshot, no enqueue time is rebased and the aggregate timestamp stays.
Only the guard against handoffs and completions of durable agent runs can refuse it.
-/

open Foundations

namespace FerrisBridge

namespace RuntimeState

variable {existing candidate state state' : RuntimeState}

/-- What the methods for snapshots keep up between the existing state and the snapshot. -/
structure Continues (existing candidate : RuntimeState) : Prop where
  evolves : existing.Evolves candidate
  outputs : ∀ run ∈ candidate.runs, run.outputDeliveryIds ≠ [] → run ∈ existing.runs
  inputs : candidate.runInputs = existing.runInputs
  queued : ∃ added, candidate.queuedMessages = existing.queuedMessages ++ added ∧
    ∀ message ∈ added, message.eventId ∉ existing.inboundEvents.map (·.id)
  deliveries : ∃ added, candidate.outboundDeliveries = existing.outboundDeliveries ++ added ∧
    ∀ delivery ∈ added, delivery.status = .pending

theorem Continues.refl (existing : RuntimeState) : existing.Continues existing where
  evolves := .refl existing
  outputs _ hrun _ := hrun
  inputs := rfl
  queued := ⟨[], by simp⟩
  deliveries := ⟨[], by simp⟩

/-- A method for snapshots keeps the snapshot a continuation. -/
theorem Continues.step (h : existing.Continues state) (hstate : state.Valid)
    (hchange : SnapshotChange state state') : existing.Continues state' := by
  have hevolves := h.evolves.trans (hchange.evolves hstate)
  cases hchange with
  | refl => exact h
  | upsertSession now hsession =>
    rcases state.upsertSession_sessions _ now with ⟨_, -, -, heq⟩ | ⟨-, heq⟩
    · rw [heq] at hevolves ⊢
      exact { h with evolves := hevolves }
    · rw [heq] at hevolves ⊢
      exact { h with evolves := hevolves }
  | addRun hrun houtputs =>
    exact { h with
      evolves := hevolves
      outputs := forall_mem_concat.mpr ⟨h.outputs, fun hne ↦ absurd houtputs hne⟩ }
  | stepRuns hsteps hle hbound =>
    refine { h with
      evolves := hevolves
      outputs := fun run' hrun' hne ↦ ?_ }
    obtain ⟨run, hrun, rfl | ⟨⟨_, hadvances⟩, heq⟩⟩ := exists_of_mem_right hsteps hrun'
    · exact h.outputs _ hrun hne
    · refine absurd ?_ hne
      rw [heq, (hstate.runs run hrun).outputs_of_active hadvances.descends.previous_active]
  | @recordEvent event _ queued record hqueued hnew hrecord =>
    obtain ⟨added, hadded, hevents⟩ := h.queued
    cases queued with
    | none => exact { h with evolves := hevolves }
    | some queued =>
      obtain ⟨-, heventId, -⟩ := hstate.queuedMessageForEvent_eq_ok hqueued
      refine { h with
        evolves := hevolves
        queued := ⟨added ++ [queued], ?_, forall_mem_concat.mpr ⟨hevents, fun hmem ↦ ?_⟩⟩ }
      · change state.queuedMessages ++ [queued] = _
        rw [hadded, List.append_assoc]
      · rw [heventId] at hmem
        exact find_key_eq_none_iff_notMem.mp hnew ((h.evolves.events.map _).subset hmem)
  | enqueue hdelivery hpending =>
    obtain ⟨added, hadded, hstatus⟩ := h.deliveries
    refine { h with
      evolves := hevolves
      deliveries := ⟨added ++ [_], ?_, forall_mem_concat.mpr ⟨hstatus, hpending⟩⟩ }
    change state.outboundDeliveries ++ [_] = _
    rw [hadded, List.append_assoc]

/-! ## Merging a continuation -/

theorem Continues.mergedRuns_eq (h : existing.Continues candidate) (hcandidate : candidate.Valid) :
    mergedRuns existing candidate = candidate.runs :=
  h.evolves.runs.merge_eq (fun _ _ hevolves ↦ hevolves.id_eq.symm)
    (fun _ _ hevolves ↦ hevolves.imp id RunRecord.isDescendantOf_iff.mpr) hcandidate.run_ids

theorem Continues.mergedEvents_eq (h : existing.Continues candidate)
    (hcandidate : candidate.Valid) :
    mergedEvents existing candidate = candidate.inboundEvents := by
  obtain ⟨added, hadded⟩ := h.evolves.events
  have hnodup := hcandidate.event_ids
  rw [mergedEvents, ← hadded]
  rw [← hadded] at hnodup
  rw [missingFrom_append rfl hnodup]

theorem Continues.mergedDeliveries_eq (h : existing.Continues candidate)
    (hcandidate : candidate.Valid) :
    mergedDeliveries existing candidate = candidate.outboundDeliveries := by
  obtain ⟨added, hadded, -⟩ := h.deliveries
  have hnodup := hcandidate.delivery_ids
  rw [hadded] at hnodup
  rw [mergedDeliveries, hadded, missingFrom_append rfl hnodup]

theorem Continues.mergedQueue_eq (h : existing.Continues candidate) (hexisting : existing.Valid)
    (hcandidate : candidate.Valid) :
    mergedQueue existing candidate = candidate.queuedMessages := by
  obtain ⟨added, hadded, hevents⟩ := h.queued
  have hknown : existing.queuedMessages.filter
      (·.eventId ∉ existing.ownedMessages.map (·.eventId)) = [] :=
    List.filter_eq_nil_iff.mpr fun queued hqueued ↦ by
      have : queued.eventId ∈ existing.ownedMessages.map (·.eventId) :=
        List.mem_map_of_mem (List.mem_append_right _ hqueued)
      simpa using this
  have haddedQueued : addedQueued existing candidate = added := by
    rw [addedQueued, hadded, List.filter_append, hknown, List.nil_append, List.filter_eq_self]
    intro message hmessage
    simp only [decide_eq_true_eq]
    intro hmem
    obtain ⟨owned, howned, heq⟩ := List.mem_map.mp hmem
    exact hevents message hmessage (heq ▸ hexisting.eventId_mem howned)
  have howned : candidate.ownedMessages = existing.ownedMessages ++ added := by
    simp only [ownedMessages, claimedMessages, h.inputs, hadded, List.append_assoc]
  have hordered := orderedBySession_owned hcandidate.toConsistent
  rw [howned] at hordered
  rw [mergedQueue, haddedQueued, hordered.rebaseAll_eq, hadded]

/-- Every merge step gives back the collection of the snapshot. -/
theorem Continues.merged_eq (h : existing.Continues candidate) (hexisting : existing.Valid)
    (hcandidate : candidate.Valid) : merged existing candidate = candidate := by
  have htimes : (mergedTimes existing candidate).foldl max candidate.updatedAtUnix =
      candidate.updatedAtUnix := by
    refine foldl_max_eq_self fun time htime ↦ hcandidate.updated time ?_
    rw [mergedTimes, h.mergedRuns_eq hcandidate, h.mergedEvents_eq hcandidate,
      h.mergedDeliveries_eq hcandidate, h.mergedQueue_eq hexisting hcandidate, ← h.inputs] at htime
    simp only [List.mem_append] at htime
    simp only [recordTimes, List.mem_append]
    tauto
  rw [merged, htimes, h.mergedRuns_eq hcandidate, h.mergedEvents_eq hcandidate,
    h.mergedDeliveries_eq hcandidate, h.mergedQueue_eq hexisting hcandidate, ← h.inputs]

/-- A continuation passes every check but that of the agent-run transitions. -/
theorem Continues.mergeable (h : existing.Continues candidate) (hexisting : existing.Valid)
    (hcandidate : candidate.Valid)
    (hhandoffs : candidate.validateSnapshotAgentRunTransitions (some existing) = .ok ()) :
    Mergeable existing candidate where
  additions delivery hdelivery hnew := by
    obtain ⟨added, hadded, hpending⟩ := h.deliveries
    rw [hadded] at hdelivery
    rcases List.mem_append.mp hdelivery with hmem | hmem
    · exact absurd (List.mem_map_of_mem hmem) (find_key_eq_none_iff_notMem.mp hnew)
    · exact hpending delivery hmem
  handoffs run hrun :=
    (validateSnapshotAgentRunTransition_eq_ok hexisting).mp (forM_eq_ok_iff.mp hhandoffs run hrun)
  outputs run hrun houtputs := by
    rw [RuntimeState.run, find_key_of_mem hexisting.run_ids (h.outputs run hrun houtputs)]
    rfl
  events event hevent existingEvent hexistingEvent := by
    obtain ⟨hmem, hid⟩ := find_key_eq_some hexistingEvent
    have hfound := h.evolves.inboundEvent hexistingEvent
    rw [RuntimeState.inboundEvent, find_key_of_mem hcandidate.event_ids hevent] at hfound
    exact ⟨(Option.some.inj hfound).symm,
      (h.evolves.messages event.id (hid ▸ List.mem_map_of_mem hmem)).symm⟩
  runs run hrun existingRun hexistingRun := by
    obtain ⟨run', hrun', hevolves⟩ := h.evolves.run hexistingRun
    rw [RuntimeState.run, find_key_of_mem hcandidate.run_ids hrun] at hrun'
    obtain rfl := Option.some.inj hrun'
    exact hevolves.imp Eq.symm .inl
  inputs input hinput := by
    rw [h.inputs] at hinput
    exact find_key_of_mem hexisting.input_ids hinput
  deliveries delivery hdelivery existingDelivery hexistingDelivery := by
    obtain ⟨added, hadded, -⟩ := h.deliveries
    have hnodup := hcandidate.delivery_ids
    obtain ⟨hmem, hid⟩ := find_key_eq_some hexistingDelivery
    exact eq_of_key_eq hnodup (hadded ▸ List.mem_append_left _ hmem) hdelivery hid

/-- Every merge step gives the snapshot back. -/
structure MergesToItself (existing candidate : RuntimeState) : Prop where
  runs : preserveRunsFrom existing candidate = .ok candidate
  inputs : preserveRunInputsFrom existing candidate = .ok candidate
  events : preserveInboundEventsFrom existing candidate = .ok candidate
  queued : preserveQueuedMessagesFrom existing candidate = .ok candidate
  deliveries : preserveOutboundDeliveriesFrom existing candidate = .ok candidate

/-- A merge step that gives the collection back and touches the times of its records changes
nothing. -/
theorem Valid.touched_eq (h : candidate.Valid) {times : List U64}
    (htimes : ∀ time ∈ times, time ∈ candidate.recordTimes) :
    { candidate with updatedAtUnix := times.foldl max candidate.updatedAtUnix } = candidate := by
  rw [foldl_max_eq_self fun time htime ↦ h.updated time (htimes time htime)]

theorem Continues.mergesToItself (h : existing.Continues candidate) (hexisting : existing.Valid)
    (hcandidate : candidate.Valid)
    (hhandoffs : candidate.validateSnapshotAgentRunTransitions (some existing) = .ok ()) :
    MergesToItself existing candidate := by
  have hmergeable := h.mergeable hexisting hcandidate hhandoffs
  have hknown : ∀ input ∈ candidate.runInputs, (existing.runInput input.runId).isSome :=
    fun input hinput ↦ by simp [hmergeable.inputs input hinput]
  constructor
  · refine (preserveRunsFrom_eq_ok hexisting.run_ids hcandidate.run_ids).mpr ⟨hmergeable.runs, ?_⟩
    rw [h.mergedRuns_eq hcandidate]
    exact hcandidate.touched_eq fun time htime ↦ by simp [recordTimes, htime]
  · refine (preserveRunInputsFrom_eq_ok hknown).mpr ⟨hmergeable.inputs, ?_⟩
    rw [← h.inputs]
    exact hcandidate.touched_eq fun time htime ↦ by simp [recordTimes, htime]
  · refine preserveInboundEventsFrom_eq_ok.mpr ⟨fun event hevent existingEvent hfound ↦
      (hmergeable.events event hevent existingEvent hfound).1, ?_⟩
    rw [h.mergedEvents_eq hcandidate]
    exact hcandidate.touched_eq fun time htime ↦ by simp [recordTimes, htime]
  · rw [preserveQueuedMessagesFrom_eq_ok _ hexisting hcandidate hmergeable.events h.inputs rfl,
      h.mergedQueue_eq hexisting hcandidate]
    exact congrArg _ (hcandidate.touched_eq fun time htime ↦ by simp [recordTimes, htime])
  · refine preserveOutboundDeliveriesFrom_eq_ok.mpr ⟨hmergeable.deliveries, ?_⟩
    rw [h.mergedDeliveries_eq hcandidate]
    exact hcandidate.touched_eq fun time htime ↦ by simp [recordTimes, htime]

/-- A run with a durable input that a snapshot newly hands off or completes. -/
def NewlyHandedOff (existing : RuntimeState) (run : RunRecord) : Prop :=
  (existing.runInput run.id).isSome ∧ run ∉ existing.runs ∧
    (run.status = .running ∨ run.status = .completed)

theorem validateSnapshotAgentRunTransition_eq_error (hexisting : existing.Valid) {run : RunRecord}
    {err : String} (h : validateSnapshotAgentRunTransition existing run = .error err) :
    existing.NewlyHandedOff run := by
  have hrefused : ¬validateSnapshotAgentRunTransition existing run = .ok () := by simp [h]
  rw [validateSnapshotAgentRunTransition_eq_ok hexisting] at hrefused
  push Not at hrefused
  obtain ⟨existingRun, hrun, hinput, hne, -, hstatus⟩ := hrefused
  refine ⟨hinput, fun hmem ↦ hne ?_, ?_⟩
  · rw [RuntimeState.run, find_key_of_mem hexisting.run_ids hmem] at hrun
    exact Option.some.inj hrun
  · by_cases hrunning : run.status = .running
    · exact .inl hrunning
    · exact .inr (hstatus hrunning)

/-- Merging a continuation gives the continuation back, unless the guard against handoffs and
completions of durable agent runs refuses it. -/
theorem Continues.mergeSnapshot_eq (h : existing.Continues candidate) (hexisting : existing.Valid)
    (hcandidate : candidate.Valid) :
    mergeSnapshot candidate (some existing) = .ok candidate ∨
      ∃ err, candidate.validateSnapshotAgentRunTransitions (some existing) = .error err ∧
        mergeSnapshot candidate (some existing) = .error err ∧
        ∃ run ∈ candidate.runs, existing.NewlyHandedOff run := by
  cases hguard : candidate.validateSnapshotAgentRunTransitions (some existing) with
  | ok u =>
    exact .inl ((mergeSnapshot_eq_ok hexisting hcandidate).mpr
      ⟨h.mergeable hexisting hcandidate hguard, h.merged_eq hexisting hcandidate⟩)
  | error err =>
    obtain ⟨run, hrun, herror⟩ := forM_eq_error hguard
    refine .inr ⟨err, rfl, ?_, run, hrun,
      validateSnapshotAgentRunTransition_eq_error hexisting herror⟩
    have hadditions : candidate.validateSnapshotOutboundAdditions (some existing) = .ok () := by
      refine validateSnapshotOutboundAdditions_eq_ok.mpr fun delivery hdelivery hnew ↦ ?_
      obtain ⟨added, hadded, hpending⟩ := h.deliveries
      rw [hadded] at hdelivery
      rcases List.mem_append.mp hdelivery with hmem | hmem
      · exact absurd (List.mem_map_of_mem hmem) (find_key_eq_none_iff_notMem.mp hnew)
      · exact hpending delivery hmem
    have hinputs : candidate.validateSnapshotRunInputAdditions (some existing) = .ok () := by
      refine validateSnapshotRunInputAdditions_eq_ok.mpr fun input hinput ↦ ?_
      rw [h.inputs] at hinput
      exact find_key_isSome.mpr (List.mem_map_of_mem hinput)
    rw [mergeSnapshot, hadditions, except_ok_bind, hinputs, except_ok_bind, hguard]
    rfl

end RuntimeState

end FerrisBridge
