import FerrisBridge.Store.Call

/-!
# The work of the store methods

What each method has done when it succeeds: which operation of the state it has run and how it
commits, or that it answers from what the state already holds. Whatever a method computes is a
change of the loaded state.
-/

open Foundations

namespace FerrisBridge

namespace StateStore

variable {state state' : RuntimeState} {now time : U64} {commit : Commit}

theorem persistInboundEvent_eq_ok {event : Event} {status : InboundEventRecordStatus}
    (h : persistInboundEvent event now state = .ok (status, commit) state') :
    RuntimeState.recordInboundEvent event now state = .ok status state' ∧
      commit = if status = .recorded then .save else .nothing := by
  simp only [persistInboundEvent, estate_bind_eq_ok, estate_pure_eq_ok, Prod.mk.injEq] at h
  obtain ⟨_, _, h, ⟨rfl, rfl⟩, rfl⟩ := h
  exact ⟨h, rfl⟩

theorem claimMessageBatch_eq_ok {runId : RunId} {policy : MessageQueuePolicy}
    {outcome : MessageBatchClaimOutcome}
    (h : claimMessageBatch runId policy time now state = .ok (outcome, commit) state') :
    RuntimeState.claimMessageBatch runId policy time now state = .ok outcome state' ∧
      ((∃ run input, outcome = .claimed run input ∧ commit = .write) ∨
        ∃ next, outcome = .waiting next ∧ commit = .nothing) := by
  simp only [claimMessageBatch, estate_bind_eq_ok] at h
  obtain ⟨outcome', _, hclaim, h⟩ := h
  cases outcome' with
  | claimed run input =>
    simp only [estate_pure_eq_ok, Prod.mk.injEq] at h
    obtain ⟨⟨rfl, rfl⟩, rfl⟩ := h
    exact ⟨hclaim, .inl ⟨run, input, rfl, rfl⟩⟩
  | waiting next =>
    simp only [estate_pure_eq_ok, Prod.mk.injEq] at h
    obtain ⟨⟨rfl, rfl⟩, rfl⟩ := h
    exact ⟨hclaim, .inr ⟨next, rfl, rfl⟩⟩

theorem enqueueOutboundDelivery_eq_ok {delivery : OutboundDeliveryRecord}
    {status : OutboundDeliveryEnqueueStatus}
    (h : enqueueOutboundDelivery delivery now state = .ok (status, commit) state') :
    RuntimeState.enqueueOutboundDelivery delivery now state = .ok status state' ∧
      commit = if status = .queued then .save else .nothing := by
  simp only [enqueueOutboundDelivery, estate_bind_eq_ok, estate_pure_eq_ok, Prod.mk.injEq] at h
  obtain ⟨_, _, h, ⟨rfl, rfl⟩, rfl⟩ := h
  exact ⟨h, rfl⟩

theorem claimNextOutboundDeliveryAttempt_eq_ok {policy : OutboundRetryPolicy}
    {attempt : Option OutboundDeliveryAttempt}
    (h : claimNextOutboundDeliveryAttempt time policy now state = .ok (attempt, commit) state') :
    ∃ claimed, RuntimeState.claimNextOutboundDeliveryWhere time (policy.isDue · time) now state =
        .ok claimed state' ∧
      match claimed with
      | none => attempt = none ∧ commit = .nothing
      | some delivery => commit = .write ∧ ∃ scope made, attempt = some made ∧
          OutboundDeliveryAttempt.fromRecord delivery scope = .ok made := by
  simp only [claimNextOutboundDeliveryAttempt, estate_bind_eq_ok] at h
  obtain ⟨claimed, _, hclaim, h⟩ := h
  cases claimed with
  | none =>
    simp only [estate_pure_eq_ok, Prod.mk.injEq] at h
    obtain ⟨⟨rfl, rfl⟩, rfl⟩ := h
    exact ⟨none, hclaim, rfl, rfl⟩
  | some delivery =>
    simp only [estate_bind_eq_ok, estate_get_eq_ok, question_eq_ok, estate_pure_eq_ok,
      Prod.mk.injEq] at h
    obtain ⟨_, _, ⟨rfl, rfl⟩, session, _, ⟨-, rfl⟩, made, _, ⟨hmade, rfl⟩, ⟨rfl, rfl⟩, rfl⟩ := h
    exact ⟨some delivery, hclaim, rfl, _, made, rfl, hmade⟩

/-- An operation on a delivery whose result is written. -/
theorem writing_eq_ok {α : Type} {operation : EStateM String RuntimeState α} {result : α}
    (h : (do let result ← operation; return (result, .write) : Transaction (α × Commit)) state =
      .ok (result, commit) state') : operation state = .ok result state' ∧ commit = .write := by
  simp only [estate_bind_eq_ok, estate_pure_eq_ok, Prod.mk.injEq] at h
  obtain ⟨_, _, h, ⟨rfl, rfl⟩, rfl⟩ := h
  exact ⟨h, rfl⟩

section Resolutions

variable {id : OutboundDeliveryId} {delivery : OutboundDeliveryRecord}

theorem resolveOutboundDeliveryAsDelivered_eq_ok
    (h : resolveOutboundDeliveryAsDelivered id time now state = .ok (delivery, commit) state') :
    RuntimeState.resolveOutboundDeliveryAsDelivered id time now state = .ok delivery state' ∧
        commit = .write ∨
      state' = state ∧ commit = .confirm ∧ state.outboundDelivery id = some delivery ∧
        delivery.status = .delivered ∧ delivery.deliveredAtUnix = some time := by
  simp only [resolveOutboundDeliveryAsDelivered, estate_bind_eq_ok, estate_get_eq_ok,
    question_eq_ok, okOr_eq_ok] at h
  obtain ⟨_, _, ⟨rfl, rfl⟩, existing, _, ⟨hexisting, rfl⟩, h⟩ := h
  cases hstatus : existing.status with
  | uncertain =>
    simp only [hstatus] at h
    exact .inl (writing_eq_ok h)
  | delivered =>
    simp only [hstatus] at h
    by_cases htime : existing.deliveredAtUnix = some time
    · simp only [htime, if_true, estate_pure_eq_ok, Prod.mk.injEq] at h
      obtain ⟨⟨rfl, rfl⟩, rfl⟩ := h
      exact .inr ⟨rfl, rfl, hexisting, hstatus, htime⟩
    · simp only [htime, if_false] at h
      cases h
  | pending | delivering | failed =>
    simp only [hstatus] at h
    cases h

theorem resolveOutboundDeliveryAsFailed_eq_ok {reason : String}
    (h : resolveOutboundDeliveryAsFailed id time reason now state = .ok (delivery, commit) state') :
    RuntimeState.resolveOutboundDeliveryAsFailed id time reason now state = .ok delivery state' ∧
        commit = .write ∨
      state' = state ∧ commit = .confirm ∧ state.outboundDelivery id = some delivery ∧
        delivery.status = .failed ∧ isBlank reason = false ∧ delivery.updatedAtUnix = time ∧
        delivery.lastError = some reason := by
  simp only [resolveOutboundDeliveryAsFailed, estate_bind_eq_ok, estate_get_eq_ok,
    question_eq_ok, okOr_eq_ok] at h
  obtain ⟨_, _, ⟨rfl, rfl⟩, existing, _, ⟨hexisting, rfl⟩, h⟩ := h
  cases hstatus : existing.status with
  | uncertain =>
    simp only [hstatus] at h
    exact .inl (writing_eq_ok h)
  | failed =>
    simp only [hstatus] at h
    by_cases hblank : isBlank reason = true
    · simp only [hblank, if_true] at h
      cases h
    · by_cases hsame : existing.updatedAtUnix = time ∧ existing.lastError = some reason
      · simp only [hblank, Bool.false_eq_true, if_false, hsame, and_self, if_true, estate_pure_eq_ok,
          Prod.mk.injEq] at h
        obtain ⟨⟨rfl, rfl⟩, rfl⟩ := h
        exact .inr ⟨rfl, rfl, hexisting, hstatus, by simpa using hblank, hsame⟩
      · simp only [hblank, Bool.false_eq_true, if_false, hsame] at h
        cases h
  | pending | delivering | delivered =>
    simp only [hstatus] at h
    cases h

end Resolutions

section Runs

variable {id : RunId}

theorem startAgentRun_eq_ok {input : RunInputRecord}
    (h : startAgentRun id time now state = .ok (input, commit) state') :
    commit = .write ∧ state.runInput id = some input ∧
      ∃ run, state.run id = some run ∧ run.sessionId = input.sessionId ∧
        run.updatedAtUnix ≤ time ∧ RuntimeState.startRun id time now state = .ok () state' := by
  simp only [startAgentRun, estate_bind_eq_ok, estate_get_eq_ok, question_eq_ok, okOr_eq_ok,
    rejectIf_eq_ok, not_not, not_lt, estate_pure_eq_ok, Prod.mk.injEq] at h
  obtain ⟨_, _, ⟨rfl, rfl⟩, run, _, ⟨hrun, rfl⟩, input, _, ⟨hinput, rfl⟩, _, _, ⟨hsession, rfl⟩,
    _, _, ⟨htime, rfl⟩, _, _, hstart, ⟨rfl, rfl⟩, rfl⟩ := h
  exact ⟨rfl, hinput, run, hrun, hsession.symm, htime, hstart⟩

theorem outputDelivery_eq_ok {sessionId : SessionId} {output : Message × ℕ}
    {delivery : OutboundDeliveryRecord}
    (h : outputDelivery id sessionId time output = .ok delivery) :
    output.1.author = .agent ∧ output.1.sessionId = some sessionId ∧
      ∃ deliveryId, outputDeliveryId id output.2 = .ok deliveryId ∧
        OutboundDeliveryRecord.new deliveryId sessionId output.1 time = .ok delivery := by
  simp only [outputDelivery, except_bind_eq_ok, rejectIf_eq_ok, not_not] at h
  obtain ⟨_, hauthor, _, hsession, deliveryId, hid, hnew⟩ := h
  exact ⟨hauthor, hsession, deliveryId, hid, hnew⟩

/-- The deliveries of a completion correspond to its messages in order. -/
theorem outputDeliveries_eq_ok {sessionId : SessionId} {messages : List Message}
    {deliveries : List OutboundDeliveryRecord} :
    outputDeliveries id sessionId messages time = .ok deliveries ↔ messages ≠ [] ∧
      List.Forall₂ (fun output delivery ↦ outputDelivery id sessionId time output = .ok delivery)
        messages.zipIdx deliveries := by
  simp only [outputDeliveries, except_bind_unit_eq_ok, rejectIf_eq_ok, mapM_eq_ok_iff]

theorem exists_new_of_outputDeliveries {sessionId : SessionId} {messages : List Message}
    {deliveries : List OutboundDeliveryRecord}
    (h : outputDeliveries id sessionId messages time = .ok deliveries)
    {delivery : OutboundDeliveryRecord} (hdelivery : delivery ∈ deliveries) :
    ∃ deliveryId message, OutboundDeliveryRecord.new deliveryId sessionId message time =
      .ok delivery := by
  obtain ⟨-, hdeliveries⟩ := outputDeliveries_eq_ok.mp h
  obtain ⟨output, -, houtput⟩ := exists_of_mem_right hdeliveries hdelivery
  obtain ⟨-, -, deliveryId, -, hnew⟩ := outputDelivery_eq_ok houtput
  exact ⟨deliveryId, output.1, hnew⟩

theorem completeAgentRun_eq_ok {messages : List Message} {deliveries : List OutboundDeliveryRecord}
    (h : completeAgentRun id messages time now state = .ok (deliveries, commit) state') :
    ∃ run expected, state.run id = some run ∧
      outputDeliveries id run.sessionId messages time = .ok expected ∧
      (commit = .write ∧ RuntimeState.completeRunWithOutputDeliveries id expected time now state =
          .ok deliveries state' ∨
        commit = .confirm ∧ state' = state ∧ run.status = .completed ∧
          verifyCompletionReplay state run expected time = .ok () ∧
          deliveries = run.outputDeliveryIds.filterMap state.outboundDelivery) := by
  simp only [completeAgentRun, estate_bind_eq_ok, estate_get_eq_ok, question_eq_ok, okOr_eq_ok] at h
  obtain ⟨_, _, ⟨rfl, rfl⟩, run, _, ⟨hrun, rfl⟩, expected, _, ⟨hexpected, rfl⟩, h⟩ := h
  refine ⟨run, expected, hrun, hexpected, ?_⟩
  cases hstatus : run.status with
  | running =>
    simp only [hstatus] at h
    exact .inl (writing_eq_ok h).symm
  | completed =>
    simp only [hstatus, estate_bind_eq_ok, question_eq_ok, estate_pure_eq_ok, Prod.mk.injEq] at h
    obtain ⟨_, _, ⟨hverify, rfl⟩, ⟨rfl, rfl⟩, rfl⟩ := h
    exact .inr ⟨rfl, rfl, rfl, hverify, rfl⟩
  | pending | interrupted | failed | cancelled =>
    simp only [hstatus] at h
    cases h

/-- The tail of a method that ends a running run. -/
theorem ending_eq_ok {operation : EStateM String RuntimeState Unit} {run run' : RunRecord}
    {action missing : String}
    (h : (do
      question <| requireNondecreasingOutcomeTime run time action
      operation
      let ended ← question <| okOr ((← get).run id) missing
      return (ended, .write) : Transaction (RunRecord × Commit)) state =
        .ok (run', commit) state') :
    commit = .write ∧ run.updatedAtUnix ≤ time ∧ operation state = .ok () state' ∧
      state'.run id = some run' := by
  simp only [estate_bind_eq_ok, question_eq_ok, requireNondecreasingOutcomeTime, rejectIf_eq_ok,
    not_lt, estate_get_eq_ok, okOr_eq_ok, estate_pure_eq_ok, Prod.mk.injEq] at h
  obtain ⟨_, _, ⟨htime, rfl⟩, _, _, hoperation, _, _, ⟨rfl, rfl⟩, _, _, ⟨hrun, rfl⟩, ⟨rfl, rfl⟩,
    rfl⟩ := h
  exact ⟨rfl, htime, hoperation, hrun⟩

theorem failAgentRun_eq_ok {run' : RunRecord}
    (h : failAgentRun id time now state = .ok (run', commit) state') :
    commit = .write ∧ RuntimeState.failRun id time now state = .ok () state' ∧
        state'.run id = some run' ∧ (∃ run, state.run id = some run ∧ run.status = .running) ∨
      commit = .confirm ∧ state' = state ∧ state.run id = some run' ∧ run'.status = .failed ∧
        run'.startedAtUnix.isSome ∧ run'.finishedAtUnix = some time := by
  simp only [failAgentRun, estate_bind_eq_ok (f := fun state ↦ _), estate_get_eq_ok] at h
  obtain ⟨_, _, ⟨rfl, rfl⟩, run, _, hlookup, h⟩ := h
  obtain ⟨hrun, rfl⟩ := question_eq_ok.mp hlookup
  cases hstatus : run.status with
  | running =>
    simp only [hstatus] at h
    obtain ⟨hcommit, -, hfail, hrun'⟩ := ending_eq_ok h
    exact .inl ⟨hcommit, hfail, hrun', run, okOr_eq_ok.mp hrun, hstatus⟩
  | failed =>
    simp only [hstatus] at h
    by_cases hsame : run.startedAtUnix.isSome ∧ run.finishedAtUnix = some time
    · simp only [hsame, and_self, if_true, estate_pure_eq_ok, Prod.mk.injEq] at h
      obtain ⟨⟨rfl, rfl⟩, rfl⟩ := h
      exact .inr ⟨rfl, rfl, okOr_eq_ok.mp hrun, hstatus, hsame⟩
    · simp only [hsame, if_false] at h
      cases h
  | pending | interrupted | completed | cancelled =>
    simp only [hstatus] at h
    cases h

theorem interruptAgentRun_eq_ok {run' : RunRecord}
    (h : interruptAgentRun id time now state = .ok (run', commit) state') :
    commit = .write ∧ RuntimeState.interruptRun id time now state = .ok () state' ∧
        state'.run id = some run' ∧
        (∃ run, state.run id = some run ∧ run.status = .running ∧ run.updatedAtUnix ≤ time) ∨
      commit = .confirm ∧ state' = state ∧ state.run id = some run' ∧
        run'.status = .interrupted ∧ run'.startedAtUnix.isSome ∧ run'.updatedAtUnix = time := by
  simp only [interruptAgentRun, estate_bind_eq_ok (f := fun state ↦ _), estate_get_eq_ok] at h
  obtain ⟨_, _, ⟨rfl, rfl⟩, run, _, hlookup, h⟩ := h
  obtain ⟨hrun, rfl⟩ := question_eq_ok.mp hlookup
  cases hstatus : run.status with
  | running =>
    simp only [hstatus] at h
    obtain ⟨hcommit, htime, hinterrupt, hrun'⟩ := ending_eq_ok h
    exact .inl ⟨hcommit, hinterrupt, hrun', run, okOr_eq_ok.mp hrun, hstatus, htime⟩
  | interrupted =>
    simp only [hstatus] at h
    by_cases hsame : run.startedAtUnix.isSome ∧ run.updatedAtUnix = time
    · simp only [hsame, and_self, if_true, estate_pure_eq_ok, Prod.mk.injEq] at h
      obtain ⟨⟨rfl, rfl⟩, rfl⟩ := h
      exact .inr ⟨rfl, rfl, okOr_eq_ok.mp hrun, hstatus, hsame⟩
    · simp only [hsame, if_false] at h
      cases h
  | pending | failed | completed | cancelled =>
    simp only [hstatus] at h
    cases h

end Runs

end StateStore

end FerrisBridge
