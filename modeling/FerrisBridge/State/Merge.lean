import FerrisBridge.State.Snapshot

/-!
# The result of a snapshot merge

The exact result of merging a valid candidate into a valid existing state: `Mergeable` is what the
guards and the merge steps accept, and `merged` is the state they build. The records that only the
candidate has follow those of the existing state, in their order; only the enqueue times of new
messages may be raised.
-/

open Foundations

namespace FerrisBridge

namespace RuntimeState

/-! ## Touching the aggregate timestamp -/

theorem touchEach_eq (times : List U64) (state : RuntimeState) :
    touchEach times state =
      { state with updatedAtUnix := times.foldl max state.updatedAtUnix } := by
  unfold touchEach
  induction times generalizing state with
  | nil => rfl
  | cons time rest ih => exact ih (touchAt time state)

theorem le_foldl_max (times : List U64) (start : U64) :
    start ≤ times.foldl max start ∧ ∀ time ∈ times, time ≤ times.foldl max start := by
  induction times generalizing start with
  | nil => exact ⟨le_rfl, nofun⟩
  | cons first rest ih =>
    obtain ⟨hstart, hrest⟩ := ih (max start first)
    exact ⟨(le_max_left _ _).trans hstart,
      List.forall_mem_cons.mpr ⟨(le_max_right _ _).trans hstart, hrest⟩⟩

theorem foldl_max_eq_self {times : List U64} {start : U64} (h : ∀ time ∈ times, time ≤ start) :
    times.foldl max start = start := by
  induction times with
  | nil => rfl
  | cons first rest ih =>
    obtain ⟨hfirst, hrest⟩ := List.forall_mem_cons.mp h
    rw [List.foldl_cons, max_eq_left hfirst, ih hrest]

/-! ## Rebasing enqueue times -/

/-- The last enqueue time of each session, in a list of messages. -/
def lastEnqueuedAt (owned : List QueuedMessage) (id : SessionId) : Option U64 :=
  (lastOf (·.sessionId) id owned).map (·.enqueuedAtUnix)

/-- Each message in turn is queued no earlier than the last message of its session before it. -/
def rebaseAll (owned : List QueuedMessage) : List QueuedMessage → List QueuedMessage
  | [] => []
  | queued :: rest =>
    let rebased := rebaseAfter (lastEnqueuedAt owned) queued
    rebased :: rebaseAll (owned ++ [rebased]) rest

/-- The same message, queued later. -/
def QueuedLater (queued rebased : QueuedMessage) : Prop :=
  rebased.identity = queued.identity ∧ queued.enqueuedAtUnix ≤ rebased.enqueuedAtUnix

/-- The messages of every session are ordered by their enqueue times. -/
def OrderedBySession (owned : List QueuedMessage) : Prop :=
  owned.Pairwise fun first second ↦
    first.sessionId = second.sessionId → first.enqueuedAtUnix ≤ second.enqueuedAtUnix

variable {owned messages : List QueuedMessage}

theorem rebaseAfter_spec (lastOwned : SessionId → Option U64) (queued : QueuedMessage) :
    ∃ time, rebaseAfter lastOwned queued = queued.rebaseEnqueuedAtUnix time := by
  unfold rebaseAfter
  cases lastOwned queued.sessionId with
  | some time => exact ⟨time, rfl⟩
  | none => exact ⟨queued.enqueuedAtUnix, by simp [QueuedMessage.rebaseEnqueuedAtUnix]⟩

theorem queuedLater_rebaseAfter (lastOwned : SessionId → Option U64) (queued : QueuedMessage) :
    QueuedLater queued (rebaseAfter lastOwned queued) := by
  obtain ⟨time, heq⟩ := rebaseAfter_spec lastOwned queued
  rw [heq]
  exact ⟨rfl, le_max_left _ _⟩

theorem QueuedLater.valid {queued rebased : QueuedMessage} (h : QueuedLater queued rebased)
    (hqueued : queued.Valid) : rebased.Valid := by
  obtain ⟨hidentity, hle⟩ := h
  simp only [QueuedMessage.identity, Prod.mk.injEq] at hidentity
  obtain ⟨-, hsession, hmessage, hreceived⟩ := hidentity
  refine ⟨hmessage ▸ hqueued.author, ?_, hreceived ▸ hqueued.received_le.trans hle⟩
  rw [hmessage, hsession]
  exact hqueued.session

theorem rebaseAll_append (first second : List QueuedMessage) :
    rebaseAll owned (first ++ second) =
      rebaseAll owned first ++ rebaseAll (owned ++ rebaseAll owned first) second := by
  induction first generalizing owned with
  | nil => simp [rebaseAll]
  | cons queued rest ih => simp [rebaseAll, ih, List.append_assoc]

theorem forall₂_rebaseAll : List.Forall₂ QueuedLater messages (rebaseAll owned messages) := by
  induction messages generalizing owned with
  | nil => exact .nil
  | cons queued rest ih => exact .cons (queuedLater_rebaseAfter _ queued) ih

theorem map_eventId_rebaseAll :
    (rebaseAll owned messages).map (·.eventId) = messages.map (·.eventId) :=
  map_eq_of_forall₂ (fun _ _ h ↦ QueuedMessage.eventId_eq_of_identity_eq h.1) forall₂_rebaseAll

theorem OrderedBySession.lastOf_le (h : OrderedBySession owned) (queued : QueuedMessage) :
    (∀ last, lastOf (·.sessionId) queued.sessionId owned = some last →
        last.enqueuedAtUnix ≤ queued.enqueuedAtUnix) ↔
      ∀ message ∈ owned, message.sessionId = queued.sessionId →
        message.enqueuedAtUnix ≤ queued.enqueuedAtUnix :=
  forall_lastOf_iff (R := fun first second : QueuedMessage ↦
    first.enqueuedAtUnix ≤ second.enqueuedAtUnix) (fun _ _ _ ↦ le_trans) h queued

theorem OrderedBySession.concat (h : OrderedBySession owned) (queued : QueuedMessage) :
    OrderedBySession (owned ++ [rebaseAfter (lastEnqueuedAt owned) queued]) := by
  refine List.pairwise_append.mpr ⟨h, List.pairwise_singleton _ _, fun message hmessage rebased
    hrebased hsession ↦ ?_⟩
  obtain rfl := List.mem_singleton.mp hrebased
  have hsessionId := QueuedMessage.sessionId_eq_of_identity_eq
    (queuedLater_rebaseAfter (lastEnqueuedAt owned) queued).1
  refine (h.lastOf_le _).mp (fun last hlast ↦ ?_) message hmessage hsession
  rw [hsessionId] at hlast
  simp only [rebaseAfter, lastEnqueuedAt, hlast, Option.map_some]
  exact le_max_right _ _

/-- Rebasing restores the order of every session. -/
theorem OrderedBySession.rebaseAll (h : OrderedBySession owned) :
    OrderedBySession (owned ++ rebaseAll owned messages) := by
  induction messages generalizing owned with
  | nil => simpa [RuntimeState.rebaseAll] using h
  | cons queued rest ih =>
    have := ih (h.concat queued)
    rwa [List.append_assoc] at this

/-- Messages that already follow in order are not rebased. -/
theorem OrderedBySession.rebaseAll_eq (h : OrderedBySession (owned ++ messages)) :
    RuntimeState.rebaseAll owned messages = messages := by
  induction messages generalizing owned with
  | nil => rfl
  | cons queued rest ih =>
    obtain ⟨howned, -, hboth⟩ := List.pairwise_append.mp h
    have hlast := (OrderedBySession.lastOf_le howned queued).mpr
      fun message hmessage hsession ↦ hboth message hmessage queued List.mem_cons_self hsession
    have hrebased : rebaseAfter (lastEnqueuedAt owned) queued = queued := by
      simp only [rebaseAfter, lastEnqueuedAt]
      cases hfind : lastOf (·.sessionId) queued.sessionId owned with
      | none => rfl
      | some last =>
        simp [QueuedMessage.rebaseEnqueuedAtUnix, max_eq_left (hlast last hfind)]
    rw [RuntimeState.rebaseAll, hrebased, ih (by simpa using h)]

/-! ## The exact result -/

variable {existing candidate state : RuntimeState} {u : Unit}

/-- The queued messages that only the candidate has. -/
def addedQueued (existing candidate : RuntimeState) : List QueuedMessage :=
  candidate.queuedMessages.filter (·.eventId ∉ existing.ownedMessages.map (·.eventId))

def mergedRuns (existing candidate : RuntimeState) : List RunRecord :=
  existing.runs.map (resolveVersion RunRecord.id RunRecord.isDescendantOf candidate.runs) ++
    missingFrom RunRecord.id existing.runs candidate.runs

def mergedEvents (existing candidate : RuntimeState) : List InboundEventRecord :=
  existing.inboundEvents ++
    missingFrom InboundEventRecord.id existing.inboundEvents candidate.inboundEvents

def mergedDeliveries (existing candidate : RuntimeState) : List OutboundDeliveryRecord :=
  existing.outboundDeliveries ++
    missingFrom OutboundDeliveryRecord.id existing.outboundDeliveries candidate.outboundDeliveries

def mergedQueue (existing candidate : RuntimeState) : List QueuedMessage :=
  existing.queuedMessages ++ rebaseAll existing.ownedMessages (addedQueued existing candidate)

/-- The times the merge steps touch, in the order of the steps. -/
def mergedTimes (existing candidate : RuntimeState) : List U64 :=
  (mergedRuns existing candidate).map (·.updatedAtUnix) ++
    existing.runInputs.map (·.claimedAtUnix) ++
    (mergedEvents existing candidate).map (·.recordedAtUnix) ++
    (mergedQueue existing candidate).map (·.enqueuedAtUnix) ++
    (mergedDeliveries existing candidate).map (·.updatedAtUnix)

/-- The state that a successful merge builds. -/
def merged (existing candidate : RuntimeState) : RuntimeState :=
  { sessions := candidate.sessions
    runs := mergedRuns existing candidate
    runInputs := existing.runInputs
    inboundEvents := mergedEvents existing candidate
    queuedMessages := mergedQueue existing candidate
    outboundDeliveries := mergedDeliveries existing candidate
    updatedAtUnix := (mergedTimes existing candidate).foldl max candidate.updatedAtUnix }

/-- An event that both states have has the same record and the same message, if any, in both. -/
def SharesEvents (existing candidate : RuntimeState) : Prop :=
  ∀ event ∈ candidate.inboundEvents, ∀ existingEvent,
    existing.inboundEvent event.id = some existingEvent → existingEvent = event ∧
      (existing.messageRecordForEvent event.id).map (·.identity) =
        (candidate.messageRecordForEvent event.id).map (·.identity)

/-- What the guards and the merge steps accept. -/
structure Mergeable (existing candidate : RuntimeState) : Prop where
  additions : ∀ delivery ∈ candidate.outboundDeliveries,
    existing.outboundDelivery delivery.id = none → delivery.status = .pending
  handoffs : ∀ run ∈ candidate.runs, ∀ existingRun, existing.run run.id = some existingRun →
    (existing.runInput run.id).isSome → run = existingRun ∨ existingRun.Descends run ∨
      run.status ≠ .running ∧ run.status ≠ .completed
  outputs : ∀ run ∈ candidate.runs, run.outputDeliveryIds ≠ [] →
    (existing.run run.id).map (·.outputDeliveryIds) = some run.outputDeliveryIds
  events : SharesEvents existing candidate
  runs : ∀ run ∈ candidate.runs, ∀ existingRun, existing.run run.id = some existingRun →
    existingRun = run ∨ run.Descends existingRun ∨ existingRun.Descends run
  inputs : ∀ input ∈ candidate.runInputs, existing.runInput input.runId = some input
  deliveries : ∀ delivery ∈ candidate.outboundDeliveries, ∀ existingDelivery,
    existing.outboundDelivery delivery.id = some existingDelivery → existingDelivery = delivery

theorem validateSnapshotOutboundAdditions_eq_ok {existing : Option RuntimeState} :
    candidate.validateSnapshotOutboundAdditions existing = .ok u ↔
      ∀ delivery ∈ candidate.outboundDeliveries,
        existing.bind (·.outboundDelivery delivery.id) = none → delivery.status = .pending := by
  simp only [validateSnapshotOutboundAdditions, forM_eq_ok_iff, rejectIf_eq_ok, not_and, not_not,
    Option.isSome_eq_false_iff, Option.isNone_iff_eq_none]

theorem validateSnapshotRunInputAdditions_eq_ok {existing : Option RuntimeState} :
    candidate.validateSnapshotRunInputAdditions existing = .ok u ↔
      ∀ input ∈ candidate.runInputs, (existing.bind (·.runInput input.runId)).isSome := by
  simp only [validateSnapshotRunInputAdditions, forM_eq_ok_iff, rejectIf_eq_ok,
    Bool.not_eq_false]

theorem validateSnapshotRunOutputAdditions_eq_ok {existing : Option RuntimeState} :
    candidate.validateSnapshotRunOutputAdditions existing = .ok u ↔
      ∀ run ∈ candidate.runs, run.outputDeliveryIds ≠ [] →
        (existing.bind (·.run run.id)).map (·.outputDeliveryIds) = some run.outputDeliveryIds := by
  rw [validateSnapshotRunOutputAdditions, forM_eq_ok_iff]
  refine forall₂_congr fun run _ ↦ ?_
  split <;> simp_all

theorem validateSnapshotAgentRunTransition_eq_ok (hexisting : existing.Valid) {run : RunRecord} :
    validateSnapshotAgentRunTransition existing run = .ok u ↔
      ∀ existingRun, existing.run run.id = some existingRun → (existing.runInput run.id).isSome →
        run = existingRun ∨ existingRun.Descends run ∨
          run.status ≠ .running ∧ run.status ≠ .completed := by
  unfold validateSnapshotAgentRunTransition
  cases hinput : existing.runInput run.id with
  | none => simp
  | some input =>
    obtain ⟨hmem, hid⟩ := find_key_eq_some hinput
    obtain ⟨existingRun, hrun, -⟩ := hexisting.input_runs input hmem
    rw [hid] at hrun
    simp only [Option.isNone_some, Bool.false_eq_true, if_false, hrun, okOr, except_ok_bind,
      Option.some.injEq, Option.isSome_some, forall_const, forall_eq']
    rw [← RunRecord.isDescendantOf_iff, ← or_assoc]
    by_cases hkept : run = existingRun ∨ existingRun.isDescendantOf run = true
    · simp [hkept]
    · rw [if_neg hkept, rejectIf_eq_ok, not_or, or_iff_right hkept]

theorem validateSharedInboundEventIdentity_eq_ok :
    candidate.validateSharedInboundEventIdentity existing = .ok u ↔
      SharesEvents existing candidate := by
  rw [validateSharedInboundEventIdentity, forM_eq_ok_iff]
  refine forall₂_congr fun event _ ↦ ?_
  rw [validateSharedInboundEvent, inboundEvent]
  cases existing.inboundEvents.find? (·.id = event.id) with
  | none => simp
  | some existingEvent =>
    cases existing.messageRecordForEvent event.id <;>
      cases candidate.messageRecordForEvent event.id <;>
      simp [except_bind_unit_eq_ok, QueuedMessage.hasSameIdentity_iff]

theorem preserveRunsFrom_eq_ok (hexisting : (existing.runs.map (·.id)).Nodup)
    (hstate : (state.runs.map (·.id)).Nodup) {state' : RuntimeState} :
    preserveRunsFrom existing state = .ok state' ↔
      (∀ run ∈ state.runs, ∀ existingRun, existing.run run.id = some existingRun →
        existingRun = run ∨ run.Descends existingRun ∨ existingRun.Descends run) ∧
      { state with
        runs := mergedRuns existing state
        updatedAtUnix :=
          ((mergedRuns existing state).map (·.updatedAtUnix)).foldl max state.updatedAtUnix } =
        state' := by
  simp only [preserveRunsFrom, except_bind_eq_ok, mergeEvolving_eq_ok_iff hexisting hstate,
    except_pure_eq_ok, touchEach_eq, RunRecord.isDescendantOf_iff, mergedRuns]
  constructor
  · rintro ⟨_, ⟨hcompatible, rfl⟩, h⟩
    exact ⟨hcompatible, h⟩
  · rintro ⟨hcompatible, h⟩
    exact ⟨_, ⟨hcompatible, rfl⟩, h⟩

theorem preserveRunInputsFrom_eq_ok {state' : RuntimeState}
    (hknown : ∀ input ∈ state.runInputs, (existing.runInput input.runId).isSome) :
    preserveRunInputsFrom existing state = .ok state' ↔
      (∀ input ∈ state.runInputs, existing.runInput input.runId = some input) ∧
      { state with
        runInputs := existing.runInputs
        updatedAtUnix :=
          (existing.runInputs.map (·.claimedAtUnix)).foldl max state.updatedAtUnix } = state' := by
  have hmissing : missingFrom RunInputRecord.runId existing.runInputs state.runInputs = [] :=
    missingFrom_eq_nil fun input hinput ↦ find_key_isSome.mp (hknown input hinput)
  simp only [preserveRunInputsFrom, except_bind_eq_ok, mergeAppendOnly_eq_ok_iff, hmissing,
    List.append_nil, except_pure_eq_ok, touchEach_eq]
  constructor
  · rintro ⟨_, ⟨hcompatible, rfl⟩, h⟩
    refine ⟨fun input hinput ↦ ?_, h⟩
    obtain ⟨existingInput, hexisting⟩ := Option.isSome_iff_exists.mp (hknown input hinput)
    rw [hexisting, hcompatible input hinput existingInput hexisting]
  · rintro ⟨hcompatible, h⟩
    refine ⟨_, ⟨fun input hinput existingInput hexisting ↦ ?_, rfl⟩, h⟩
    exact Option.some.inj (hexisting.symm.trans (hcompatible input hinput))

theorem preserveInboundEventsFrom_eq_ok {state' : RuntimeState} :
    preserveInboundEventsFrom existing state = .ok state' ↔
      (∀ event ∈ state.inboundEvents, ∀ existingEvent,
        existing.inboundEvent event.id = some existingEvent → existingEvent = event) ∧
      { state with
        inboundEvents := mergedEvents existing state
        updatedAtUnix :=
          ((mergedEvents existing state).map (·.recordedAtUnix)).foldl max state.updatedAtUnix } =
        state' := by
  simp only [preserveInboundEventsFrom, except_bind_eq_ok, mergeAppendOnly_eq_ok_iff,
    except_pure_eq_ok, touchEach_eq, mergedEvents]
  constructor
  · rintro ⟨_, ⟨hcompatible, rfl⟩, h⟩
    exact ⟨hcompatible, h⟩
  · rintro ⟨hcompatible, h⟩
    exact ⟨_, ⟨hcompatible, rfl⟩, h⟩

theorem preserveOutboundDeliveriesFrom_eq_ok {state' : RuntimeState} :
    preserveOutboundDeliveriesFrom existing state = .ok state' ↔
      (∀ delivery ∈ state.outboundDeliveries, ∀ existingDelivery,
        existing.outboundDelivery delivery.id = some existingDelivery →
          existingDelivery = delivery) ∧
      { state with
        outboundDeliveries := mergedDeliveries existing state
        updatedAtUnix := ((mergedDeliveries existing state).map (·.updatedAtUnix)).foldl max
          state.updatedAtUnix } = state' := by
  simp only [preserveOutboundDeliveriesFrom, except_bind_eq_ok, mergeAppendOnly_eq_ok_iff,
    except_pure_eq_ok, touchEach_eq, mergedDeliveries]
  constructor
  · rintro ⟨_, ⟨hcompatible, rfl⟩, h⟩
    exact ⟨hcompatible, h⟩
  · rintro ⟨hcompatible, h⟩
    exact ⟨_, ⟨hcompatible, rfl⟩, h⟩

/-! ## The queue step -/

theorem foldl_insertLastOwned (done list : List QueuedMessage) :
    list.foldl (fun lastOwned queued ↦ insertLastOwned lastOwned queued.sessionId queued)
      (lastEnqueuedAt done) = lastEnqueuedAt (done ++ list) := by
  induction list generalizing done with
  | nil => simp
  | cons queued rest ih =>
    have hstep : insertLastOwned (lastEnqueuedAt done) queued.sessionId queued =
        lastEnqueuedAt (done ++ [queued]) := update_lastOf (f := QueuedMessage.enqueuedAtUnix)
    rw [List.foldl_cons, hstep, ih, List.append_assoc, List.singleton_append]

/-- The map of the source holds the last enqueue times of the claimed and the kept messages. -/
theorem lastOwnedEnqueuedAtBySession_eq (hinputs : ∀ input ∈ state.runInputs, input.Valid)
    (kept : List QueuedMessage) :
    state.lastOwnedEnqueuedAtBySession kept = lastEnqueuedAt (state.claimedMessages ++ kept) := by
  have hclaimed : state.runInputs.foldl (fun lastOwned input ↦ input.messages.foldl
      (fun lastOwned message ↦ insertLastOwned lastOwned input.sessionId message) lastOwned)
      (fun _ ↦ none) = lastEnqueuedAt state.claimedMessages := by
    have hnone : (fun _ ↦ none) = lastEnqueuedAt [] := rfl
    have happend := foldl_insertLastOwned [] state.claimedMessages
    rw [List.nil_append, claimedMessages, List.foldl_flatMap] at happend
    rw [hnone, claimedMessages, ← happend]
    refine List.foldl_ext _ _ _ fun lastOwned input hinput ↦ ?_
    refine List.foldl_ext _ _ _ fun lastOwned message hmessage ↦ ?_
    rw [(hinputs input hinput).messages_session message hmessage]
  rw [lastOwnedEnqueuedAtBySession, hclaimed, foldl_insertLastOwned]

/-- Messages of one event in both states have the same identity. -/
theorem SharesEvents.identity_eq (h : SharesEvents existing candidate) (hexisting : existing.Valid)
    (hcandidate : candidate.Valid) {owned message : QueuedMessage}
    (howned : owned ∈ existing.ownedMessages) (hmessage : message ∈ candidate.ownedMessages)
    (hid : owned.eventId = message.eventId) : owned.identity = message.identity := by
  obtain ⟨existingEvent, hexistingEvent, -⟩ := hexisting.recorded owned howned
  obtain ⟨event, hevent, -⟩ := hcandidate.recorded message hmessage
  obtain ⟨hmem, heventId⟩ := find_key_eq_some hevent
  rw [hid, ← heventId] at hexistingEvent
  obtain ⟨-, hidentity⟩ := h event hmem existingEvent hexistingEvent
  rw [heventId, hexisting.messageRecordForEvent_eq_some.mpr ⟨howned, hid⟩,
    hcandidate.messageRecordForEvent_eq_some.mpr ⟨hmessage, rfl⟩] at hidentity
  exact Option.some.inj hidentity

/-- No message of the existing queue is claimed. -/
theorem preserveExistingQueued_eq_ok (hexisting : existing.Valid)
    (hinputs : state.runInputs = existing.runInputs) :
    existing.queuedMessages.foldlM state.preserveExistingQueued [] =
      .ok existing.queuedMessages := by
  refine (foldlM_eq_ok_iff (id) (fun _ _ ↦ True)
    (fun done queued hvisited kept ↦ ?_) _).mpr ⟨EachAfter.const.mpr fun _ _ ↦ trivial, rfl⟩
  have hqueued : queued ∈ existing.queuedMessages := hvisited.subset (by simp)
  have hnone : state.claimedMessageForEvent queued.eventId = none := by
    refine find_key_eq_none.mpr fun claimed hclaimed heq ↦ ?_
    rw [claimedMessages, hinputs] at hclaimed
    have hdisjoint := hexisting.owned_ids
    rw [ownedMessages, List.map_append, List.nodup_append] at hdisjoint
    exact hdisjoint.2.2 _ (List.mem_map_of_mem hclaimed) _ (List.mem_map_of_mem hqueued) heq
  simp [preserveExistingQueued, hnone]

theorem preserveCandidateQueued_eq_ok (hexisting : existing.Valid) (hcandidate : candidate.Valid)
    (hevents : SharesEvents existing candidate) (hinputs : state.runInputs = existing.runInputs)
    {loop : QueueMerge} {queued : QueuedMessage} (hqueued : queued ∈ candidate.queuedMessages) :
    preserveCandidateQueued state existing loop queued =
      .ok (if queued.eventId ∈ existing.ownedMessages.map (·.eventId) then loop else
        let rebased := rebaseAfter loop.lastOwnedEnqueuedAtBySession queued
        { merged := loop.merged ++ [rebased]
          lastOwnedEnqueuedAtBySession :=
            insertLastOwned loop.lastOwnedEnqueuedAtBySession rebased.sessionId rebased }) := by
  have hclaimedMessages : state.claimedMessages = existing.claimedMessages := by
    rw [claimedMessages, claimedMessages, hinputs]
  have hidentity : ∀ owned ∈ existing.ownedMessages, owned.eventId = queued.eventId →
      owned.hasSameIdentity queued = true := fun owned howned hid ↦
    QueuedMessage.hasSameIdentity_iff.mpr <| hevents.identity_eq hexisting hcandidate howned
      (List.mem_append_right _ hqueued) hid
  unfold preserveCandidateQueued claimedMessageForEvent
  rw [hclaimedMessages]
  cases hclaimed : existing.claimedMessages.find? (·.eventId = queued.eventId) with
  | some claimed =>
    obtain ⟨hmem, hid⟩ := find_key_eq_some hclaimed
    have howned : claimed ∈ existing.ownedMessages := List.mem_append_left _ hmem
    rw [if_pos (List.mem_map.mpr ⟨claimed, howned, hid⟩)]
    simp [hidentity claimed howned hid]
  | none =>
    cases hfind : existing.queuedMessages.find? (·.eventId = queued.eventId) with
    | some existingQueued =>
      obtain ⟨hmem, hid⟩ := find_key_eq_some hfind
      have howned : existingQueued ∈ existing.ownedMessages := List.mem_append_right _ hmem
      rw [if_pos (List.mem_map.mpr ⟨existingQueued, howned, hid⟩)]
      simp [hidentity existingQueued howned hid]
    | none =>
      have hnew : queued.eventId ∉ existing.ownedMessages.map (·.eventId) := by
        rw [ownedMessages, List.map_append, List.mem_append, not_or]
        exact ⟨find_key_eq_none_iff_notMem.mp hclaimed, find_key_eq_none_iff_notMem.mp hfind⟩
      rw [if_neg hnew]

theorem preserveQueuedMessagesFrom_eq_ok (state : RuntimeState) (hexisting : existing.Valid)
    (hcandidate : candidate.Valid) (hevents : SharesEvents existing candidate)
    (hinputs : state.runInputs = existing.runInputs)
    (hqueued : state.queuedMessages = candidate.queuedMessages) :
    preserveQueuedMessagesFrom existing state = .ok { state with
      queuedMessages := mergedQueue existing candidate
      updatedAtUnix := ((mergedQueue existing candidate).map (·.enqueuedAtUnix)).foldl max
        state.updatedAtUnix } := by
  have hlast : state.lastOwnedEnqueuedAtBySession existing.queuedMessages =
      lastEnqueuedAt existing.ownedMessages := by
    rw [lastOwnedEnqueuedAtBySession_eq (hinputs ▸ hexisting.inputs), claimedMessages, hinputs]
    rfl
  -- The loop has added the rebased messages that only the candidate has.
  let rebased (done : List QueuedMessage) : List QueuedMessage := rebaseAll existing.ownedMessages
    (done.filter (·.eventId ∉ existing.ownedMessages.map (·.eventId)))
  let merging (done : List QueuedMessage) : QueueMerge :=
    ⟨existing.queuedMessages ++ rebased done, lastEnqueuedAt (existing.ownedMessages ++ rebased done)⟩
  have hloop : candidate.queuedMessages.foldlM (preserveCandidateQueued state existing)
      (merging []) = .ok (merging candidate.queuedMessages) := by
    refine (foldlM_eq_ok_iff merging (fun _ _ ↦ True) (fun done queued hvisited loop ↦ ?_) _).mpr
      ⟨EachAfter.const.mpr fun _ _ ↦ trivial, rfl⟩
    rw [preserveCandidateQueued_eq_ok hexisting hcandidate hevents hinputs
      (hvisited.subset (by simp)), true_and, Except.ok.injEq]
    simp only [merging, rebased, List.filter_append]
    by_cases hmem : queued.eventId ∈ existing.ownedMessages.map (·.eventId)
    · rw [if_pos hmem, List.filter_singleton, decide_eq_false (not_not.mpr hmem)]
      simp
    · rw [if_neg hmem, List.filter_singleton, decide_eq_true hmem]
      simp only [cond_true, rebaseAll_append, rebaseAll, ← List.append_assoc]
      rw [← foldl_insertLastOwned _ [_]]
      rfl
  have hstart : rebased [] = [] := rfl
  simp only [merging, hstart, List.append_nil] at hloop
  rw [preserveQueuedMessagesFrom, preserveExistingQueued_eq_ok hexisting hinputs, hqueued,
    except_ok_bind, hlast, hloop, except_ok_bind, touchEach_eq]
  rfl

/-! ## The whole merge -/

/-- The exact result of a merge into an existing state. -/
theorem mergeSnapshot_eq_ok (hexisting : existing.Valid) (hcandidate : candidate.Valid)
    {state' : RuntimeState} :
    mergeSnapshot candidate (some existing) = .ok state' ↔
      Mergeable existing candidate ∧ merged existing candidate = state' := by
  have hqueue := fun state ↦ preserveQueuedMessagesFrom_eq_ok state hexisting hcandidate
  have hmerged : ({ candidate with
      runs := mergedRuns existing candidate
      runInputs := existing.runInputs
      inboundEvents := mergedEvents existing candidate
      queuedMessages := mergedQueue existing candidate
      outboundDeliveries := mergedDeliveries existing candidate
      updatedAtUnix := ((mergedDeliveries existing candidate).map (·.updatedAtUnix)).foldl max
        (((mergedQueue existing candidate).map (·.enqueuedAtUnix)).foldl max
          (((mergedEvents existing candidate).map (·.recordedAtUnix)).foldl max
            ((existing.runInputs.map (·.claimedAtUnix)).foldl max
              (((mergedRuns existing candidate).map (·.updatedAtUnix)).foldl max
                candidate.updatedAtUnix)))) } : RuntimeState) = merged existing candidate := by
    simp only [merged, mergedTimes, List.foldl_append]
  simp only [mergeSnapshot, except_bind_eq_ok, validateSnapshotOutboundAdditions_eq_ok,
    validateSnapshotRunInputAdditions_eq_ok, validateSnapshotRunOutputAdditions_eq_ok,
    validateSharedInboundEventIdentity_eq_ok, validateSnapshotAgentRunTransitions, forM_eq_ok_iff,
    validateSnapshotAgentRunTransition_eq_ok hexisting, Option.bind_some,
    preserveRunsFrom_eq_ok hexisting.run_ids hcandidate.run_ids, preserveInboundEventsFrom_eq_ok,
    preserveOutboundDeliveriesFrom_eq_ok]
  constructor
  · rintro ⟨_, hadditions, _, hknown, _, hhandoffs, _, houtputs, _, hevents, _, ⟨hruns, rfl⟩,
      _, hpreserved, _, ⟨-, rfl⟩, _, hqueued, hdeliveries, rfl⟩
    obtain ⟨hinputs, rfl⟩ := (preserveRunInputsFrom_eq_ok (by exact hknown)).mp hpreserved
    obtain rfl := Except.ok.inj ((hqueue _ hevents (by rfl) (by rfl)).symm.trans hqueued)
    exact ⟨⟨hadditions, hhandoffs, houtputs, hevents, hruns, hinputs, hdeliveries⟩, hmerged.symm⟩
  · rintro ⟨h, rfl⟩
    have hknown : ∀ input ∈ candidate.runInputs, (existing.runInput input.runId).isSome :=
      fun input hinput ↦ by simp [h.inputs input hinput]
    refine ⟨(), h.additions, (), hknown, (), h.handoffs, (), h.outputs, (), h.events, _,
      ⟨h.runs, rfl⟩, _, (preserveRunInputsFrom_eq_ok (by exact hknown)).mpr ⟨h.inputs, rfl⟩, _,
      ⟨fun event hevent existingEvent hexistingEvent ↦ ?_, rfl⟩, _, hqueue _ h.events (by rfl) (by rfl),
      h.deliveries, hmerged⟩
    exact (h.events event hevent existingEvent hexistingEvent).1

/-- Without a state to merge into, the guards alone decide. -/
theorem mergeSnapshot_none_eq_ok {state' : RuntimeState} :
    mergeSnapshot candidate none = .ok state' ↔
      ((∀ delivery ∈ candidate.outboundDeliveries, delivery.status = .pending) ∧
        candidate.runInputs = [] ∧ ∀ run ∈ candidate.runs, run.outputDeliveryIds = []) ∧
      candidate = state' := by
  simp only [mergeSnapshot, except_bind_eq_ok, validateSnapshotOutboundAdditions_eq_ok,
    validateSnapshotRunInputAdditions_eq_ok, validateSnapshotRunOutputAdditions_eq_ok,
    validateSnapshotAgentRunTransitions, Option.bind_none, Option.isSome_none, Option.map_none,
    except_pure_eq_ok, forall_const, Bool.false_eq_true, reduceCtorEq, imp_false, not_not,
    exists_const, true_and, ← List.eq_nil_iff_forall_not_mem, and_assoc]

end RuntimeState

end FerrisBridge
