import FerrisBridge.State.Merge

/-!
# Validity of a merged state

A merged state is an evolution of the existing one. It is valid exactly when the candidate has all
sessions that the existing state refers to, and no session got a second active run; everything else
that validity asks for follows from the validity of the two states and the merge steps.
-/

open Foundations

namespace FerrisBridge

namespace RuntimeState

variable {existing candidate : RuntimeState}

/-! ## Runs -/

theorem evolves_resolveVersion (run : RunRecord) (candidates : List RunRecord) :
    run.Evolves (resolveVersion RunRecord.id RunRecord.isDescendantOf candidates run) := by
  rcases resolveVersion_cases RunRecord.id RunRecord.isDescendantOf candidates run with heq | ⟨_, -, -, hdescends, rfl⟩
  · exact .inl heq
  · exact .inr (RunRecord.isDescendantOf_iff.mp hdescends)

theorem extends_mergedRuns (existing candidate : RuntimeState) :
    Extends RunRecord.Evolves existing.runs (mergedRuns existing candidate) :=
  .append (List.forall₂_map_right_iff.mpr
    (List.forall₂_same.mpr fun run _ ↦ evolves_resolveVersion run candidate.runs))

/-- A merged run is an existing run or a candidate run; a new one is only in the candidate. -/
theorem mem_mergedRuns {run : RunRecord} (h : run ∈ mergedRuns existing candidate) :
    (∃ previous ∈ existing.runs, previous.Evolves run ∧
        (run = previous ∨ run ∈ candidate.runs)) ∨
      run ∈ candidate.runs ∧ run.id ∉ existing.runs.map (·.id) := by
  rcases List.mem_append.mp h with h | h
  · obtain ⟨previous, hprevious, rfl⟩ := List.mem_map.mp h
    refine .inl ⟨previous, hprevious, evolves_resolveVersion previous candidate.runs, ?_⟩
    rcases resolveVersion_cases RunRecord.id RunRecord.isDescendantOf candidate.runs previous with heq | ⟨c, hc, -, -, heq⟩
    · exact .inl heq
    · exact .inr (heq ▸ hc)
  · exact .inr (mem_missingFrom.mp h)

theorem nodup_mergedRuns (hexisting : existing.Valid) (hcandidate : candidate.Valid) :
    ((mergedRuns existing candidate).map (·.id)).Nodup := by
  rw [mergedRuns, List.map_append, map_key_resolveVersion, ← List.map_append]
  exact nodup_append_missingFrom hexisting.run_ids hcandidate.run_ids

/-- No merge gives a run other outputs than it had. -/
theorem Mergeable.outputs_eq (h : Mergeable existing candidate) (hexisting : existing.Valid)
    {run : RunRecord} (hrun : run ∈ existing.runs) :
    (resolveVersion RunRecord.id RunRecord.isDescendantOf candidate.runs run).outputDeliveryIds =
      run.outputDeliveryIds := by
  rcases resolveVersion_cases RunRecord.id RunRecord.isDescendantOf candidate.runs run with heq | ⟨version, hversion, hid, hdescends, heq⟩
  · rw [heq]
  · rw [heq]
    have hactive := (RunRecord.isDescendantOf_iff.mp hdescends).previous_active
    by_cases houtputs : version.outputDeliveryIds = []
    · rw [houtputs, (hexisting.runs run hrun).outputs_of_active hactive]
    · have := h.outputs version hversion houtputs
      rw [hid, RuntimeState.run, find_key_of_mem hexisting.run_ids hrun] at this
      exact (Option.some.inj this).symm

theorem Mergeable.outputs_eq_nil (h : Mergeable existing candidate) {run : RunRecord}
    (hrun : run ∈ missingFrom RunRecord.id existing.runs candidate.runs) :
    run.outputDeliveryIds = [] := by
  obtain ⟨hmem, hnew⟩ := mem_missingFrom.mp hrun
  by_contra houtputs
  have := h.outputs run hmem houtputs
  rw [RuntimeState.run, find_key_eq_none_iff_notMem.mpr hnew] at this
  cases this

theorem Mergeable.outputIds_eq (h : Mergeable existing candidate) (hexisting : existing.Valid) :
    (mergedRuns existing candidate).flatMap (·.outputDeliveryIds) =
      existing.runs.flatMap (·.outputDeliveryIds) := by
  have hadded : (missingFrom RunRecord.id existing.runs candidate.runs).flatMap
      (·.outputDeliveryIds) = [] :=
    List.flatMap_eq_nil_iff.mpr fun run ↦ h.outputs_eq_nil
  rw [mergedRuns, List.flatMap_append, hadded, List.append_nil, List.flatMap_map]
  exact List.flatMap_congr fun run hrun ↦ h.outputs_eq hexisting hrun

/-! ## Events and messages -/

theorem nodup_mergedEvents (hexisting : existing.Valid) (hcandidate : candidate.Valid) :
    ((mergedEvents existing candidate).map (·.id)).Nodup :=
  nodup_append_missingFrom hexisting.event_ids hcandidate.event_ids

/-- A message that only the candidate has belongs to an event that only the candidate has. -/
theorem SharesEvents.event_notMem (h : SharesEvents existing candidate)
    (hexisting : existing.Valid) (hcandidate : candidate.Valid) {queued : QueuedMessage}
    (hqueued : queued ∈ addedQueued existing candidate) :
    queued.eventId ∉ existing.inboundEvents.map (·.id) := by
  obtain ⟨hmem, hnew⟩ := List.mem_filter.mp hqueued
  simp only [decide_eq_true_eq] at hnew
  intro hevent
  obtain ⟨existingEvent, hexistingEvent⟩ :=
    Option.isSome_iff_exists.mp (find_key_isSome.mpr hevent)
  have howned : queued ∈ candidate.ownedMessages := List.mem_append_right _ hmem
  obtain ⟨event, hcandidateEvent, -⟩ := hcandidate.recorded queued howned
  obtain ⟨heventMem, heventId⟩ := find_key_eq_some hcandidateEvent
  obtain ⟨-, hidentity⟩ := h event heventMem existingEvent (heventId ▸ hexistingEvent)
  rw [heventId, hcandidate.messageRecordForEvent_eq_some.mpr ⟨howned, rfl⟩] at hidentity
  obtain ⟨owner, howner, -⟩ := Option.map_eq_some_iff.mp hidentity
  obtain ⟨howner, hid⟩ := hexisting.messageRecordForEvent_eq_some.mp howner
  exact hnew (List.mem_map.mpr ⟨owner, howner, hid⟩)

theorem ownedMessages_merged :
    (merged existing candidate).ownedMessages =
      existing.ownedMessages ++
        rebaseAll existing.ownedMessages (addedQueued existing candidate) := by
  simp only [ownedMessages, claimedMessages, merged, mergedQueue, List.append_assoc]

/-- A rebased message is a candidate message, queued later. -/
theorem mem_rebased {rebased : QueuedMessage}
    (h : rebased ∈ rebaseAll existing.ownedMessages (addedQueued existing candidate)) :
    ∃ queued ∈ addedQueued existing candidate, QueuedLater queued rebased :=
  exists_of_mem_right forall₂_rebaseAll h

/-- Messages in the order of the candidate ledger whose events are all new are in the order of the
added part of the merged ledger. -/
theorem sublist_missingEvents {messages : List QueuedMessage}
    (hmessages : (messages.map (·.eventId)).Sublist (candidate.inboundEvents.map (·.id)))
    (hnew : ∀ message ∈ messages, message.eventId ∉ existing.inboundEvents.map (·.id)) :
    (messages.map (·.eventId)).Sublist
      ((missingFrom InboundEventRecord.id existing.inboundEvents candidate.inboundEvents).map
        (·.id)) := by
  have hfilter := hmessages.filter (· ∉ existing.inboundEvents.map (·.id))
  have hself : (messages.map (·.eventId)).filter (· ∉ existing.inboundEvents.map (·.id)) =
      messages.map (·.eventId) :=
    List.filter_eq_self.mpr fun id hid ↦ by
      obtain ⟨message, hmessage, rfl⟩ := List.mem_map.mp hid
      simpa using hnew message hmessage
  rwa [hself, List.filter_map] at hfilter

theorem SharesEvents.sublist_merged (h : SharesEvents existing candidate)
    (hexisting : existing.Valid) (hcandidate : candidate.Valid)
    {owned messages : List QueuedMessage} (keep : SessionId → Bool)
    (howned : (owned.map (·.eventId)).Sublist (existing.inboundEvents.map (·.id)))
    (hmessages : messages = (rebaseAll existing.ownedMessages
      (addedQueued existing candidate)).filter (keep ·.sessionId)) :
    ((owned ++ messages).map (·.eventId)).Sublist
      ((mergedEvents existing candidate).map (·.id)) := by
  have hids : messages.map (·.eventId) =
      ((addedQueued existing candidate).filter (keep ·.sessionId)).map (·.eventId) := by
    rw [hmessages]
    refine map_filter_of_forall₂ (R := QueuedLater) (fun queued rebased hlater ↦ ?_)
      (fun queued rebased hlater ↦ ?_) forall₂_rebaseAll
    · exact QueuedMessage.eventId_eq_of_identity_eq hlater.1
    · rw [QueuedMessage.sessionId_eq_of_identity_eq hlater.1]
  rw [mergedEvents, List.map_append, List.map_append, hids]
  refine howned.append (sublist_missingEvents ?_ fun queued hqueued ↦ ?_)
  · refine (List.Sublist.map _ ?_).trans hcandidate.queued_ledger
    exact List.filter_sublist.trans List.filter_sublist
  · exact h.event_notMem hexisting hcandidate (List.mem_of_mem_filter hqueued)

theorem SharesEvents.recorded_merged (h : SharesEvents existing candidate)
    (hexisting : existing.Valid) (hcandidate : candidate.Valid) {message : QueuedMessage}
    (hmessage : message ∈ (merged existing candidate).ownedMessages) :
    (merged existing candidate).Recorded message := by
  rw [ownedMessages_merged, List.mem_append] at hmessage
  rcases hmessage with howned | hrebased
  · exact (hexisting.recorded message howned).of_extends (List.prefix_append _ _)
  · obtain ⟨queued, hqueued, hidentity, hle⟩ := mem_rebased hrebased
    have hnew := h.event_notMem hexisting hcandidate hqueued
    obtain ⟨event, hevent, hreceived, hrecorded⟩ := hcandidate.recorded queued
      (List.mem_append_right _ (List.mem_of_mem_filter hqueued))
    obtain ⟨hmem, hid⟩ := find_key_eq_some hevent
    simp only [QueuedMessage.identity, Prod.mk.injEq] at hidentity
    obtain ⟨heventId, -, -, hreceivedAt⟩ := hidentity
    refine ⟨event, ?_, hreceivedAt.trans hreceived, hrecorded.trans hle⟩
    rw [heventId, ← hid]
    refine find_key_of_mem (nodup_mergedEvents hexisting hcandidate) (List.mem_append_right _ ?_)
    exact mem_missingFrom.mpr ⟨hmem, hid ▸ hnew⟩

theorem nodup_owned_merged (hexisting : existing.Valid) (hcandidate : candidate.Valid) :
    ((merged existing candidate).ownedMessages.map (·.eventId)).Nodup := by
  rw [ownedMessages_merged, List.map_append, map_eventId_rebaseAll, List.nodup_append',
    List.disjoint_right]
  have hqueue := hcandidate.owned_ids
  rw [ownedMessages, List.map_append] at hqueue
  refine ⟨hexisting.owned_ids, hqueue.of_append_right.sublist (List.filter_sublist.map _),
    fun id hid ↦ ?_⟩
  obtain ⟨queued, hqueued, rfl⟩ := List.mem_map.mp hid
  simpa using (List.mem_filter.mp hqueued).2

theorem orderedBySession_owned {state : RuntimeState} (h : state.Consistent) :
    OrderedBySession state.ownedMessages :=
  pairwise_group_iff.mpr h.owned_ordered

/-! ## Evolution -/

/-- A merge is an evolution of the existing state, whatever becomes of its sessions. -/
theorem Mergeable.evolves (h : Mergeable existing candidate) (hexisting : existing.Valid)
    (hcandidate : candidate.Valid) : existing.Evolves (merged existing candidate) where
  events := List.prefix_append _ _
  messages id hid := by
    have hrecord : (merged existing candidate).messageRecordForEvent id =
        existing.messageRecordForEvent id := by
      have hids := nodup_owned_merged hexisting hcandidate
      rw [ownedMessages] at hids
      have hids := (List.perm_append_comm.map _).nodup_iff.mp hids
      refine Option.ext fun message ↦ ?_
      rw [hexisting.messageRecordForEvent_eq_some, messageRecordForEvent, claimedMessageForEvent,
        ← List.find?_append, find_key_iff hids, List.mem_append, or_comm, ← List.mem_append]
      change message ∈ (merged existing candidate).ownedMessages ∧ _ ↔ _
      rw [ownedMessages_merged, List.mem_append]
      refine and_congr_left fun hmessage ↦ or_iff_left fun hrebased ↦ ?_
      obtain ⟨queued, hqueued, hidentity, -⟩ := mem_rebased hrebased
      refine h.events.event_notMem hexisting hcandidate hqueued ?_
      rwa [← QueuedMessage.eventId_eq_of_identity_eq hidentity, hmessage]
    rw [hrecord]
  inputs := List.prefix_refl _
  runs := extends_mergedRuns existing candidate
  deliveries := .of_append fun delivery _ ↦ .refl delivery

/-! ## Validity -/

/-- The sessions that runs, queued messages and deliveries refer to. -/
def referencedSessions (state : RuntimeState) : List SessionId :=
  state.runs.map (·.sessionId) ++ state.queuedMessages.map (·.sessionId) ++
    state.outboundDeliveries.map (·.sessionId)

/-- No session has two runs that are not terminal. -/
def AtMostOneActive (runs : List RunRecord) : Prop :=
  ∀ id, (runs.filter fun run ↦ run.sessionId = id ∧ run.isTerminal = false).length ≤ 1

theorem atMostOneActive_iff {runs : List RunRecord} :
    AtMostOneActive runs ↔ runs.Pairwise NotBothActive := by
  have hshort : ∀ list : List RunRecord, list.length ≤ 1 ↔ list.Pairwise fun _ _ ↦ False := by
    intro list
    match list with
    | [] => simp
    | [run] => simp
    | first :: second :: rest =>
      exact iff_of_false (by simp) fun h ↦ (List.pairwise_cons.mp h).1 second List.mem_cons_self
  have hactive : runs.Pairwise NotBothActive ↔ (runs.filter fun run ↦ !run.isTerminal).Pairwise
      fun first second ↦ first.sessionId = second.sessionId → False := by
    rw [List.pairwise_filter]
    refine List.Pairwise.iff fun first second ↦ ?_
    simp [NotBothActive]
  rw [hactive, pairwise_group_iff]
  refine forall_congr' fun id ↦ ?_
  rw [hshort, List.filter_filter]
  simp only [Bool.decide_and, Bool.decide_eq_false]

theorem Mergeable.delivers (h : Mergeable existing candidate) (hexisting : existing.Valid)
    {run : RunRecord} (hrun : run ∈ mergedRuns existing candidate)
    {id : OutboundDeliveryId} (hid : id ∈ run.outputDeliveryIds) :
    (merged existing candidate).Delivers run id := by
  rcases List.mem_append.mp hrun with hrun | hrun
  · obtain ⟨previous, hprevious, rfl⟩ := List.mem_map.mp hrun
    have houtputs := h.outputs_eq hexisting hprevious
    rw [houtputs] at hid
    -- A run with outputs is completed, so that no candidate version replaces it.
    have hterminal : previous.isTerminal = true := by
      by_contra hactive
      rw [(hexisting.runs previous hprevious).outputs_of_active (by simpa using hactive)] at hid
      cases hid
    rw [(evolves_resolveVersion previous candidate.runs).eq_of_terminal hterminal]
    refine (hexisting.outputs previous hprevious id hid).of_extends (.of_append fun delivery _ ↦ ?_)
    simp [OutboundDeliveryRecord.hasSameEnqueueIdentity]
  · rw [h.outputs_eq_nil hrun] at hid
    cases hid

/-- The aggregate timestamp of a merged state covers all its records. -/
theorem updated_merged (hcandidate : candidate.Valid) :
    ∀ time ∈ (merged existing candidate).recordTimes,
      time ≤ (merged existing candidate).updatedAtUnix := by
  obtain ⟨hstart, htimes⟩ :=
    le_foldl_max (mergedTimes existing candidate) candidate.updatedAtUnix
  simp only [mergedTimes, List.forall_mem_append, List.forall_mem_map] at htimes
  obtain ⟨⟨⟨⟨hruns, hinputs⟩, hevents⟩, hqueued⟩, hdeliveries⟩ := htimes
  refine mem_recordTimes_iff.mpr ⟨fun session hsession ↦ ?_, hruns, hinputs, hevents, hdeliveries,
    hqueued⟩
  exact ((mem_recordTimes_iff.mp hcandidate.updated).1 session hsession).trans hstart

/-- The conditions between the collections that hold of every merged state: queued and owned messages
follow the ledger, the messages of a session follow their enqueue times, no message is owned twice,
outputs have one owner and are its deliveries, and the aggregate timestamp covers all records. -/
structure Coherent (state : RuntimeState) : Prop where
  queued_ledger :
    (state.queuedMessages.map (·.eventId)).Sublist (state.inboundEvents.map (·.id))
  owned_ledger :
    ∀ id, ((state.ownedOf id).map (·.eventId)).Sublist (state.inboundEvents.map (·.id))
  owned_ordered : ∀ id, (state.ownedOf id).Pairwise fun first second ↦
    first.enqueuedAtUnix ≤ second.enqueuedAtUnix
  owned_ids : (state.ownedMessages.map (·.eventId)).Nodup
  output_ids : (state.runs.flatMap (·.outputDeliveryIds)).Nodup
  outputs : ∀ run ∈ state.runs, ∀ id ∈ run.outputDeliveryIds, state.Delivers run id
  updated : ∀ time ∈ state.recordTimes, time ≤ state.updatedAtUnix

theorem Mergeable.coherent (h : Mergeable existing candidate) (hexisting : existing.Valid)
    (hcandidate : candidate.Valid) : (merged existing candidate).Coherent where
  queued_ledger := h.events.sublist_merged hexisting hcandidate (fun _ ↦ true)
    hexisting.queued_ledger (by simp)
  owned_ledger id := by
    have howned : (merged existing candidate).ownedOf id = existing.ownedOf id ++
        (rebaseAll existing.ownedMessages (addedQueued existing candidate)).filter
          (·.sessionId = id) := by
      rw [ownedOf, ownedMessages_merged, List.filter_append, ownedOf]
    rw [howned]
    exact h.events.sublist_merged hexisting hcandidate (· = id) (hexisting.owned_ledger id) rfl
  owned_ordered := by
    refine pairwise_group_iff.mp ?_
    rw [ownedMessages_merged]
    exact (orderedBySession_owned hexisting.toConsistent).rebaseAll
  owned_ids := nodup_owned_merged hexisting hcandidate
  output_ids := by
    change ((mergedRuns existing candidate).flatMap (·.outputDeliveryIds)).Nodup
    rw [h.outputIds_eq hexisting]
    exact hexisting.output_ids
  outputs _ hrun _ hid := h.delivers hexisting hrun hid
  updated := updated_merged hcandidate

theorem Mergeable.consistent (h : Mergeable existing candidate) (hexisting : existing.Valid)
    (hcandidate : candidate.Valid)
    (hsessions : ∀ id ∈ existing.referencedSessions, id ∈ candidate.sessions.map (·.id))
    (hactive : AtMostOneActive (mergedRuns existing candidate)) :
    (merged existing candidate).Consistent := by
  simp only [referencedSessions, List.forall_mem_append, List.forall_mem_map] at hsessions
  obtain ⟨⟨hrunSessions, hqueuedSessions⟩, hdeliverySessions⟩ := hsessions
  have hadded : ∀ rebased ∈ rebaseAll existing.ownedMessages (addedQueued existing candidate),
      rebased.Valid ∧ rebased.sessionId ∈ candidate.sessions.map (·.id) := by
    intro rebased hrebased
    obtain ⟨queued, hqueued, hlater⟩ := mem_rebased hrebased
    have hmem := List.mem_of_mem_filter hqueued
    refine ⟨hlater.valid (hcandidate.queued queued hmem), ?_⟩
    rw [QueuedMessage.sessionId_eq_of_identity_eq hlater.1]
    exact hcandidate.queued_sessions queued hmem
  have hcoherent := h.coherent hexisting hcandidate
  exact {
    sessions := hcandidate.sessions
    session_ids := hcandidate.session_ids
    runs := fun run hrun ↦ by
      rcases mem_mergedRuns hrun with ⟨_, hprevious, -, rfl | hrun⟩ | ⟨hrun, -⟩
      · exact hexisting.runs _ hprevious
      · exact hcandidate.runs run hrun
      · exact hcandidate.runs run hrun
    run_sessions := fun run hrun ↦ by
      rcases mem_mergedRuns hrun with ⟨previous, hprevious, hevolves, -⟩ | ⟨hrun, -⟩
      · rw [hevolves.sessionId_eq]
        exact hrunSessions previous hprevious
      · exact hcandidate.run_sessions run hrun
    run_ids := nodup_mergedRuns hexisting hcandidate
    output_ids := hcoherent.output_ids
    active := atMostOneActive_iff.mp hactive
    events := List.forall_mem_append.mpr ⟨hexisting.events, fun event hevent ↦
      hcandidate.events event (mem_missingFrom.mp hevent).1⟩
    event_ids := nodup_mergedEvents hexisting hcandidate
    deliveries := List.forall_mem_append.mpr ⟨hexisting.deliveries, fun delivery hdelivery ↦
      hcandidate.deliveries delivery (mem_missingFrom.mp hdelivery).1⟩
    delivery_ids := nodup_append_missingFrom hexisting.delivery_ids hcandidate.delivery_ids
    delivery_sessions := List.forall_mem_append.mpr ⟨hdeliverySessions, fun delivery hdelivery ↦
      hcandidate.delivery_sessions delivery (mem_missingFrom.mp hdelivery).1⟩
    outputs := hcoherent.outputs
    queued := List.forall_mem_append.mpr ⟨hexisting.queued, fun rebased hrebased ↦
      (hadded rebased hrebased).1⟩
    queued_ledger := hcoherent.queued_ledger
    queued_sessions := List.forall_mem_append.mpr ⟨hqueuedSessions, fun rebased hrebased ↦
      (hadded rebased hrebased).2⟩
    inputs := hexisting.inputs
    input_ids := hexisting.input_ids
    input_runs := fun input hinput ↦ (hexisting.input_runs input hinput).of_extends
      (extends_mergedRuns existing candidate)
    recorded := fun message hmessage ↦ h.events.recorded_merged hexisting hcandidate hmessage
    owned_ids := hcoherent.owned_ids
    owned_ledger := hcoherent.owned_ledger
    owned_ordered := hcoherent.owned_ordered }

/-- The two conditions that the merge steps leave open decide the validity of the merged state. -/
theorem Mergeable.valid_iff (h : Mergeable existing candidate) (hexisting : existing.Valid)
    (hcandidate : candidate.Valid) :
    (merged existing candidate).Valid ↔
      (∀ id ∈ existing.referencedSessions, id ∈ candidate.sessions.map (·.id)) ∧
        AtMostOneActive (merged existing candidate).runs := by
  constructor
  · intro hmerged
    refine ⟨?_, atMostOneActive_iff.mpr hmerged.active⟩
    simp only [referencedSessions, List.forall_mem_append, List.forall_mem_map]
    refine ⟨⟨fun run hrun ↦ ?_, fun queued hqueued ↦ ?_⟩, fun delivery hdelivery ↦ ?_⟩
    · obtain ⟨run', hrun', hevolves⟩ :=
        (extends_mergedRuns existing candidate).exists_of_mem hrun
      rw [← hevolves.sessionId_eq]
      exact hmerged.run_sessions run' hrun'
    · exact hmerged.queued_sessions queued (List.mem_append_left _ hqueued)
    · exact hmerged.delivery_sessions delivery (List.mem_append_left _ hdelivery)
  · rintro ⟨hsessions, hactive⟩
    exact ⟨h.consistent hexisting hcandidate hsessions hactive, updated_merged hcandidate⟩

end RuntimeState

end FerrisBridge
