import FerrisBridge.State.Change

/-!
# Validity is preserved

Every change of a valid state leads to a valid state: the cross-collection conditions are carried
through one lemma for each kind of change, and every operation of the runtime state makes such a
change.
-/

open Foundations

namespace FerrisBridge

namespace RuntimeState

variable {state state' : RuntimeState}

/-! ## Growth of the collections -/

theorem Recorded.of_extends {message : QueuedMessage}
    (hevents : state.inboundEvents <+: state'.inboundEvents) (h : state.Recorded message) :
    state'.Recorded message := by
  obtain ⟨event, hevent, hmessage⟩ := h
  obtain ⟨added, hadded⟩ := hevents
  refine ⟨event, ?_, hmessage⟩
  rw [inboundEvent] at hevent ⊢
  rw [← hadded, List.find?_append, hevent, Option.some_or]

theorem Claimed.of_extends {input : RunInputRecord}
    (hruns : Extends RunRecord.Evolves state.runs state'.runs) (h : state.Claimed input) :
    state'.Claimed input := by
  obtain ⟨run, hrun, hsession, hcreated⟩ := h
  obtain ⟨run', hrun', hevolves⟩ :=
    hruns.find_key RunRecord.id (fun _ _ hevolves ↦ hevolves.id_eq.symm) hrun
  exact ⟨run', hrun', hevolves.sessionId_eq.trans hsession, hevolves.createdAt_eq.trans hcreated⟩

theorem Delivers.of_extends {run : RunRecord} {id : OutboundDeliveryId}
    (hdeliveries : Extends (fun before after : OutboundDeliveryRecord ↦
      after.hasSameEnqueueIdentity before = true) state.outboundDeliveries state'.outboundDeliveries)
    (h : state.Delivers run id) : state'.Delivers run id := by
  obtain ⟨delivery, hdelivery, hsession, hauthor, hcreated⟩ := h
  obtain ⟨delivery', hdelivery', hidentity⟩ := hdeliveries.find_key OutboundDeliveryRecord.id
    (fun _ _ hidentity ↦
      (OutboundDeliveryRecord.hasSameEnqueueIdentity_iff.mp hidentity).1.symm) hdelivery
  obtain ⟨-, hsession', hmessage', hcreated'⟩ :=
    OutboundDeliveryRecord.hasSameEnqueueIdentity_iff.mp hidentity
  exact ⟨delivery', hdelivery', hsession'.trans hsession, hmessage' ▸ hauthor, hcreated' ▸ hcreated⟩

theorem Delivers.append {run : RunRecord} {id : OutboundDeliveryId}
    {added : List OutboundDeliveryRecord} (h : state.Delivers run id) :
    ({ state with
      outboundDeliveries := state.outboundDeliveries ++ added } : RuntimeState).Delivers run id :=
  h.of_extends (.of_append fun delivery _ ↦ by
    simp [OutboundDeliveryRecord.hasSameEnqueueIdentity])

/-! ## Sessions -/

theorem upsertSession_sessions (state : RuntimeState) (session : Session) (now : U64) :
    (∃ existing ∈ state.sessions, existing.id = session.id ∧
        state.upsertSession session now = touchAt
          (max (existing.refreshFrom session).updatedAtUnix now)
          { state with sessions :=
            replaceFirst (·.id) (existing.refreshFrom session) state.sessions }) ∨
      session.id ∉ state.sessions.map (·.id) ∧
        state.upsertSession session now = touchAt (max session.updatedAtUnix now)
          { state with sessions := state.sessions ++ [session] } := by
  unfold upsertSession
  cases hfind : state.session session.id with
  | some existing =>
    obtain ⟨hmem, hid⟩ := find_key_eq_some hfind
    exact .inl ⟨existing, hmem, hid, rfl⟩
  | none => exact .inr ⟨find_key_eq_none_iff_notMem.mp hfind, rfl⟩

/-- A consistent state is valid when its aggregate timestamp does not go back and covers whatever is
new in the collections. -/
theorem Valid.advance (h : state.Valid) (h' : state'.Consistent)
    (hle : state.updatedAtUnix ≤ state'.updatedAtUnix)
    (hsessions : ∀ session ∈ state'.sessions,
      session ∈ state.sessions ∨ session.updatedAtUnix ≤ state'.updatedAtUnix)
    (hruns : ∀ run ∈ state'.runs, run ∈ state.runs ∨ run.updatedAtUnix ≤ state'.updatedAtUnix)
    (hinputs : ∀ input ∈ state'.runInputs,
      input ∈ state.runInputs ∨ input.claimedAtUnix ≤ state'.updatedAtUnix)
    (hevents : ∀ event ∈ state'.inboundEvents,
      event ∈ state.inboundEvents ∨ event.recordedAtUnix ≤ state'.updatedAtUnix)
    (hdeliveries : ∀ delivery ∈ state'.outboundDeliveries,
      delivery ∈ state.outboundDeliveries ∨ delivery.updatedAtUnix ≤ state'.updatedAtUnix)
    (hqueued : ∀ queued ∈ state'.queuedMessages,
      queued ∈ state.queuedMessages ∨ queued.enqueuedAtUnix ≤ state'.updatedAtUnix) :
    state'.Valid := by
  obtain ⟨hs, hr, hi, he, hd, hq⟩ := mem_recordTimes_iff.mp h.updated
  exact ⟨h', mem_recordTimes_iff.mpr ⟨
    fun session hmem ↦ (hsessions session hmem).elim (fun hold ↦ (hs session hold).trans hle) id,
    fun run hmem ↦ (hruns run hmem).elim (fun hold ↦ (hr run hold).trans hle) id,
    fun input hmem ↦ (hinputs input hmem).elim (fun hold ↦ (hi input hold).trans hle) id,
    fun event hmem ↦ (hevents event hmem).elim (fun hold ↦ (he event hold).trans hle) id,
    fun delivery hmem ↦ (hdeliveries delivery hmem).elim
      (fun hold ↦ (hd delivery hold).trans hle) id,
    fun queued hmem ↦ (hqueued queued hmem).elim (fun hold ↦ (hq queued hold).trans hle) id⟩⟩

theorem Consistent.withUpdatedAt (h : state.Consistent) (updatedAtUnix : U64) :
    ({ state with updatedAtUnix } : RuntimeState).Consistent := { h with }

/-- Replacing the sessions of a state, when none is lost. -/
theorem Consistent.withSessions {sessions : List Session} (h : state.Consistent)
    (hsessions : ∀ session ∈ sessions, session.Valid) (hids : (sessions.map (·.id)).Nodup)
    (hkept : ∀ id ∈ state.sessions.map (·.id), id ∈ sessions.map (·.id)) :
    ({ state with sessions } : RuntimeState).Consistent :=
  { h with
    sessions := hsessions
    session_ids := hids
    run_sessions := fun run hrun ↦ hkept _ (h.run_sessions run hrun)
    delivery_sessions := fun delivery hdelivery ↦
      hkept _ (h.delivery_sessions delivery hdelivery)
    queued_sessions := fun queued hqueued ↦ hkept _ (h.queued_sessions queued hqueued) }

theorem Valid.upsertSession (h : state.Valid) {session : Session} (hsession : session.Valid)
    (now : U64) : (state.upsertSession session now).Valid := by
  rcases state.upsertSession_sessions session now with
    ⟨existing, hexisting, hid, heq⟩ | ⟨hnew, heq⟩
  · have hmap := replaceFirst_eq_map Session.id h.session_ids
      (existing.refreshFrom session)
    have hids : (replaceFirst (·.id) (existing.refreshFrom session) state.sessions).map (·.id) =
        state.sessions.map (·.id) := by
      rw [hmap, List.map_map]
      refine List.map_congr_left fun other _ ↦ ?_
      by_cases hother : other.id = existing.id <;> simp [hother]
    have hmem : ∀ other ∈ replaceFirst (·.id) (existing.refreshFrom session) state.sessions,
        other = existing.refreshFrom session ∨ other ∈ state.sessions := by
      rw [hmap]
      intro other hother
      obtain ⟨previous, hprevious, rfl⟩ := List.mem_map.mp hother
      split
      · exact .inl rfl
      · exact .inr hprevious
    rw [heq]
    refine h.advance ((h.toConsistent.withSessions (fun other hother ↦ ?_)
      (hids ▸ h.session_ids) (fun id hid ↦ hids ▸ hid)).withUpdatedAt _) (le_max_left _ _)
      (fun other hother ↦ ?_) (fun _ ↦ .inl) (fun _ ↦ .inl) (fun _ ↦ .inl) (fun _ ↦ .inl)
      (fun _ ↦ .inl)
    · rcases hmem other hother with rfl | hother
      · exact (h.sessions existing hexisting).refreshFrom session
      · exact h.sessions other hother
    · rcases hmem other hother with rfl | hother
      · exact .inr ((le_max_left _ _).trans (le_max_right _ _))
      · exact .inl hother
  · rw [heq]
    refine h.advance ((h.toConsistent.withSessions (forall_mem_concat.mpr ⟨h.sessions, hsession⟩)
      (nodup_key_concat h.session_ids hnew) (fun id hid ↦ ?_)).withUpdatedAt _) (le_max_left _ _)
      (forall_mem_concat.mpr ⟨fun _ ↦ .inl, .inr ((le_max_left _ _).trans (le_max_right _ _))⟩)
      (fun _ ↦ .inl) (fun _ ↦ .inl) (fun _ ↦ .inl) (fun _ ↦ .inl) (fun _ ↦ .inl)
    rw [List.map_append]
    exact List.mem_append_left _ hid

/-! ## Runs -/

/-- Adding a run without outputs. -/
theorem Consistent.appendRun {run : RunRecord} (h : state.Consistent) (hrun : run.Valid)
    (houtputs : run.outputDeliveryIds = []) (hsession : run.sessionId ∈ state.sessions.map (·.id))
    (hid : run.id ∉ state.runs.map (·.id)) (hactive : ∀ other ∈ state.runs, NotBothActive other run) :
    ({ state with runs := state.runs ++ [run] } : RuntimeState).Consistent :=
  { h with
    runs := forall_mem_concat.mpr ⟨h.runs, hrun⟩
    run_sessions := forall_mem_concat.mpr ⟨h.run_sessions, hsession⟩
    run_ids := nodup_key_concat h.run_ids hid
    output_ids := by simpa [houtputs] using h.output_ids
    active := List.pairwise_append.mpr ⟨h.active, List.pairwise_singleton _ _, by simpa using hactive⟩
    outputs := forall_mem_concat.mpr ⟨h.outputs, by simp [houtputs]⟩
    input_runs := fun input hinput ↦
      (h.input_runs input hinput).of_extends (.of_append fun run _ ↦ .refl run) }

theorem NotBothActive.of_evolves {first second first' second' : RunRecord}
    (hfirst : first.Evolves first') (hsecond : second.Evolves second')
    (h : NotBothActive first second) : NotBothActive first' second' := by
  intro hfirst' hsecond'
  rw [hfirst.sessionId_eq, hsecond.sessionId_eq]
  exact h (hfirst.active hfirst') (hsecond.active hsecond')

/-- Moving runs forward; the outputs they name must be fresh of each other and delivered. -/
theorem Consistent.withRuns {runs : List RunRecord} (h : state.Consistent)
    (hruns : List.Forall₂ RunRecord.Evolves state.runs runs) (hvalid : ∀ run ∈ runs, run.Valid)
    (houtputIds : (runs.flatMap (·.outputDeliveryIds)).Nodup)
    (houtputs : ∀ run ∈ runs, ∀ id ∈ run.outputDeliveryIds, state.Delivers run id) :
    ({ state with runs } : RuntimeState).Consistent :=
  { h with
    runs := hvalid
    run_sessions := fun run hrun ↦ by
      obtain ⟨previous, hprevious, hevolves⟩ := exists_of_mem_right hruns hrun
      rw [hevolves.sessionId_eq]
      exact h.run_sessions previous hprevious
    run_ids := by
      rw [map_eq_of_forall₂ (fun _ _ hevolves ↦ hevolves.id_eq) hruns]
      exact h.run_ids
    output_ids := houtputIds
    active := pairwise_of_forall₂ (fun _ _ _ _ ↦ NotBothActive.of_evolves) hruns h.active
    outputs := houtputs
    input_runs := fun input hinput ↦ (h.input_runs input hinput).of_extends (.of_forall₂ hruns) }

theorem Valid.stepRuns {runs : List RunRecord} {updatedAtUnix : U64} (h : state.Valid)
    (hsteps : List.Forall₂ RunRecord.Steps state.runs runs)
    (hle : state.updatedAtUnix ≤ updatedAtUnix)
    (hbound : ∀ run ∈ runs, run.updatedAtUnix ≤ updatedAtUnix) :
    ({ state with runs, updatedAtUnix } : RuntimeState).Valid := by
  have houtputs : runs.flatMap (·.outputDeliveryIds) = state.runs.flatMap (·.outputDeliveryIds) := by
    rw [List.flatMap_def, List.flatMap_def, map_eq_of_forall₂ (fun _ _ hstep ↦ ?_) hsteps]
    rcases hstep with rfl | ⟨-, heq⟩
    · rfl
    · exact heq
  refine h.advance ((h.toConsistent.withRuns (hsteps.imp fun _ _ hstep ↦ hstep.evolves)
    (fun run hrun ↦ ?_) (houtputs ▸ h.output_ids) (fun run hrun id hid ↦ ?_)).withUpdatedAt _) hle
    (fun _ ↦ .inl) (fun run hrun ↦ .inr (hbound run hrun)) (fun _ ↦ .inl) (fun _ ↦ .inl)
    (fun _ ↦ .inl) (fun _ ↦ .inl)
  · obtain ⟨previous, hprevious, rfl | ⟨⟨_, hadvances⟩, -⟩⟩ := exists_of_mem_right hsteps hrun
    · exact h.runs _ hprevious
    · exact hadvances.valid (h.runs previous hprevious)
  · obtain ⟨previous, hprevious, rfl | ⟨⟨_, hadvances⟩, heq⟩⟩ := exists_of_mem_right hsteps hrun
    · exact h.outputs _ hprevious id hid
    · rw [heq, (h.runs previous hprevious).outputs_of_active hadvances.descends.previous_active] at hid
      cases hid

/-! ## Deliveries -/

/-- Adding deliveries with fresh ids. -/
theorem Consistent.appendDeliveries (h : state.Consistent)
    (deliveries : List OutboundDeliveryRecord)
    (hdeliveries : ∀ delivery ∈ deliveries,
      delivery.Valid ∧ delivery.sessionId ∈ state.sessions.map (·.id))
    (hids : (deliveries.map (·.id)).Nodup)
    (hnew : ∀ delivery ∈ deliveries, delivery.id ∉ state.outboundDeliveries.map (·.id)) :
    ({ state with
      outboundDeliveries := state.outboundDeliveries ++ deliveries } : RuntimeState).Consistent :=
  { h with
    deliveries := List.forall_mem_append.mpr
      ⟨h.deliveries, fun delivery hdelivery ↦ (hdeliveries delivery hdelivery).1⟩
    delivery_ids := by
      rw [List.map_append, List.nodup_append', List.disjoint_right]
      exact ⟨h.delivery_ids, hids, by simpa using hnew⟩
    delivery_sessions := List.forall_mem_append.mpr
      ⟨h.delivery_sessions, fun delivery hdelivery ↦ (hdeliveries delivery hdelivery).2⟩
    outputs := fun run hrun id hid ↦ (h.outputs run hrun id hid).append }

/-- Moving deliveries forward. -/
theorem Valid.stepDeliveries {outboundDeliveries : List OutboundDeliveryRecord} {updatedAtUnix : U64}
    (h : state.Valid)
    (hsteps : List.Forall₂ OutboundDeliveryRecord.Steps state.outboundDeliveries outboundDeliveries)
    (hle : state.updatedAtUnix ≤ updatedAtUnix)
    (hbound : ∀ delivery ∈ outboundDeliveries, delivery.updatedAtUnix ≤ updatedAtUnix) :
    ({ state with outboundDeliveries, updatedAtUnix } : RuntimeState).Valid := by
  have hidentity : ∀ before after, OutboundDeliveryRecord.Steps before after →
      after.hasSameEnqueueIdentity before = true := by
    rintro before _ (rfl | hadvances)
    · simp [OutboundDeliveryRecord.hasSameEnqueueIdentity]
    · exact hadvances.hasSameEnqueueIdentity
  have hconsistent : ({ state with outboundDeliveries } : RuntimeState).Consistent :=
    { h.toConsistent with
      deliveries := fun delivery hdelivery ↦ by
        obtain ⟨previous, hprevious, rfl | hadvances⟩ := exists_of_mem_right hsteps hdelivery
        · exact h.deliveries _ hprevious
        · exact hadvances.valid (h.deliveries previous hprevious)
      delivery_ids := by
        rw [map_eq_of_forall₂ (fun _ _ hstep ↦ ?_) hsteps]
        · exact h.delivery_ids
        · exact (OutboundDeliveryRecord.hasSameEnqueueIdentity_iff.mp (hidentity _ _ hstep)).1
      delivery_sessions := fun delivery hdelivery ↦ by
        obtain ⟨previous, hprevious, hstep⟩ := exists_of_mem_right hsteps hdelivery
        rw [(OutboundDeliveryRecord.hasSameEnqueueIdentity_iff.mp (hidentity _ _ hstep)).2.1]
        exact h.delivery_sessions previous hprevious
      outputs := fun run hrun id hid ↦
        (h.outputs run hrun id hid).of_extends (.of_forall₂ (hsteps.imp hidentity)) }
  exact h.advance (hconsistent.withUpdatedAt _) hle (fun _ ↦ .inl) (fun _ ↦ .inl) (fun _ ↦ .inl)
    (fun _ ↦ .inl) (fun delivery hdelivery ↦ .inr (hbound delivery hdelivery)) (fun _ ↦ .inl)

/-- Completing a run with fresh deliveries of its session. -/
theorem Valid.complete {before after : List RunRecord} {run run' : RunRecord}
    {deliveries : List OutboundDeliveryRecord} {finishedAtUnix time : U64} (h : state.Valid)
    (hruns : state.runs = before ++ run :: after) (hadvances : run.Advances finishedAtUnix run')
    (hfinished : run'.finishedAtUnix = some finishedAtUnix)
    (houtputs : run'.outputDeliveryIds = deliveries.map (·.id))
    (hdeliveries : ∀ delivery ∈ deliveries, delivery.Valid ∧ delivery.status = .pending ∧
      delivery.sessionId = run.sessionId ∧ delivery.message.author = .agent ∧
      delivery.createdAtUnix = finishedAtUnix ∧ delivery.updatedAtUnix ≤ time)
    (hids : (deliveries.map (·.id)).Nodup)
    (hnew : ∀ delivery ∈ deliveries, delivery.id ∉ state.outboundDeliveries.map (·.id))
    (htime : finishedAtUnix ≤ time) :
    (touchAt time { state with
      runs := before ++ run' :: after
      outboundDeliveries := state.outboundDeliveries ++ deliveries }).Valid := by
  have hrun : run ∈ state.runs := by simp [hruns]
  have hwithDeliveries := h.toConsistent.appendDeliveries deliveries
    (fun delivery hdelivery ↦ ⟨(hdeliveries delivery hdelivery).1, by
      rw [(hdeliveries delivery hdelivery).2.2.1]
      exact h.run_sessions run hrun⟩) hids hnew
  have hother : ∀ other ∈ before ++ run' :: after, other = run' ∨ other ∈ state.runs := by
    intro other hmem
    rw [hruns]
    rcases List.mem_append.mp hmem with hmem | hmem
    · exact .inr (List.mem_append_left _ hmem)
    · rcases List.mem_cons.mp hmem with rfl | hmem
      · exact .inl rfl
      · exact .inr (List.mem_append_right _ (List.mem_cons_of_mem _ hmem))
  have houtputIds : ((before ++ run' :: after).flatMap (·.outputDeliveryIds)).Nodup := by
    have hperm : ((before ++ run' :: after).flatMap (·.outputDeliveryIds)).Perm
        (deliveries.map (·.id) ++ state.runs.flatMap (·.outputDeliveryIds)) := by
      rw [hruns, List.flatMap_append, List.flatMap_append, List.flatMap_cons, List.flatMap_cons,
        houtputs, (h.runs run hrun).outputs_of_active hadvances.descends.previous_active,
        List.nil_append]
      exact List.perm_append_comm_assoc _ _ _
    rw [hperm.nodup_iff, List.nodup_append', List.disjoint_left]
    refine ⟨hids, h.output_ids, fun id hid howned ↦ ?_⟩
    obtain ⟨delivery, hdelivery, rfl⟩ := List.mem_map.mp hid
    obtain ⟨owner, howner, hid⟩ := List.mem_flatMap.mp howned
    obtain ⟨existing, hexisting, -⟩ := h.outputs owner howner _ hid
    exact hnew delivery hdelivery (find_key_isSome.mp (Option.isSome_iff_exists.mpr ⟨_, hexisting⟩))
  have hevolves : List.Forall₂ RunRecord.Evolves state.runs (before ++ run' :: after) := by
    rw [hruns]
    exact forall₂_replace RunRecord.Evolves.refl (.inr hadvances.descends)
  refine h.advance ((hwithDeliveries.withRuns hevolves (fun other hmem ↦ ?_) houtputIds
    (fun other hmem id hid ↦ ?_)).withUpdatedAt _) (le_max_left _ _) (fun _ ↦ .inl)
    (fun other hmem ↦ ?_) (fun _ ↦ .inl) (fun _ ↦ .inl)
    (List.forall_mem_append.mpr ⟨fun _ ↦ .inl, fun delivery hdelivery ↦
      .inr ((hdeliveries delivery hdelivery).2.2.2.2.2.trans (le_max_right _ _))⟩) (fun _ ↦ .inl)
  · rcases hother other hmem with rfl | hmem
    · exact hadvances.valid (h.runs run hrun)
    · exact h.runs other hmem
  · rcases hother other hmem with rfl | hmem
    · rw [houtputs] at hid
      obtain ⟨delivery, hdelivery, rfl⟩ := List.mem_map.mp hid
      obtain ⟨-, -, hsession, hauthor, hcreated, -⟩ := hdeliveries delivery hdelivery
      refine ⟨delivery, find_key_of_mem hwithDeliveries.delivery_ids
        (List.mem_append_right _ hdelivery), ?_, hauthor, ?_⟩
      · rw [hsession, hadvances.descends.sessionId_eq]
      · rw [hcreated, hfinished]
    · exact (h.outputs other hmem id hid).append
  · rcases hother other hmem with rfl | hmem
    · refine .inr ?_
      rw [hadvances.updated_eq]
      exact max_le_max ((mem_recordTimes_iff.mp h.updated).2.1 run hrun) htime
    · exact .inl hmem

/-! ## The ledger and the queue -/

/-- With valid inputs, the enqueue times of a session are those of its owned messages. -/
theorem Consistent.ownedEnqueueTimes_eq (h : state.Consistent) (id : SessionId) :
    state.ownedEnqueueTimes id = (state.ownedOf id).map (·.enqueuedAtUnix) := by
  rw [ownedEnqueueTimes, ownedOf, ownedMessages, List.filter_append, claimedMessages,
    flatMap_filter_of_key QueuedMessage.sessionId fun input hinput message hmessage ↦
      (h.inputs input hinput).messages_session message hmessage]

theorem le_getD_max? {times : List U64} {time : U64} (h : time ∈ times) :
    time ≤ times.max?.getD 0 := by
  cases hmax : times.max? with
  | none =>
    rw [List.max?_eq_none_iff.mp hmax] at h
    cases h
  | some latest => exact (List.max?_eq_some_iff.mp hmax).2 time h

/-- A message record for an event goes to a known session, after its owned messages. -/
theorem Consistent.queuedMessageForEvent_eq_ok (h : state.Consistent) {event : Event} {time : U64}
    {queued : QueuedMessage} (hqueued : state.queuedMessageForEvent event time = .ok (some queued)) :
    queued.Valid ∧ queued.eventId = event.id ∧ queued.receivedAtUnix = event.receivedAtUnix ∧
      queued.sessionId ∈ state.sessions.map (·.id) ∧
      max time event.receivedAtUnix ≤ queued.enqueuedAtUnix ∧
      ∀ owned ∈ state.ownedOf queued.sessionId, owned.enqueuedAtUnix ≤ queued.enqueuedAtUnix := by
  unfold queuedMessageForEvent at hqueued
  split at hqueued
  · rename_i message hkind
    simp only [except_bind_eq_ok, okOr_eq_ok, rejectIf_eq_ok, session_isNone, not_not,
      except_pure_eq_ok, Option.some.injEq] at hqueued
    obtain ⟨sessionId, hsession, _, hknown, queued, hqueued, rfl⟩ := hqueued
    obtain ⟨hvalid, hmessage, heventId, hreceived, henqueued⟩ := QueuedMessage.fromEvent_eq_ok hqueued
    have hsessionId : queued.sessionId = sessionId := by
      rw [hkind] at hmessage
      have := hvalid.session
      rw [← EventKind.messageReceived.inj hmessage, hsession] at this
      exact (Option.some.inj this).symm
    refine ⟨hvalid, heventId, hreceived, hsessionId ▸ hknown, ?_, fun owned howned ↦ ?_⟩
    · rw [henqueued]
      exact max_le_max (le_max_left _ _) le_rfl
    · have hmem : owned.enqueuedAtUnix ∈ state.ownedEnqueueTimes sessionId := by
        rw [h.ownedEnqueueTimes_eq, ← hsessionId]
        exact List.mem_map.mpr ⟨owned, howned, rfl⟩
      rw [henqueued]
      exact (le_getD_max? hmem).trans ((le_max_right _ _).trans (le_max_left _ _))
  · cases hqueued

/-- Appending a ledger record for a new event. -/
theorem Consistent.appendEvent {record : InboundEventRecord} (h : state.Consistent)
    (hrecord : record.Valid) (hnew : record.id ∉ state.inboundEvents.map (·.id)) :
    ({ state with inboundEvents := state.inboundEvents ++ [record] } : RuntimeState).Consistent :=
  { h with
    events := forall_mem_concat.mpr ⟨h.events, hrecord⟩
    event_ids := nodup_key_concat h.event_ids hnew
    queued_ledger := h.queued_ledger.trans (by simp)
    recorded := fun message hmessage ↦
      (h.recorded message hmessage).of_extends (List.prefix_append _ _)
    owned_ledger := fun id ↦ (h.owned_ledger id).trans (by simp) }

theorem ownedOf_concat (queued : QueuedMessage) (id : SessionId) :
    ({ state with queuedMessages := state.queuedMessages ++ [queued] } : RuntimeState).ownedOf id =
      state.ownedOf id ++ if queued.sessionId = id then [queued] else [] := by
  simp only [ownedOf, ownedMessages, claimedMessages, ← List.append_assoc, List.filter_append,
    List.filter_singleton, Bool.cond_decide]

/-- Appending a queued message for the last event of the ledger. -/
theorem Consistent.appendQueued {queued : QueuedMessage} (h : state.Consistent)
    (ledger : List EventId) (hqueued : queued.Valid) (hrecorded : state.Recorded queued)
    (hsession : queued.sessionId ∈ state.sessions.map (·.id))
    (hledger : state.inboundEvents.map (·.id) = ledger ++ [queued.eventId])
    (hnew : queued.eventId ∉ state.ownedMessages.map (·.eventId))
    (hordered : ∀ owned ∈ state.ownedOf queued.sessionId,
      owned.enqueuedAtUnix ≤ queued.enqueuedAtUnix) :
    ({ state with queuedMessages := state.queuedMessages ++ [queued] } : RuntimeState).Consistent := by
  -- Messages owned before are in the ledger, and none of them belongs to its last event.
  have hbefore : ∀ list : List QueuedMessage, list ⊆ state.ownedMessages →
      (list.map (·.eventId)).Sublist (state.inboundEvents.map (·.id)) →
      (list.map (·.eventId)).Sublist ledger := by
    intro list hsubset hsublist
    rw [hledger] at hsublist
    obtain ⟨left, right, heq, hleft, hright⟩ := List.sublist_append_iff.mp hsublist
    rcases List.sublist_singleton.mp hright with rfl | rfl
    · rwa [heq, List.append_nil]
    · have : queued.eventId ∈ list.map (·.eventId) := by simp [heq]
      exact absurd (List.map_subset _ hsubset this) hnew
  have howned : ({ state with
      queuedMessages := state.queuedMessages ++ [queued] } : RuntimeState).ownedMessages =
      state.ownedMessages ++ [queued] := by
    simp only [ownedMessages, claimedMessages, List.append_assoc]
  exact { h with
    queued := forall_mem_concat.mpr ⟨h.queued, hqueued⟩
    queued_ledger := by
      rw [hledger, List.map_append]
      exact (hbefore _ (List.subset_append_right _ _) h.queued_ledger).append (List.Sublist.refl _)
    queued_sessions := forall_mem_concat.mpr ⟨h.queued_sessions, hsession⟩
    recorded := by
      rw [howned]
      exact forall_mem_concat.mpr ⟨h.recorded, hrecorded⟩
    owned_ids := by
      rw [howned]
      exact nodup_key_concat h.owned_ids hnew
    owned_ledger := fun id ↦ by
      rw [ownedOf_concat, hledger, List.map_append]
      refine (hbefore _ (List.filter_subset_self _) (h.owned_ledger id)).append ?_
      split <;> simp
    owned_ordered := fun id ↦ by
      rw [ownedOf_concat]
      split
      · rename_i hid
        subst hid
        exact List.pairwise_append.mpr ⟨h.owned_ordered _, List.pairwise_singleton _ _, by
          simpa using hordered⟩
      · simpa using h.owned_ordered id }

theorem fromEvent_eq_ok {event : Event} {time : U64} {record : InboundEventRecord}
    (h : InboundEventRecord.fromEvent event time = .ok record) :
    record.Valid ∧ record.id = event.id ∧ record.receivedAtUnix = event.receivedAtUnix ∧
      record.recordedAtUnix = max time event.receivedAtUnix := by
  rw [InboundEventRecord.fromEvent_eq] at h
  obtain rfl := Except.ok.inj h
  exact ⟨le_max_right _ _, rfl, rfl, rfl⟩

theorem Consistent.eventId_mem (h : state.Consistent) {message : QueuedMessage}
    (hmessage : message ∈ state.ownedMessages) :
    message.eventId ∈ state.inboundEvents.map (·.id) := by
  obtain ⟨event, hevent, -⟩ := h.recorded message hmessage
  exact find_key_isSome.mp (Option.isSome_iff_exists.mpr ⟨event, hevent⟩)

theorem Valid.recordEvent {event : Event} {time : U64} {queued : Option QueuedMessage}
    {record : InboundEventRecord} (h : state.Valid)
    (hqueued : state.queuedMessageForEvent event time = .ok queued)
    (hnew : state.inboundEvent event.id = none)
    (hrecord : InboundEventRecord.fromEvent event time = .ok record) :
    (pushInboundEvent record queued state).Valid := by
  obtain ⟨hvalid, hid, hreceived, hrecorded⟩ := fromEvent_eq_ok hrecord
  have hfresh : record.id ∉ state.inboundEvents.map (·.id) := by
    rw [hid]
    exact find_key_eq_none_iff_notMem.mp hnew
  have hledger := h.toConsistent.appendEvent hvalid hfresh
  cases queued with
  | none =>
    exact h.advance (hledger.withUpdatedAt _) (le_max_left _ _) (fun _ ↦ .inl) (fun _ ↦ .inl)
      (fun _ ↦ .inl) (forall_mem_concat.mpr ⟨fun _ ↦ .inl, .inr (le_max_right _ _)⟩)
      (fun _ ↦ .inl) (fun _ ↦ .inl)
  | some queued =>
    obtain ⟨hqueuedValid, heventId, hqueuedReceived, hsession, hbound, hordered⟩ :=
      h.toConsistent.queuedMessageForEvent_eq_ok hqueued
    have hqueuedRecorded : ({ state with
        inboundEvents := state.inboundEvents ++ [record] } : RuntimeState).Recorded queued := by
      refine ⟨record, ?_, ?_, ?_⟩
      · rw [heventId, ← hid]
        exact find_key_of_mem hledger.event_ids (List.mem_append_right _ (List.mem_singleton_self _))
      · rw [hqueuedReceived, hreceived]
      · rwa [hrecorded]
    have hboth := hledger.appendQueued (state.inboundEvents.map (·.id)) hqueuedValid hqueuedRecorded
      hsession (by simp [heventId, hid])
      (fun hmem ↦ by
        obtain ⟨owned, howned, heq⟩ := List.mem_map.mp hmem
        refine hfresh ?_
        rw [hid, ← heventId, ← heq]
        exact h.toConsistent.eventId_mem howned) hordered
    exact h.advance (hboth.withUpdatedAt _) ((le_max_left _ _).trans (le_max_left _ _))
      (fun _ ↦ .inl) (fun _ ↦ .inl) (fun _ ↦ .inl)
      (forall_mem_concat.mpr ⟨fun _ ↦ .inl, .inr (le_max_right _ _)⟩) (fun _ ↦ .inl)
      (forall_mem_concat.mpr ⟨fun _ ↦ .inl, .inr ((le_max_right _ _).trans (le_max_left _ _))⟩)

/-- Claiming the head of the queue of a session leaves the owned messages of every session. -/
theorem ownedOf_claim {input : RunInputRecord} (h : state.Consistent)
    (hmessages : input.messages <+: state.queuedMessages.filter (·.sessionId = input.sessionId))
    (id : SessionId) :
    ({ state with
      queuedMessages := state.queuedMessages.filter (·.eventId ∉ input.messages.map (·.eventId))
      runInputs := state.runInputs ++ [input] } : RuntimeState).ownedOf id = state.ownedOf id := by
  have hids : (state.queuedMessages.map (·.eventId)).Nodup := by
    have := h.owned_ids
    rw [ownedMessages, List.map_append] at this
    exact this.of_append_right
  have hfilter : state.queuedMessages.filter (·.eventId ∉ input.messages.map (·.eventId)) =
      state.queuedMessages.filter (· ∉ input.messages) := by
    refine List.filter_congr fun queued hqueued ↦ ?_
    refine decide_eq_decide.mpr (not_congr ⟨fun hmem ↦ ?_, List.mem_map_of_mem⟩)
    obtain ⟨message, hmessage, heq⟩ := List.mem_map.mp hmem
    have hmessage' := List.mem_of_mem_filter (hmessages.subset hmessage)
    rwa [← eq_of_key_eq hids hmessage' hqueued heq]
  simp only [ownedOf, ownedMessages, claimedMessages, List.flatMap_append, List.flatMap_cons,
    List.flatMap_nil, List.append_nil, List.filter_append, List.append_assoc, hfilter]
  rw [filter_head_append_rest hids.of_map hmessages id]

theorem Valid.claim {run : RunRecord} {input : RunInputRecord} {time : U64} (h : state.Valid)
    (hrun : run.Valid) (hpending : run.status = .pending)
    (hsession : run.sessionId ∈ state.sessions.map (·.id)) (hid : run.id ∉ state.runs.map (·.id))
    (hactive : ∀ other ∈ state.runs, NotBothActive other run) (hinput : input.Valid)
    (hinputId : input.runId = run.id) (hinputSession : input.sessionId = run.sessionId)
    (hclaimed : input.claimedAtUnix = run.createdAtUnix)
    (hmessages : input.messages <+: state.queuedMessages.filter (·.sessionId = input.sessionId))
    (hrunTime : run.updatedAtUnix ≤ time) (hinputTime : input.claimedAtUnix ≤ time) :
    (touchAt time { state with
      runs := state.runs ++ [run]
      queuedMessages := state.queuedMessages.filter
        (·.eventId ∉ input.messages.map (·.eventId))
      runInputs := state.runInputs ++ [input] }).Valid := by
  have hwithRun := h.toConsistent.appendRun hrun
    (hrun.outputs_of_active (by rw [RunRecord.isTerminal, hpending]; rfl)) hsession hid hactive
  have howned := ownedOf_claim h.toConsistent hmessages
  have hmem : ∀ message ∈ ({ state with
      queuedMessages := state.queuedMessages.filter (·.eventId ∉ input.messages.map (·.eventId))
      runInputs := state.runInputs ++ [input] } : RuntimeState).ownedMessages,
      message ∈ state.ownedMessages := by
    intro message hmessage
    have : message ∈ state.ownedOf message.sessionId := by
      rw [← howned message.sessionId]
      exact List.mem_filter.mpr ⟨hmessage, by simp⟩
    exact List.mem_of_mem_filter this
  have hfresh : input.runId ∉ state.runInputs.map (·.runId) := by
    intro hmem
    obtain ⟨existing, hexisting, heq⟩ := List.mem_map.mp hmem
    obtain ⟨claimant, hclaimant, -⟩ := h.input_runs existing hexisting
    rw [heq, hinputId] at hclaimant
    exact hid (find_key_isSome.mp (Option.isSome_iff_exists.mpr ⟨claimant, hclaimant⟩))
  have hconsistent : ({ state with
      runs := state.runs ++ [run]
      queuedMessages := state.queuedMessages.filter (·.eventId ∉ input.messages.map (·.eventId))
      runInputs := state.runInputs ++ [input] } : RuntimeState).Consistent :=
    { hwithRun with
      queued := fun queued hqueued ↦ h.queued queued (List.mem_of_mem_filter hqueued)
      queued_ledger := (List.filter_sublist.map _).trans h.queued_ledger
      queued_sessions := fun queued hqueued ↦
        h.queued_sessions queued (List.mem_of_mem_filter hqueued)
      inputs := forall_mem_concat.mpr ⟨h.inputs, hinput⟩
      input_ids := nodup_key_concat h.input_ids hfresh
      input_runs := by
        refine forall_mem_concat.mpr ⟨hwithRun.input_runs, run, ?_, hinputSession.symm,
          hclaimed.symm⟩
        rw [hinputId]
        exact find_key_of_mem hwithRun.run_ids (List.mem_append_right _ (List.mem_singleton_self _))
      recorded := fun message hmessage ↦ h.recorded message (hmem message hmessage)
      owned_ids := ((perm_of_filter_key howned).map _).nodup_iff.mpr h.owned_ids
      owned_ledger := fun id ↦ by
        have := h.owned_ledger id
        rw [← howned id] at this
        exact this
      owned_ordered := fun id ↦ by
        have := h.owned_ordered id
        rw [← howned id] at this
        exact this }
  exact h.advance (hconsistent.withUpdatedAt _) (le_max_left _ _) (fun _ ↦ .inl)
    (forall_mem_concat.mpr ⟨fun _ ↦ .inl, .inr (hrunTime.trans (le_max_right _ _))⟩)
    (forall_mem_concat.mpr ⟨fun _ ↦ .inl, .inr (hinputTime.trans (le_max_right _ _))⟩)
    (fun _ ↦ .inl) (fun _ ↦ .inl) (fun queued hqueued ↦ .inl (List.mem_of_mem_filter hqueued))

/-! ## Every change preserves validity -/

theorem SnapshotChange.valid (h : SnapshotChange state state') (hstate : state.Valid) : state'.Valid := by
  cases h with
  | refl => exact hstate
  | upsertSession now hsession => exact hstate.upsertSession hsession now
  | addRun hrun houtputs hsession hid hactive htime =>
    exact hstate.advance ((hstate.appendRun hrun houtputs hsession hid hactive).withUpdatedAt _)
      (le_max_left _ _) (fun _ ↦ .inl)
      (forall_mem_concat.mpr ⟨fun _ ↦ .inl, .inr (htime.trans (le_max_right _ _))⟩)
      (fun _ ↦ .inl) (fun _ ↦ .inl) (fun _ ↦ .inl) (fun _ ↦ .inl)
  | stepRuns hsteps hle hbound => exact hstate.stepRuns hsteps hle hbound
  | recordEvent hqueued hnew hrecord => exact hstate.recordEvent hqueued hnew hrecord
  | @enqueue delivery _ hdelivery hpending hsession hid htime =>
    refine hstate.advance ((hstate.appendDeliveries [delivery] ?_
      (List.nodup_singleton _) ?_).withUpdatedAt _) (le_max_left _ _) (fun _ ↦ .inl) (fun _ ↦ .inl) (fun _ ↦ .inl)
      (fun _ ↦ .inl)
      (forall_mem_concat.mpr ⟨fun _ ↦ .inl, .inr (htime.trans (le_max_right _ _))⟩)
      (fun _ ↦ .inl)
    · exact List.forall_mem_singleton.mpr ⟨hdelivery, hsession⟩
    · exact List.forall_mem_singleton.mpr hid

theorem Change.valid (h : Change state state') (hstate : state.Valid) : state'.Valid := by
  cases h with
  | snapshot h => exact h.valid hstate
  | claim hrun hpending hsession hid hactive hinput hinputId hinputSession hclaimed hmessages
      hrunTime hinputTime =>
    exact hstate.claim hrun hpending hsession hid hactive hinput hinputId hinputSession hclaimed
      hmessages hrunTime hinputTime
  | stepDeliveries hsteps hle hbound => exact hstate.stepDeliveries hsteps hle hbound
  | complete hruns hadvances _ hfinished houtputs hdeliveries hids hnew htime =>
    exact hstate.complete hruns hadvances hfinished houtputs hdeliveries hids hnew htime

end RuntimeState

end FerrisBridge
