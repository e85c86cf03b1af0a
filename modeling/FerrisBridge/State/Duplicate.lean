import FerrisBridge.State.Claim
import FerrisBridge.State.MergeValid
import FerrisBridge.State.Operation

/-!
# Duplicate events

The ledger has no payloads, so a repeated event is compared with the message record that the queue
or a run input holds for it. Whatever happens to a state in which an event has been recorded, the
same event is a duplicate from then on, and one that contradicts it is refused.
-/

open Foundations

namespace FerrisBridge

namespace Event

/-- The event, the session, the message and the receive time of the message record that an event
asks for. -/
def messageIdentity (event : Event) : Option (EventId × SessionId × Message × U64) :=
  match event.kind with
  | .messageReceived message =>
    message.sessionId.map fun sessionId ↦ (event.id, sessionId, message, event.receivedAtUnix)
  | _ => none

/-- A message comes from a platform and belongs to a session. -/
def HasPlatformMessage (event : Event) : Prop :=
  ∀ message, event.kind = .messageReceived message →
    event.source = .platform ∧ message.sessionId.isSome

/-- What an event with the same id contradicts the first one in. -/
inductive ConflictsWith (event other : Event) : Prop
  | receivedAt (h : other.receivedAtUnix ≠ event.receivedAtUnix)
  | messageMissing {message : Message} (h : event.kind = .messageReceived message)
    (hother : ∀ message', other.kind ≠ .messageReceived message')
  | messageUnexpected {message' : Message} (h : ∀ message, event.kind ≠ .messageReceived message)
    (hother : other.kind = .messageReceived message')
  | session {message message' : Message} (h : event.kind = .messageReceived message)
    (hother : other.kind = .messageReceived message') (hsession : message'.sessionId ≠ message.sessionId)
  | payload {message message' : Message} (h : event.kind = .messageReceived message)
    (hother : other.kind = .messageReceived message')
    (hpayload : message'.id ≠ message.id ∨ message'.content ≠ message.content ∨
      message'.createdAtUnix ≠ message.createdAtUnix)
  | author {message message' : Message} (h : event.kind = .messageReceived message)
    (hother : other.kind = .messageReceived message') (hauthor : message'.author ≠ message.author)
  | source {message' : Message} (hother : other.kind = .messageReceived message')
    (hsource : other.source ≠ .platform)

variable {event other : Event}

theorem messageIdentity_of_kind {message : Message} (h : event.kind = .messageReceived message) :
    event.messageIdentity =
      message.sessionId.map fun sessionId ↦ (event.id, sessionId, message, event.receivedAtUnix) := by
  simp only [messageIdentity, h]

theorem messageIdentity_eq_none (h : ∀ message, event.kind ≠ .messageReceived message) :
    event.messageIdentity = none := by
  unfold messageIdentity
  split
  · rename_i message hkind
    exact absurd hkind (h message)
  · rfl

/-- Two messages of the same identity are the same message. -/
theorem message_eq_of_messageIdentity_eq {message message' : Message}
    (hevent : event.HasPlatformMessage) (h : event.kind = .messageReceived message)
    (hother : other.kind = .messageReceived message')
    (heq : event.messageIdentity = other.messageIdentity) : message = message' := by
  obtain ⟨sessionId, hsession⟩ := Option.isSome_iff_exists.mp (hevent message h).2
  rw [messageIdentity_of_kind h, messageIdentity_of_kind hother, hsession, Option.map_some] at heq
  obtain ⟨sessionId', -, hidentity⟩ := Option.map_eq_some_iff.mp heq.symm
  simp only [Prod.mk.injEq] at hidentity
  exact hidentity.2.2.1.symm

/-- Events of one id, receive time and message identity, with their messages from a platform, do not
conflict. -/
theorem not_conflictsWith (hevent : event.HasPlatformMessage) (hother : other.HasPlatformMessage)
    (hreceived : other.receivedAtUnix = event.receivedAtUnix)
    (hidentity : event.messageIdentity = other.messageIdentity) : ¬event.ConflictsWith other := by
  intro hconflict
  cases hconflict with
  | receivedAt h => exact h hreceived
  | messageMissing h hnone =>
    obtain ⟨sessionId, hsession⟩ := Option.isSome_iff_exists.mp (hevent _ h).2
    rw [messageIdentity_eq_none hnone, messageIdentity_of_kind h, hsession] at hidentity
    cases hidentity
  | messageUnexpected hnone h =>
    obtain ⟨sessionId, hsession⟩ := Option.isSome_iff_exists.mp (hother _ h).2
    rw [messageIdentity_eq_none hnone, messageIdentity_of_kind h, hsession] at hidentity
    cases hidentity
  | session h h' hne =>
    obtain rfl := message_eq_of_messageIdentity_eq hevent h h' hidentity
    exact hne rfl
  | payload h h' hne =>
    obtain rfl := message_eq_of_messageIdentity_eq hevent h h' hidentity
    simp at hne
  | author h h' hne =>
    obtain rfl := message_eq_of_messageIdentity_eq hevent h h' hidentity
    exact hne rfl
  | source h hne => exact hne (hother _ h).1

end Event

namespace RuntimeState

variable {state state' existing candidate : RuntimeState} {event other : Event} {now time : U64}

/-! ## Recorded events -/

/-- The event has been recorded: the ledger has it, and the state has the message that it carries, or
none if it carries none. -/
structure HasRecorded (state : RuntimeState) (event : Event) : Prop where
  ledger : ∃ record, state.inboundEvent event.id = some record ∧
    record.receivedAtUnix = event.receivedAtUnix
  message : (state.messageRecordForEvent event.id).map (·.identity) = event.messageIdentity
  platform : event.HasPlatformMessage

theorem HasRecorded.evolves (h : state.HasRecorded event) (hevolves : state.Evolves state') :
    state'.HasRecorded event := by
  obtain ⟨record, hrecord, hreceived⟩ := h.ledger
  have hid := find_key_isSome.mp (Option.isSome_iff_exists.mpr ⟨record, hrecord⟩)
  exact {
    ledger := ⟨record, hevolves.inboundEvent hrecord, hreceived⟩
    message := (hevolves.messages event.id hid).trans h.message
    platform := h.platform }

/-- The message record that is built for an event is the one that it asks for. -/
theorem messageIdentity_of_queuedMessageForEvent {queued : Option QueuedMessage}
    (h : state.queuedMessageForEvent event time = .ok queued) :
    queued.map (·.identity) = event.messageIdentity ∧ event.HasPlatformMessage := by
  unfold queuedMessageForEvent at h
  cases hkind : event.kind with
  | messageReceived message =>
    simp only [hkind, except_bind_eq_ok, okOr_eq_ok, except_pure_eq_ok] at h
    obtain ⟨sessionId, hsession, _, -, record, hrecord, rfl⟩ := h
    obtain ⟨hvalid, hmessage, heventId, hreceived, -⟩ := QueuedMessage.fromEvent_eq_ok hrecord
    simp only [QueuedMessage.fromEvent, except_bind_unit_eq_ok, rejectIf_eq_ok, not_not] at hrecord
    rw [hkind] at hmessage
    obtain rfl := EventKind.messageReceived.inj hmessage
    obtain rfl := Option.some.inj (hsession.symm.trans hvalid.session)
    constructor
    · rw [Event.messageIdentity_of_kind hkind, hsession, Option.map_some, Option.map_some,
        QueuedMessage.identity, heventId, hreceived]
    · intro message hmessage
      obtain rfl := EventKind.messageReceived.inj (hkind.symm.trans hmessage)
      exact ⟨hrecord.1, Option.isSome_iff_exists.mpr ⟨_, hsession⟩⟩
  | sessionStarted | runtimeNotice =>
    simp only [hkind, Except.ok.injEq] at h
    obtain rfl := h
    have hnone : ∀ message, event.kind ≠ .messageReceived message := by simp [hkind]
    exact ⟨(Event.messageIdentity_eq_none hnone).symm, fun message hmessage ↦
      absurd hmessage (hnone message)⟩

/-- Recording an event leaves it recorded, whether it was new or not. -/
theorem hasRecorded_of_recordInboundEventAt (hstate : state.Valid)
    {status : InboundEventRecordStatus}
    (h : recordInboundEventAt event time state = .ok status state') : state'.HasRecorded event := by
  have hstate' : state'.Valid := (SnapshotChange.of_recordInboundEvent h).valid hstate
  obtain ⟨queued, hqueued, ⟨-, rfl, hexisting, hmessage⟩ | ⟨-, hnew, record, hrecord, rfl⟩⟩ :=
    recordInboundEventAt_eq_ok h
  · obtain ⟨hidentity, hplatform⟩ := messageIdentity_of_queuedMessageForEvent hqueued
    exact ⟨hexisting, hmessage.trans hidentity, hplatform⟩
  · obtain ⟨hidentity, hplatform⟩ := messageIdentity_of_queuedMessageForEvent hqueued
    obtain ⟨-, hid, hreceived, -⟩ := fromEvent_eq_ok hrecord
    have hevents : (pushInboundEvent record queued state).inboundEvents =
        state.inboundEvents ++ [record] := by cases queued <;> rfl
    refine ⟨⟨record, ?_, hreceived⟩, ?_, hplatform⟩
    · rw [← hid]
      exact find_key_of_mem hstate'.event_ids (hevents ▸ List.mem_append_right _ (by simp))
    · rw [← hidentity]
      cases queued with
      | some queued =>
        have heventId := (hstate.queuedMessageForEvent_eq_ok hqueued).2.1
        have howned : queued ∈ (pushInboundEvent record (some queued) state).ownedMessages :=
          List.mem_append_right _ (List.mem_append_right _ (by simp))
        rw [hstate'.messageRecordForEvent_eq_some.mpr ⟨howned, heventId⟩]
      | none =>
        rw [Option.map_none, Option.map_eq_none_iff, Option.eq_none_iff_forall_ne_some]
        intro message hmessage
        obtain ⟨howned, heventId⟩ := hstate'.messageRecordForEvent_eq_some.mp hmessage
        have hknown : message.eventId ∈ state.inboundEvents.map (·.id) := hstate.eventId_mem howned
        exact find_key_eq_none_iff_notMem.mp hnew (heventId ▸ hknown)

/-! ## Recording again -/

/-- The messages of a valid state are valid, and their sessions are known. -/
theorem Consistent.owned_valid (h : state.Consistent) {message : QueuedMessage}
    (hmessage : message ∈ state.ownedMessages) :
    message.Valid ∧ message.sessionId ∈ state.sessions.map (·.id) := by
  rcases List.mem_append.mp hmessage with hclaimed | hqueued
  · obtain ⟨input, hinput, hmem⟩ := List.mem_flatMap.mp hclaimed
    obtain ⟨run, hrun, hsession, -⟩ := h.input_runs input hinput
    refine ⟨(h.inputs input hinput).messages_valid message hmem, ?_⟩
    rw [(h.inputs input hinput).messages_session message hmem, ← hsession]
    exact h.run_sessions run (find_key_eq_some hrun).1
  · exact ⟨h.queued message hqueued, h.queued_sessions message hqueued⟩

/-- A message record can be built for a recorded event at any time. -/
theorem HasRecorded.queuedMessageForEvent (h : state.HasRecorded event) (hstate : state.Valid)
    (now : U64) : ∃ queued, state.queuedMessageForEvent event now = .ok queued ∧
      queued.map (·.identity) = event.messageIdentity := by
  cases hkind : event.kind with
  | messageReceived message =>
    obtain ⟨hplatform, hsome⟩ := h.platform message hkind
    obtain ⟨sessionId, hsession⟩ := Option.isSome_iff_exists.mp hsome
    have hidentity : event.messageIdentity =
        some (event.id, sessionId, message, event.receivedAtUnix) := by
      rw [Event.messageIdentity_of_kind hkind, hsession, Option.map_some]
    obtain ⟨owned, howned, howner⟩ := Option.map_eq_some_iff.mp (h.message.trans hidentity)
    obtain ⟨hvalid, hknown⟩ := hstate.owned_valid (hstate.messageRecordForEvent_eq_some.mp howned).1
    simp only [QueuedMessage.identity, Prod.mk.injEq] at howner
    obtain ⟨-, hownerSession, rfl, -⟩ := howner
    rw [hownerSession] at hknown
    obtain ⟨queued, hqueued, hsame⟩ := QueuedMessage.exists_fromEvent
      (max now ((state.ownedEnqueueTimes sessionId).max?.getD 0)) hplatform hkind hsession hvalid.author
    refine ⟨some queued, ?_, by rw [Option.map_some, hsame, hidentity]⟩
    simp only [RuntimeState.queuedMessageForEvent, hkind, except_bind_eq_ok, okOr_eq_ok,
      rejectIf_eq_ok, session_isNone, not_not, except_pure_eq_ok]
    exact ⟨sessionId, hsession, (), hknown, queued, hqueued, rfl⟩
  | sessionStarted | runtimeNotice =>
    have hnone : ∀ message, event.kind ≠ .messageReceived message := by simp [hkind]
    refine ⟨none, ?_, (Event.messageIdentity_eq_none hnone).symm⟩
    simp only [RuntimeState.queuedMessageForEvent, hkind]

/-- An event that a valid state has recorded is a duplicate, and changes nothing. -/
theorem HasRecorded.duplicate (h : state.HasRecorded event) (hstate : state.Valid) (now : U64) :
    recordInboundEventAt event now state = .ok .duplicate state := by
  obtain ⟨queued, hqueued, hidentity⟩ := h.queuedMessageForEvent hstate now
  obtain ⟨record, hrecord, hreceived⟩ := h.ledger
  have hmessage := h.message.trans hidentity.symm
  simp only [recordInboundEventAt, estate_bind_eq_ok, estate_get_eq_ok, question_eq_ok]
  refine ⟨_, _, ⟨rfl, rfl⟩, queued, _, ⟨hqueued, rfl⟩, ?_⟩
  simp only [hrecord, estate_bind_eq_ok, question_eq_ok, estate_pure_eq_ok, validateDuplicateEvent,
    except_bind_unit_eq_ok, rejectIf_eq_ok, not_not]
  refine ⟨(), state, ⟨⟨hreceived, ?_⟩, rfl⟩, trivial, rfl⟩
  clear hidentity hqueued
  cases hexisting : state.messageRecordForEvent event.id <;> cases queued <;>
    simp_all [QueuedMessage.hasSameIdentity_iff]

/-- An event whose id is in the ledger is a duplicate or refused, and changes nothing. -/
theorem recordInboundEventAt_known {record : InboundEventRecord}
    (h : state.inboundEvent event.id = some record) (now : U64) :
    recordInboundEventAt event now state = .ok .duplicate state ∨
      ∃ err, recordInboundEventAt event now state = .error err state := by
  have hatomic : Atomic (recordInboundEventAt event now) := by
    refine .get_bind fun state ↦ .question_bind fun queued ↦ ?_
    cases state.inboundEvent event.id with
    | some existing => exact .question_bind fun _ ↦ Total.pure.atomic
    | none => exact .question_bind fun _ ↦ Total.modify.atomic.bind_total fun _ ↦ .pure
  cases hresult : recordInboundEventAt event now state with
  | ok status state' =>
    obtain ⟨_, -, ⟨rfl, rfl, -⟩ | ⟨-, hnew, -⟩⟩ := recordInboundEventAt_eq_ok hresult
    · exact .inl rfl
    · rw [h] at hnew
      cases hnew
  | error err state' => exact .inr ⟨err, by rw [hatomic _ _ _ hresult]⟩

/-- An event that contradicts a recorded one is refused, and changes nothing. -/
theorem HasRecorded.refused (h : state.HasRecorded event) (hstate : state.Valid)
    (hid : other.id = event.id) (hconflict : event.ConflictsWith other) (now : U64) :
    ∃ err, recordInboundEventAt other now state = .error err state := by
  obtain ⟨record, hrecord, hreceived⟩ := h.ledger
  have hknown : state.inboundEvent other.id = some record := hid ▸ hrecord
  rcases recordInboundEventAt_known hknown now with hduplicate | hrefused
  · have hother := hasRecorded_of_recordInboundEventAt hstate hduplicate
    obtain ⟨record', hrecord', hreceived'⟩ := hother.ledger
    rw [hid, hrecord] at hrecord'
    obtain rfl := Option.some.inj hrecord'
    refine absurd hconflict (Event.not_conflictsWith h.platform hother.platform
      (hreceived'.symm.trans hreceived) ?_)
    rw [← h.message, ← hother.message, hid]
  · exact hrefused

/-! ## Later states -/

/-- A merge keeps what the candidate has recorded. -/
theorem HasRecorded.merged (h : candidate.HasRecorded event) (hexisting : existing.Valid)
    (hcandidate : candidate.Valid) (hmergeable : Mergeable existing candidate)
    (hmerged : (merged existing candidate).Valid) :
    (merged existing candidate).HasRecorded event := by
  obtain ⟨record, hrecord, hreceived⟩ := h.ledger
  obtain ⟨hmem, hid⟩ := find_key_eq_some hrecord
  cases hknown : existing.inboundEvent event.id with
  | some existingRecord =>
    obtain ⟨heq, hidentity⟩ := hmergeable.events record hmem existingRecord (hid ▸ hknown)
    have hexistingRecorded : existing.HasRecorded event := by
      refine ⟨⟨record, heq ▸ hknown, hreceived⟩, ?_, h.platform⟩
      rw [← hid, hidentity, hid]
      exact h.message
    exact hexistingRecorded.evolves (hmergeable.evolves hexisting hcandidate)
  | none =>
    have hnew := find_key_eq_none_iff_notMem.mp hknown
    have hadded : record ∈ (RuntimeState.merged existing candidate).inboundEvents :=
      List.mem_append_right _ (mem_missingFrom.mpr ⟨hmem, hid ▸ hnew⟩)
    refine ⟨⟨record, hid ▸ find_key_of_mem hmerged.event_ids hadded, hreceived⟩, ?_, h.platform⟩
    rw [← h.message]
    -- What the existing state owns, a new event cannot have.
    have hforeign : ∀ owned ∈ existing.ownedMessages, owned.eventId ≠ event.id :=
      fun owned howned heq ↦ hnew (heq ▸ hexisting.eventId_mem howned)
    cases hmessage : candidate.messageRecordForEvent event.id with
    | some message =>
      obtain ⟨howned, heventId⟩ := hcandidate.messageRecordForEvent_eq_some.mp hmessage
      have hqueued : message ∈ candidate.queuedMessages := by
        rcases List.mem_append.mp howned with hclaimed | hqueued
        · obtain ⟨input, hinput, hclaimed⟩ := List.mem_flatMap.mp hclaimed
          have hshared := (find_key_eq_some (hmergeable.inputs input hinput)).1
          refine absurd heventId (hforeign message (List.mem_append_left _ ?_))
          exact List.mem_flatMap.mpr ⟨input, hshared, hclaimed⟩
        · exact hqueued
      have haddedQueued : message ∈ addedQueued existing candidate := by
        refine List.mem_filter.mpr ⟨hqueued, decide_eq_true fun hmem ↦ ?_⟩
        obtain ⟨owned, howned, heq⟩ := List.mem_map.mp hmem
        exact hforeign owned howned (heq.trans heventId)
      have hrebases : List.Forall₂ QueuedLater (addedQueued existing candidate)
        (rebaseAll existing.ownedMessages (addedQueued existing candidate)) := forall₂_rebaseAll
      obtain ⟨rebased, hrebased, hidentity, -⟩ :=
        (Extends.of_forall₂ hrebases).exists_of_mem haddedQueued
      have hmem : rebased ∈ (RuntimeState.merged existing candidate).ownedMessages := by
        rw [ownedMessages_merged]
        exact List.mem_append_right _ hrebased
      have hrebasedId := (QueuedMessage.eventId_eq_of_identity_eq hidentity).trans heventId
      rw [hmerged.messageRecordForEvent_eq_some.mpr ⟨hmem, hrebasedId⟩, Option.map_some,
        Option.map_some, hidentity]
    | none =>
      rw [Option.map_none, Option.map_eq_none_iff, Option.eq_none_iff_forall_ne_some]
      intro message hfound
      obtain ⟨howned, heventId⟩ := hmerged.messageRecordForEvent_eq_some.mp hfound
      rw [ownedMessages_merged, List.mem_append] at howned
      rcases howned with howned | hrebased
      · exact hforeign message howned heventId
      · obtain ⟨queued, hqueued, hidentity, -⟩ := mem_rebased hrebased
        have howner : queued ∈ candidate.ownedMessages :=
          List.mem_append_right _ (List.mem_of_mem_filter hqueued)
        have hqueuedId := (QueuedMessage.eventId_eq_of_identity_eq hidentity).symm.trans heventId
        rw [hcandidate.messageRecordForEvent_eq_some.mpr ⟨howner, hqueuedId⟩] at hmessage
        cases hmessage

/-- What can become of a state: an operation succeeds on it, a snapshot is saved over it, or it is
saved itself over the state that the file holds. -/
inductive Becomes (state : RuntimeState) : RuntimeState → Prop
  | operation {operation : Operation} {now : U64} {state' : RuntimeState}
    (hadmissible : operation.Admissible) (h : operation.apply now state = .ok () state') :
    Becomes state state'
  | savedOver {candidate written : RuntimeState} (hcandidate : candidate.validate = .ok ())
    (hmerge : candidate.mergeSnapshot (some state) = .ok written)
    (hwritten : written.validate = .ok ()) : Becomes state written
  | saved {existing : Option RuntimeState} {written : RuntimeState}
    (hexisting : ∀ state ∈ existing, state.validate = .ok ())
    (hmerge : state.mergeSnapshot existing = .ok written) (hwritten : written.validate = .ok ()) :
    Becomes state written

theorem Becomes.keeps (h : state.Becomes state') (hstate : state.Valid)
    (hrecorded : state.HasRecorded event) : state'.Valid ∧ state'.HasRecorded event := by
  cases h with
  | operation hadmissible h =>
    have hchange := Operation.change hstate hadmissible h
    exact ⟨hchange.valid hstate, hrecorded.evolves (hchange.evolves hstate)⟩
  | savedOver hcandidate hmerge hwritten =>
    rw [validate_eq_ok] at hcandidate hwritten
    obtain ⟨hmergeable, rfl⟩ := (mergeSnapshot_eq_ok hstate hcandidate).mp hmerge
    exact ⟨hwritten, hrecorded.evolves (hmergeable.evolves hstate hcandidate)⟩
  | @saved existing _ hexisting hmerge hwritten =>
    rw [validate_eq_ok] at hwritten
    cases existing with
    | none =>
      obtain ⟨-, rfl⟩ := mergeSnapshot_none_eq_ok.mp hmerge
      exact ⟨hwritten, hrecorded⟩
    | some existing =>
      have hvalid := validate_eq_ok.mp (hexisting existing rfl)
      obtain ⟨hmergeable, rfl⟩ := (mergeSnapshot_eq_ok hvalid hstate).mp hmerge
      exact ⟨hwritten, hrecorded.merged hvalid hstate hmergeable hwritten⟩

/-- Whatever becomes of a state. -/
def LeadsTo : RuntimeState → RuntimeState → Prop := Relation.ReflTransGen Becomes

theorem LeadsTo.keeps (h : state.LeadsTo state') (hstate : state.Valid)
    (hrecorded : state.HasRecorded event) : state'.Valid ∧ state'.HasRecorded event := by
  induction h with
  | refl => exact ⟨hstate, hrecorded⟩
  | tail _ hbecomes ih => exact hbecomes.keeps ih.1 ih.2

/-- From its recording on, an event is a duplicate in every later state and at every time, and one
with the same id that contradicts it is refused; neither changes the state. -/
theorem duplicate_detection_exact (state state' : RuntimeState) (event : Event)
    (hstate : state.validate = .ok ()) (hrecorded : state.HasRecorded event)
    (hlater : state.LeadsTo state') (now : U64) :
    recordInboundEventAt event now state' = .ok .duplicate state' ∧
      ∀ other : Event, other.id = event.id → event.ConflictsWith other →
        ∃ err, recordInboundEventAt other now state' = .error err state' := by
  obtain ⟨hstate', hrecorded'⟩ := hlater.keeps (validate_eq_ok.mp hstate) hrecorded
  exact ⟨hrecorded'.duplicate hstate' now, fun other hid hconflict ↦
    hrecorded'.refused hstate' hid hconflict now⟩

/-- The event whose message waits in `greetingState`. -/
def greeting : Event where
  id := greetingId
  source := .platform
  kind := .messageReceived greetingMessage
  receivedAtUnix := 0

theorem hasRecorded_greeting : greetingState.HasRecorded greeting where
  ledger := ⟨⟨greetingId, 0, 0⟩, rfl, rfl⟩
  message := rfl
  platform message h := by
    obtain rfl := EventKind.messageReceived.inj h
    exact ⟨rfl, rfl⟩

/-- The greeting is a duplicate when its message has been claimed. -/
theorem duplicate_detection_exact_claimed : ∃ state', state'.queuedMessages = [] ∧
    recordInboundEventAt greeting 9 state' = .ok .duplicate state' := by
  have hclaim : (Operation.claimMessageBatch ⟨"run_greeting", by decide⟩ ⟨2, 20, by decide⟩ 2).apply 2
      greetingState = .ok () _ := rfl
  have hbecomes := Becomes.operation (by exact trivial) hclaim
  refine ⟨_, ?_, (duplicate_detection_exact greetingState _ greeting rfl hasRecorded_greeting
    (.single hbecomes) 9).1⟩
  rfl

end RuntimeState

end FerrisBridge
