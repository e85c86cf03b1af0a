import FerrisBridge.Foundations.Sequence
import FerrisBridge.Runtime.Run

/-!
# The message queue

Queued inbound messages, the batches the queue policy forms from them, and the durable input of an
agent run, which takes over the messages of one batch.
-/

open Foundations

namespace FerrisBridge

/-! ## Queued messages -/

structure QueuedMessage where
  eventId : EventId
  sessionId : SessionId
  message : Message
  receivedAtUnix : U64
  enqueuedAtUnix : U64
  deriving DecidableEq, Repr

namespace QueuedMessage

variable {queued : QueuedMessage}

def validate (queued : QueuedMessage) : Except String Unit := do
  rejectIf (queued.message.author ≠ .user)
    s!"queued message event {queued.eventId} must contain a user-authored message"
  rejectIf (queued.message.sessionId ≠ some queued.sessionId)
    s!"queued message event {queued.eventId} does not match session {queued.sessionId}"
  rejectIf (queued.enqueuedAtUnix < queued.receivedAtUnix)
    s!"queued message event {queued.eventId} has enqueued_at_unix before received_at_unix"

/-- What `validate` accepts. -/
structure Valid (queued : QueuedMessage) : Prop where
  author : queued.message.author = .user
  session : queued.message.sessionId = some queued.sessionId
  received_le : queued.receivedAtUnix ≤ queued.enqueuedAtUnix

theorem validate_eq_ok {u : Unit} : queued.validate = .ok u ↔ queued.Valid := by
  simp only [validate, except_bind_unit_eq_ok, rejectIf_eq_ok, not_not, not_lt]
  exact ⟨fun h ↦ ⟨h.1, h.2.1, h.2.2⟩, fun h ↦ ⟨h.author, h.session, h.received_le⟩⟩

def fromEvent (event : Event) (enqueuedAtUnix : U64) : Except String QueuedMessage := do
  rejectIf (event.source ≠ .platform)
    s!"inbound message event {event.id} must come from a platform"
  match event.kind with
  | .messageReceived message =>
    let sessionId ← okOr message.sessionId
      s!"inbound message event {event.id} must reference a session before queueing"
    let queued : QueuedMessage :=
      { eventId := event.id
        sessionId
        message
        receivedAtUnix := event.receivedAtUnix
        enqueuedAtUnix := max enqueuedAtUnix event.receivedAtUnix }
    queued.validate
    return queued
  | _ => throw s!"inbound event {event.id} does not contain a received message"

/-- A message record takes over the event, and is queued no earlier than asked for. -/
theorem fromEvent_eq_ok {event : Event} {enqueuedAtUnix : U64}
    (h : fromEvent event enqueuedAtUnix = .ok queued) :
    queued.Valid ∧ event.kind = .messageReceived queued.message ∧ queued.eventId = event.id ∧
      queued.receivedAtUnix = event.receivedAtUnix ∧
      queued.enqueuedAtUnix = max enqueuedAtUnix event.receivedAtUnix := by
  rw [fromEvent, except_bind_unit_eq_ok] at h
  replace h := h.2
  split at h
  · rename_i message hkind
    simp only [except_bind_eq_ok, okOr_eq_ok, validate_eq_ok, except_pure_eq_ok] at h
    obtain ⟨sessionId, -, -, hvalid, rfl⟩ := h
    exact ⟨hvalid, hkind, rfl, rfl, rfl⟩
  · cases h

def rebaseEnqueuedAtUnix (queued : QueuedMessage) (minimum : U64) : QueuedMessage :=
  { queued with enqueuedAtUnix := max queued.enqueuedAtUnix minimum }

def hasSameIdentity (queued other : QueuedMessage) : Bool :=
  queued.eventId = other.eventId ∧ queued.sessionId = other.sessionId ∧
    queued.message = other.message ∧ queued.receivedAtUnix = other.receivedAtUnix

/-- The part of a message record that `hasSameIdentity` compares. -/
def identity (queued : QueuedMessage) : EventId × SessionId × Message × U64 :=
  (queued.eventId, queued.sessionId, queued.message, queued.receivedAtUnix)

/-- Every user message of a platform event can be queued. -/
theorem exists_fromEvent {event : Event} {message : Message} {sessionId : SessionId}
    (enqueuedAtUnix : U64) (hsource : event.source = .platform)
    (hkind : event.kind = .messageReceived message) (hsession : message.sessionId = some sessionId)
    (hauthor : message.author = .user) :
    ∃ queued, fromEvent event enqueuedAtUnix = .ok queued ∧
      queued.identity = (event.id, sessionId, message, event.receivedAtUnix) := by
  refine ⟨⟨event.id, sessionId, message, event.receivedAtUnix,
    max enqueuedAtUnix event.receivedAtUnix⟩, ?_, rfl⟩
  rw [fromEvent, except_bind_unit_eq_ok]
  simp only [rejectIf_eq_ok, hsource, ne_eq, not_true_eq_false, not_false_eq_true, true_and, hkind,
    except_bind_eq_ok, okOr_eq_ok, validate_eq_ok, except_pure_eq_ok]
  exact ⟨sessionId, hsession, (), ⟨hauthor, hsession, le_max_right _ _⟩, rfl⟩

theorem hasSameIdentity_iff {other : QueuedMessage} :
    queued.hasSameIdentity other = true ↔ queued.identity = other.identity := by
  simp [hasSameIdentity, identity]

@[simp]
theorem identity_rebaseEnqueuedAtUnix (minimum : U64) :
    (queued.rebaseEnqueuedAtUnix minimum).identity = queued.identity := rfl

theorem eventId_eq_of_identity_eq {other : QueuedMessage} (h : queued.identity = other.identity) :
    queued.eventId = other.eventId := congrArg (·.1) h

theorem sessionId_eq_of_identity_eq {other : QueuedMessage} (h : queued.identity = other.identity) :
    queued.sessionId = other.sessionId := congrArg (·.2.1) h

end QueuedMessage

/-! ## Batches and run inputs -/

structure MessageBatch where
  sessionId : SessionId
  messages : List QueuedMessage
  readyAtUnix : U64
  deriving DecidableEq, Repr

structure RunInputRecord where
  runId : RunId
  sessionId : SessionId
  messages : List QueuedMessage
  readyAtUnix : U64
  claimedAtUnix : U64
  deriving DecidableEq, Repr

namespace RunInputRecord

variable {input : RunInputRecord}

/-- The accumulators of the message loop of `validate`. -/
structure MessageLoop where
  eventIds : List EventId
  previousEnqueuedAt : Option U64

/-- One iteration of the message loop of `validate`. -/
def validateMessage (input : RunInputRecord) (loop : MessageLoop) (message : QueuedMessage) :
    Except String MessageLoop := do
  message.validate
  rejectIf (message.sessionId ≠ input.sessionId)
    (s!"run input {input.runId} contains message for session {message.sessionId} " ++
      s!"instead of {input.sessionId}")
  rejectIf (message.eventId ∈ loop.eventIds)
    s!"run input {input.runId} contains duplicate event {message.eventId}"
  rejectIf (loop.previousEnqueuedAt.any fun previous ↦ message.enqueuedAtUnix < previous)
    s!"run input {input.runId} messages are not ordered by enqueued_at_unix"
  return {
    eventIds := loop.eventIds ++ [message.eventId]
    previousEnqueuedAt := some message.enqueuedAtUnix }

def validate (input : RunInputRecord) : Except String Unit := do
  rejectIf (input.messages = []) s!"run input {input.runId} must contain messages"
  rejectIf (input.claimedAtUnix < input.readyAtUnix)
    s!"run input {input.runId} has claimed_at_unix before ready_at_unix"
  let _ ← input.messages.foldlM input.validateMessage ⟨[], none⟩
  rejectIf (input.messages.getLast?.any fun last ↦ input.readyAtUnix < last.enqueuedAtUnix)
    s!"run input {input.runId} has ready_at_unix before its last message"

/-- What `validate` accepts. -/
structure Valid (input : RunInputRecord) : Prop where
  nonempty : input.messages ≠ []
  ready_le : input.readyAtUnix ≤ input.claimedAtUnix
  messages_valid : ∀ message ∈ input.messages, message.Valid
  messages_session : ∀ message ∈ input.messages, message.sessionId = input.sessionId
  eventIds_nodup : (input.messages.map (·.eventId)).Nodup
  ordered : input.messages.Pairwise fun first second ↦
    first.enqueuedAtUnix ≤ second.enqueuedAtUnix
  last_le : ∀ last, input.messages.getLast? = some last → last.enqueuedAtUnix ≤ input.readyAtUnix

theorem validateMessages_eq_ok {loop : MessageLoop} :
    input.messages.foldlM input.validateMessage ⟨[], none⟩ = .ok loop ↔
      ((∀ message ∈ input.messages, message.Valid) ∧
        (∀ message ∈ input.messages, message.sessionId = input.sessionId) ∧
        (input.messages.map (·.eventId)).Nodup ∧
        input.messages.Pairwise fun first second ↦
          first.enqueuedAtUnix ≤ second.enqueuedAtUnix) ∧
      ⟨input.messages.map (·.eventId), input.messages.getLast?.map (·.enqueuedAtUnix)⟩ = loop := by
  refine (foldlM_eq_ok_iff
    (fun done : List QueuedMessage ↦
      ⟨done.map (·.eventId), done.getLast?.map (·.enqueuedAtUnix)⟩)
    (fun done message ↦ message.Valid ∧ message.sessionId = input.sessionId ∧
      message.eventId ∉ done.map (·.eventId) ∧
      ∀ last, done.getLast? = some last → last.enqueuedAtUnix ≤ message.enqueuedAtUnix)
    (fun done message _ loop' ↦ ?_) loop).trans (and_congr_left' ?_)
  · simp [validateMessage, except_bind_unit_eq_ok, except_map_eq_ok, QueuedMessage.validate_eq_ok,
      Option.any_eq_false]
    tauto
  · rw [EachAfter.and, EachAfter.and, EachAfter.and, EachAfter.const, EachAfter.const,
      EachAfter.nodup, EachAfter.getLast_iff (R := fun first second : QueuedMessage ↦
        first.enqueuedAtUnix ≤ second.enqueuedAtUnix) fun _ _ _ ↦ le_trans]

theorem validate_eq_ok {u : Unit} : input.validate = .ok u ↔ input.Valid := by
  simp only [validate, except_bind_eq_ok, validateMessages_eq_ok, rejectIf_eq_ok, not_lt,
    Bool.not_eq_true, Option.any_eq_false, decide_eq_false_iff_not]
  constructor
  · rintro ⟨_, hnonempty, _, hready, _, ⟨⟨hvalid, hsession, hnodup, hordered⟩, -⟩, hlast⟩
    exact ⟨hnonempty, hready, hvalid, hsession, hnodup, hordered, hlast⟩
  · intro h
    exact ⟨(), h.nonempty, (), h.ready_le, _, ⟨⟨h.messages_valid, h.messages_session,
      h.eventIds_nodup, h.ordered⟩, rfl⟩, h.last_le⟩

/-- The messages of an input were queued before they were claimed. -/
theorem Valid.enqueued_le (h : input.Valid) {message : QueuedMessage}
    (hmem : message ∈ input.messages) : message.enqueuedAtUnix ≤ input.claimedAtUnix := by
  obtain ⟨init, last, heq⟩ := (List.eq_nil_or_concat' input.messages).resolve_left h.nonempty
  have hlast : last.enqueuedAtUnix ≤ input.readyAtUnix := h.last_le last (by simp [heq])
  have hordered := h.ordered
  rw [heq, List.pairwise_append] at hordered
  rw [heq, List.mem_append, List.mem_singleton] at hmem
  rcases hmem with hmem | rfl
  · exact (hordered.2.2 message hmem last (by simp)).trans (hlast.trans h.ready_le)
  · exact hlast.trans h.ready_le

def fromBatch (runId : RunId) (batch : MessageBatch) (claimedAtUnix : U64) :
    Except String RunInputRecord := do
  let record : RunInputRecord :=
    { runId
      sessionId := batch.sessionId
      messages := batch.messages
      readyAtUnix := batch.readyAtUnix
      claimedAtUnix }
  record.validate
  return record

theorem fromBatch_eq_ok {runId : RunId} {batch : MessageBatch} {claimedAtUnix : U64}
    (h : fromBatch runId batch claimedAtUnix = .ok input) :
    input.Valid ∧ input.runId = runId ∧ input.sessionId = batch.sessionId ∧
      input.messages = batch.messages ∧ input.claimedAtUnix = claimedAtUnix := by
  simp only [fromBatch, except_bind_unit_eq_ok, except_pure_eq_ok, validate_eq_ok] at h
  obtain ⟨hvalid, rfl⟩ := h
  exact ⟨hvalid, rfl, rfl, rfl, rfl⟩

end RunInputRecord

inductive MessageBatchClaimOutcome
  | claimed (run : RunRecord) (input : RunInputRecord)
  | waiting (nextReadyAtUnix : Option U64)
  deriving DecidableEq, Repr

/-! ## The queue policy -/

inductive MessageQueuePoll
  | ready (batch : MessageBatch)
  | waiting (nextReadyAtUnix : Option U64)
  deriving DecidableEq, Repr

structure MessageQueuePolicy where
  debounceSecs : U64
  maxBatchSize : ℕ
  maxBatchSize_pos : 0 < maxBatchSize
  deriving DecidableEq, Repr

namespace MessageQueuePolicy

def new (debounceSecs : U64) (maxBatchSize : ℕ) : Except String MessageQueuePolicy :=
  if h : 0 < maxBatchSize then .ok ⟨debounceSecs, maxBatchSize, h⟩
  else .error "message queue max_batch_size must be greater than zero"

variable (policy : MessageQueuePolicy)

/-- When the messages of a session are ready as a batch; `none` for an empty group, which the
grouping never builds. -/
def readyAt (messages : List QueuedMessage) : Option U64 :=
  if policy.maxBatchSize ≤ messages.length then
    messages[policy.maxBatchSize - 1]?.map (·.enqueuedAtUnix)
  else
    messages.getLast?.map fun last ↦ last.enqueuedAtUnix.saturatingAdd policy.debounceSecs

/-- The sessions of the eligible messages in order, each with its messages in queue order and the
time its batch is ready. -/
def groups (queuedMessages : List QueuedMessage) (isEligible : SessionId → Bool) :
    List (U64 × SessionId × List QueuedMessage) :=
  let eligible := queuedMessages.filter (isEligible ·.sessionId)
  (eligible.map (·.sessionId)).dedup.insertionSort (· ≤ ·) |>.filterMap fun sessionId ↦
    let messages := eligible.filter (·.sessionId = sessionId)
    (policy.readyAt messages).map fun readyAtUnix ↦ (readyAtUnix, sessionId, messages)

/-- The group that is ready first; the session breaks a tie. -/
def firstReady (ready : List (U64 × SessionId × List QueuedMessage)) :
    Option (U64 × SessionId × List QueuedMessage) :=
  ready.foldl (fun best group ↦
    match best with
    | none => some group
    | some current =>
      if group.1 < current.1 ∨ (group.1 = current.1 ∧ group.2.1 < current.2.1) then some group
      else some current) none

def pollWhere (queuedMessages : List QueuedMessage) (nowUnix : U64) (isEligible : SessionId → Bool) :
    MessageQueuePoll :=
  let groups := policy.groups queuedMessages isEligible
  match firstReady (groups.filter (·.1 ≤ nowUnix)) with
  | none => .waiting ((groups.filter (nowUnix < ·.1)).map (·.1)).min?
  | some (readyAtUnix, sessionId, messages) =>
    .ready { sessionId, messages := messages.take policy.maxBatchSize, readyAtUnix }

def poll (queuedMessages : List QueuedMessage) (nowUnix : U64) : MessageQueuePoll :=
  policy.pollWhere queuedMessages nowUnix fun _ ↦ true

theorem firstReady_mem {ready : List (U64 × SessionId × List QueuedMessage)}
    {group : U64 × SessionId × List QueuedMessage} (h : firstReady ready = some group) :
    group ∈ ready := by
  unfold firstReady at h
  induction ready using List.reverseRecOn generalizing group with
  | nil => cases h
  | append_singleton init last ih =>
    rw [List.foldl_append, List.foldl_cons, List.foldl_nil] at h
    split at h
    · simp_all
    · rename_i current hcurrent
      split at h
      · simp_all
      · exact List.mem_append_left _ (Option.some.inj h ▸ ih hcurrent)

/-- A ready batch is the head of the queue of one eligible session. -/
theorem pollWhere_ready {queuedMessages : List QueuedMessage} {nowUnix : U64}
    {isEligible : SessionId → Bool} {batch : MessageBatch}
    (h : policy.pollWhere queuedMessages nowUnix isEligible = .ready batch) :
    isEligible batch.sessionId = true ∧
      batch.messages <+: queuedMessages.filter (·.sessionId = batch.sessionId) := by
  simp only [pollWhere] at h
  split at h
  · cases h
  · rename_i readyAtUnix sessionId messages hfirst
    obtain rfl := MessageQueuePoll.ready.inj h
    have hmem := List.mem_of_mem_filter (firstReady_mem hfirst)
    simp only [groups, List.mem_filterMap, List.mem_insertionSort, List.mem_dedup, List.mem_map,
      List.mem_filter, Option.map_eq_some_iff, Prod.mk.injEq] at hmem
    obtain ⟨_, ⟨queued, ⟨-, heligible⟩, rfl⟩, _, -, -, rfl, rfl⟩ := hmem
    have hgroup : (queuedMessages.filter (isEligible ·.sessionId)).filter
        (·.sessionId = queued.sessionId) =
        queuedMessages.filter (·.sessionId = queued.sessionId) := by
      rw [List.filter_filter]
      refine List.filter_congr fun message _ ↦ ?_
      by_cases hsession : message.sessionId = queued.sessionId <;> simp [hsession, heligible]
    exact ⟨heligible, hgroup ▸ List.take_prefix _ _⟩

end MessageQueuePolicy

end FerrisBridge
