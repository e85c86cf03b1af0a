import FerrisBridge.Runtime.Polling
import FerrisBridge.State.Change

/-!
# Claiming a batch

What `claimMessageBatch` does to a valid state: it fails only for a run id that is taken, waits while
no session without an active run has a ready batch, and else hands the batch of the session that is
ready first over to a new run, without a change to anything else.
-/

open Foundations

namespace FerrisBridge

namespace RuntimeState

variable {state state' : RuntimeState} {runId : RunId} {policy : MessageQueuePolicy}
  {nowUnix now : U64}

/-- A session without an active run whose batch is ready. -/
def ReadyToClaim (state : RuntimeState) (policy : MessageQueuePolicy) (nowUnix : U64)
    (id : SessionId) : Prop :=
  (∀ run ∈ state.runs, run.sessionId = id → run.isTerminal = true) ∧
    ∃ time, policy.ReadyAt state.queuedMessages id time ∧ time ≤ nowUnix

/-- The state after a batch has been claimed, with the new run and its input. -/
structure ClaimsBatch (state : RuntimeState) (runId : RunId) (policy : MessageQueuePolicy)
    (nowUnix : U64) (run : RunRecord) (input : RunInputRecord) (state' : RuntimeState) : Prop where
  ready : state.ReadyToClaim policy nowUnix input.sessionId
  readyAt : policy.ReadyAt state.queuedMessages input.sessionId input.readyAtUnix
  first : ∀ id time, state.ReadyToClaim policy nowUnix id →
    policy.ReadyAt state.queuedMessages id time →
      toLex (input.readyAtUnix, input.sessionId) ≤ toLex (time, id)
  run_id : run.id = runId
  run_session : run.sessionId = input.sessionId
  run_pending : run.status = .pending
  run_created : run.createdAtUnix = nowUnix
  input_run : input.runId = runId
  input_claimed : input.claimedAtUnix = nowUnix
  messages : input.messages = (queueOf state.queuedMessages input.sessionId).take
    (min policy.maxBatchSize (queueOf state.queuedMessages input.sessionId).length)
  queue : state'.queuedMessages = state.queuedMessages.filter (· ∉ input.messages)
  runs : state'.runs = state.runs ++ [run]
  inputs : state'.runInputs = state.runInputs ++ [input]
  updated : state.updatedAtUnix ≤ state'.updatedAtUnix
  sessions : state'.sessions = state.sessions
  events : state'.inboundEvents = state.inboundEvents
  deliveries : state'.outboundDeliveries = state.outboundDeliveries

/-- The sessions that a claim may choose from. -/
def isClaimable (state : RuntimeState) (id : SessionId) : Bool :=
  id ∉ (state.runs.filter (·.isTerminal = false)).map (·.sessionId)

theorem isClaimable_iff {id : SessionId} : state.isClaimable id = true ↔
    ∀ run ∈ state.runs, run.sessionId = id → run.isTerminal = true := by
  simp only [isClaimable, decide_eq_true_eq, List.mem_map, List.mem_filter, not_exists, not_and,
    and_imp]
  refine forall₂_congr fun run _ ↦ ?_
  cases run.isTerminal <;> simp

theorem readyToClaim_iff {id : SessionId} : state.ReadyToClaim policy nowUnix id ↔
    state.isClaimable id = true ∧ ∃ time, policy.ReadyAt state.queuedMessages id time ∧ time ≤ nowUnix := by
  rw [ReadyToClaim, isClaimable_iff]

/-! ## Batches of valid states -/

theorem Consistent.queue_ids (h : state.Consistent) :
    (state.queuedMessages.map (·.eventId)).Nodup := by
  have hids := h.owned_ids
  rw [ownedMessages, List.map_append] at hids
  exact hids.of_append_right

theorem Consistent.queueOf_ordered (h : state.Consistent) (id : SessionId) :
    (queueOf state.queuedMessages id).Pairwise fun first second ↦
      first.enqueuedAtUnix ≤ second.enqueuedAtUnix := by
  have hordered := h.owned_ordered id
  rw [ownedOf, ownedMessages, List.filter_append, List.pairwise_append] at hordered
  exact hordered.2.1

/-- The last message of a batch was queued before the batch was ready. -/
theorem last_le_readyAt {queuedMessages : List QueuedMessage} {id : SessionId} {time : U64}
    (h : policy.ReadyAt queuedMessages id time) {last : QueuedMessage}
    (hlast : (policy.batchOf queuedMessages id).getLast? = some last) :
    last.enqueuedAtUnix ≤ time := by
  have hpos := policy.maxBatchSize_pos
  rw [MessageQueuePolicy.batchOf] at hlast
  rcases h with ⟨message, hmessage, rfl⟩ | ⟨hshort, final, hfinal, rfl⟩
  · rw [List.getLast?_take, if_neg (by omega), hmessage, Option.some_or] at hlast
    rw [Option.some.inj hlast]
  · rw [List.take_of_length_le hshort.le, hfinal] at hlast
    rw [← Option.some.inj hlast]
    exact Word.le_saturatingAdd _ _

/-- The batch that a poll of a valid state selects makes a valid run input. -/
theorem Consistent.valid_input {isEligible : SessionId → Bool} {batch : MessageBatch}
    (h : state.Consistent)
    (hselects : policy.Selects state.queuedMessages isEligible nowUnix batch) :
    RunInputRecord.fromBatch runId batch nowUnix = .ok
      { runId
        sessionId := batch.sessionId
        messages := batch.messages
        readyAtUnix := batch.readyAtUnix
        claimedAtUnix := nowUnix } := by
  have hsublist : batch.messages.Sublist (queueOf state.queuedMessages batch.sessionId) := by
    rw [hselects.messages]
    exact List.take_sublist _ _
  have hmem : ∀ message ∈ batch.messages,
      message ∈ state.queuedMessages ∧ message.sessionId = batch.sessionId := by
    intro message hmessage
    simpa [queueOf] using hsublist.subset hmessage
  simp only [RunInputRecord.fromBatch, except_bind_unit_eq_ok, except_pure_eq_ok, and_true,
    RunInputRecord.validate_eq_ok]
  exact {
    nonempty := by
      obtain ⟨queued, hqueued, hsession⟩ :=
        MessageQueuePolicy.exists_readyAt_iff.mp ⟨_, hselects.readyAt⟩
      have hne : queueOf state.queuedMessages batch.sessionId ≠ [] :=
        List.ne_nil_of_mem (List.mem_filter.mpr ⟨hqueued, decide_eq_true hsession⟩)
      simpa [hselects.messages, MessageQueuePolicy.batchOf, hne] using policy.maxBatchSize_pos.ne'
    ready_le := hselects.ready_le
    messages_valid := fun message hmessage ↦ h.queued message (hmem message hmessage).1
    messages_session := fun message hmessage ↦ (hmem message hmessage).2
    eventIds_nodup := h.queue_ids.sublist ((hsublist.trans List.filter_sublist).map _)
    ordered := (h.queueOf_ordered batch.sessionId).sublist hsublist
    last_le := fun last hlast ↦
      last_le_readyAt hselects.readyAt (hselects.messages ▸ hlast) }

/-! ## The claim -/

theorem claimMessageBatch_of_waiting {next : Option U64}
    (hpoll : policy.pollWhere state.queuedMessages nowUnix state.isClaimable = .waiting next) :
    claimMessageBatch runId policy nowUnix now state = .ok (.waiting next) state := by
  unfold isClaimable at hpoll
  simp only [claimMessageBatch, estate_bind_eq_ok, estate_get_eq_ok]
  refine ⟨state, state, ⟨rfl, rfl⟩, ?_⟩
  simp only [hpoll, estate_pure_eq_ok, and_self]

/-- A selected batch is handed over unless the run id is taken. -/
theorem claimMessageBatch_of_ready (hstate : state.Valid) {batch : MessageBatch}
    (hpoll : policy.pollWhere state.queuedMessages nowUnix state.isClaimable = .ready batch)
    {outcome : MessageBatchClaimOutcome} :
    claimMessageBatch runId policy nowUnix now state = .ok outcome state' ↔
      runId ∉ state.runs.map (·.id) ∧ ∃ run input, outcome = .claimed run input ∧
        run = .new runId batch.sessionId nowUnix ∧
        input = ⟨runId, batch.sessionId, batch.messages, batch.readyAtUnix, nowUnix⟩ ∧
        state' = touchAt nowUnix (touchAt (max run.updatedAtUnix now) { state with
          runs := state.runs ++ [run]
          queuedMessages := state.queuedMessages.filter
            (·.eventId ∉ input.messages.map (·.eventId))
          runInputs := state.runInputs ++ [input] }) := by
  have hselects : policy.Selects state.queuedMessages state.isClaimable nowUnix batch :=
    MessageQueuePolicy.pollWhere_eq_iff.mp hpoll
  have hknown : batch.sessionId ∈ state.sessions.map (·.id) := by
    obtain ⟨queued, hqueued, hsession⟩ :=
      MessageQueuePolicy.exists_readyAt_iff.mp ⟨_, hselects.readyAt⟩
    rw [← hsession]
    exact hstate.queued_sessions queued hqueued
  have hactive : ∀ other ∈ state.runs, NotBothActive other (.new runId batch.sessionId nowUnix) := by
    intro other hother hopen _ hsession
    rw [isClaimable_iff.mp hselects.eligible other hother hsession] at hopen
    cases hopen
  unfold isClaimable at hpoll
  simp only [claimMessageBatch, estate_bind_eq_ok, estate_get_eq_ok]
  constructor
  · rintro ⟨_, _, ⟨rfl, rfl⟩, h⟩
    simp only [hpoll, estate_bind_eq_ok, question_eq_ok, hstate.valid_input hselects, addRun_eq_ok,
      estate_modify_eq_ok, estate_pure_eq_ok, Except.ok.injEq] at h
    obtain ⟨_, _, ⟨rfl, rfl⟩, _, _, ⟨⟨-, hid, -⟩, rfl⟩, _, _, rfl, rfl, rfl⟩ := h
    exact ⟨hid, _, _, rfl, rfl, rfl, rfl⟩
  · rintro ⟨hid, _, _, rfl, rfl, rfl, rfl⟩
    refine ⟨state, state, ⟨rfl, rfl⟩, ?_⟩
    simp only [hpoll, estate_bind_eq_ok, question_eq_ok, hstate.valid_input hselects, addRun_eq_ok,
      estate_modify_eq_ok, estate_pure_eq_ok, Except.ok.injEq]
    exact ⟨_, _, ⟨rfl, rfl⟩, (), _, ⟨⟨hknown, hid, hactive⟩, rfl⟩, (), _, rfl, rfl, rfl⟩

/-- The result of a claim for each answer of the poll. -/
theorem claimMessageBatch_cases (hstate : state.Valid) (runId : RunId) (policy : MessageQueuePolicy)
    (nowUnix now : U64) :
    (∃ next, policy.Awaits state.queuedMessages state.isClaimable nowUnix next ∧
        claimMessageBatch runId policy nowUnix now state = .ok (.waiting next) state) ∨
      ∃ batch, policy.Selects state.queuedMessages state.isClaimable nowUnix batch ∧
        ∀ outcome state', claimMessageBatch runId policy nowUnix now state = .ok outcome state' ↔
          runId ∉ state.runs.map (·.id) ∧ ∃ run input, outcome = .claimed run input ∧
            run = .new runId batch.sessionId nowUnix ∧
            input = ⟨runId, batch.sessionId, batch.messages, batch.readyAtUnix, nowUnix⟩ ∧
            state' = touchAt nowUnix (touchAt (max run.updatedAtUnix now) { state with
              runs := state.runs ++ [run]
              queuedMessages := state.queuedMessages.filter
                (·.eventId ∉ input.messages.map (·.eventId))
              runInputs := state.runInputs ++ [input] }) := by
  cases hpoll : policy.pollWhere state.queuedMessages nowUnix state.isClaimable with
  | waiting next =>
    exact .inl ⟨next, MessageQueuePolicy.pollWhere_eq_iff.mp hpoll, claimMessageBatch_of_waiting hpoll⟩
  | ready batch =>
    exact .inr ⟨batch, MessageQueuePolicy.pollWhere_eq_iff.mp hpoll,
      fun _ _ ↦ claimMessageBatch_of_ready hstate hpoll⟩

/-- With the messages of a batch, exactly their entries leave the queue. -/
theorem Consistent.filter_claimed (h : state.Consistent) {messages : List QueuedMessage}
    (hmessages : messages ⊆ state.queuedMessages) :
    state.queuedMessages.filter (·.eventId ∉ messages.map (·.eventId)) =
      state.queuedMessages.filter (· ∉ messages) := by
  refine List.filter_congr fun queued hqueued ↦ ?_
  rw [decide_eq_decide, not_iff_not, List.mem_map]
  constructor
  · rintro ⟨message, hmessage, hid⟩
    obtain rfl := eq_of_key_eq h.queue_ids (hmessages hmessage) hqueued hid
    exact hmessage
  · exact fun hmessage ↦ ⟨queued, hmessage, rfl⟩

/-- What a claim of a ready batch leaves behind. -/
theorem claimsBatch_of_selects (hstate : state.Valid) {batch : MessageBatch}
    (hselects : policy.Selects state.queuedMessages state.isClaimable nowUnix batch) :
    let run := RunRecord.new runId batch.sessionId nowUnix
    let input : RunInputRecord :=
      ⟨runId, batch.sessionId, batch.messages, batch.readyAtUnix, nowUnix⟩
    ClaimsBatch state runId policy nowUnix run input
      (touchAt nowUnix (touchAt (max run.updatedAtUnix now) { state with
        runs := state.runs ++ [run]
        queuedMessages := state.queuedMessages.filter
          (·.eventId ∉ input.messages.map (·.eventId))
        runInputs := state.runInputs ++ [input] })) where
  ready := readyToClaim_iff.mpr ⟨hselects.eligible, _, hselects.readyAt, hselects.ready_le⟩
  readyAt := hselects.readyAt
  first id time hready hreadyAt := by
    obtain ⟨heligible, time', hreadyAt', hle⟩ := readyToClaim_iff.mp hready
    obtain rfl := hreadyAt.unique hreadyAt'
    exact hselects.first id time heligible hreadyAt hle
  run_id := rfl
  run_session := rfl
  run_pending := rfl
  run_created := rfl
  input_run := rfl
  input_claimed := rfl
  messages := by
    rw [hselects.messages, MessageQueuePolicy.batchOf, ← List.take_eq_take_min]
  queue := by
    refine hstate.filter_claimed fun message hmessage ↦ ?_
    change message ∈ batch.messages at hmessage
    rw [hselects.messages] at hmessage
    exact List.mem_of_mem_filter (List.mem_of_mem_take hmessage)
  runs := rfl
  inputs := rfl
  updated := (le_max_left _ _).trans (le_max_left _ _)
  sessions := rfl
  events := rfl
  deliveries := rfl

/-- `claim_message_batch` end to end. -/
theorem claimMessageBatch_spec (state : RuntimeState) (hstate : state.validate = .ok ())
    (runId : RunId) (policy : MessageQueuePolicy) (nowUnix now : U64) :
    (∀ err state', claimMessageBatch runId policy nowUnix now state = .error err state' →
        (∃ id, state.ReadyToClaim policy nowUnix id) ∧ ∃ run ∈ state.runs, run.id = runId) ∧
      ((∃ next state', claimMessageBatch runId policy nowUnix now state = .ok (.waiting next) state') ↔
        ∀ id, ¬state.ReadyToClaim policy nowUnix id) ∧
      (∀ next state', claimMessageBatch runId policy nowUnix now state = .ok (.waiting next) state' →
        state' = state) ∧
      ∀ run input state',
        claimMessageBatch runId policy nowUnix now state = .ok (.claimed run input) state' →
          ClaimsBatch state runId policy nowUnix run input state' := by
  rw [validate_eq_ok] at hstate
  rcases claimMessageBatch_cases hstate runId policy nowUnix now with
    ⟨next, hawaits, hclaim⟩ | ⟨batch, hselects, hclaim⟩
  · have hnone : ∀ id, ¬state.ReadyToClaim policy nowUnix id := by
      intro id hready
      obtain ⟨heligible, time, hreadyAt, hle⟩ := readyToClaim_iff.mp hready
      exact absurd hle (hawaits.later id time heligible hreadyAt).not_ge
    refine ⟨fun err state' h ↦ ?_, iff_of_true ⟨next, state, hclaim⟩ hnone, fun next' state' h ↦ ?_,
      fun run input state' h ↦ ?_⟩
    · cases hclaim.symm.trans h
    · cases hclaim.symm.trans h
      rfl
    · cases hclaim.symm.trans h
  · have hready : state.ReadyToClaim policy nowUnix batch.sessionId :=
      readyToClaim_iff.mpr ⟨hselects.eligible, _, hselects.readyAt, hselects.ready_le⟩
    have hnotWaiting : ∀ next state',
        claimMessageBatch runId policy nowUnix now state ≠ .ok (.waiting next) state' := by
      intro next state' h
      obtain ⟨-, _, _, houtcome, -⟩ := (hclaim _ _).mp h
      cases houtcome
    refine ⟨fun err state' h ↦ ⟨⟨_, hready⟩, ?_⟩, iff_of_false ?_ (fun hnone ↦ hnone _ hready),
      fun next state' h ↦ absurd h (hnotWaiting next state'), fun run input state' h ↦ ?_⟩
    · by_contra hnew
      have hid : runId ∉ state.runs.map (·.id) := by simpa using hnew
      cases h.symm.trans ((hclaim _ _).mpr ⟨hid, _, _, rfl, rfl, rfl, rfl⟩)
    · rintro ⟨next, state', h⟩
      exact hnotWaiting next state' h
    · obtain ⟨-, _, _, houtcome, rfl, rfl, rfl⟩ := (hclaim _ _).mp h
      obtain ⟨rfl, rfl⟩ := MessageBatchClaimOutcome.claimed.inj houtcome
      exact claimsBatch_of_selects hstate hselects

def greetingScope : SessionScope := ⟨"lark-dev", "chat:oc_456", by decide, by decide⟩

def greetingId : EventId := ⟨"evt_greeting", by decide⟩

def greetingMessage : Message where
  id := ⟨"msg_greeting", by decide⟩
  sessionId := some (.forScope greetingScope)
  author := .user
  content := .text "good morning" (by decide)
  createdAtUnix := 0

/-- A chat whose first message waits in the queue. -/
def greetingState : RuntimeState :=
  { RuntimeState.new 0 with
    sessions := [.new greetingScope 0]
    inboundEvents := [⟨greetingId, 0, 0⟩]
    queuedMessages := [⟨greetingId, .forScope greetingScope, greetingMessage, 0, 0⟩] }

/-- The message is claimed once the debounce interval is over. -/
theorem claimMessageBatch_spec_greeting : ∃ run input state',
    ClaimsBatch greetingState ⟨"run_greeting", by decide⟩ ⟨2, 20, by decide⟩ 2 run input state' :=
  ⟨_, _, _, (claimMessageBatch_spec greetingState rfl ⟨"run_greeting", by decide⟩ ⟨2, 20, by decide⟩ 2
    2).2.2.2 _ _ _ rfl⟩

end RuntimeState

end FerrisBridge
