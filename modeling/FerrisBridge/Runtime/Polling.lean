import FerrisBridge.Runtime.Queue

/-!
# Polling the queue

What a poll answers, in terms of the ready times of the sessions: the batch of the session that is
ready first, or the time at which the next one will be. The answer is determined by these times and
the batches of the eligible sessions, and both depend on the messages of their session alone.
-/

open Foundations

namespace FerrisBridge

/-- The messages of a session in queue order. -/
def queueOf (queuedMessages : List QueuedMessage) (id : SessionId) : List QueuedMessage :=
  queuedMessages.filter (·.sessionId = id)

namespace MessageQueuePolicy

variable (policy : MessageQueuePolicy)

/-- The first messages of a session, as many as a batch holds. -/
def batchOf (queuedMessages : List QueuedMessage) (id : SessionId) : List QueuedMessage :=
  (queueOf queuedMessages id).take policy.maxBatchSize

/-- The ready time of a session: when the message that fills a batch was queued, or else the debounce
interval after its last message. -/
def ReadyAt (queuedMessages : List QueuedMessage) (id : SessionId) (time : U64) : Prop :=
  (∃ message, (queueOf queuedMessages id)[policy.maxBatchSize - 1]? = some message ∧
      message.enqueuedAtUnix = time) ∨
    (queueOf queuedMessages id).length < policy.maxBatchSize ∧
      ∃ last, (queueOf queuedMessages id).getLast? = some last ∧
        last.enqueuedAtUnix.saturatingAdd policy.debounceSecs = time

section Spec

variable (queuedMessages : List QueuedMessage) (isEligible : SessionId → Bool) (nowUnix : U64)

/-- The batch is that of the eligible session that is ready first. -/
structure Selects (batch : MessageBatch) : Prop where
  eligible : isEligible batch.sessionId = true
  readyAt : policy.ReadyAt queuedMessages batch.sessionId batch.readyAtUnix
  ready_le : batch.readyAtUnix ≤ nowUnix
  first : ∀ id time, isEligible id = true → policy.ReadyAt queuedMessages id time →
    time ≤ nowUnix → toLex (batch.readyAtUnix, batch.sessionId) ≤ toLex (time, id)
  messages : batch.messages = policy.batchOf queuedMessages batch.sessionId

/-- No eligible session is ready yet, and the next one will be at the given time. -/
structure Awaits (nextReadyAtUnix : Option U64) : Prop where
  later : ∀ id time, isEligible id = true → policy.ReadyAt queuedMessages id time → nowUnix < time
  never : nextReadyAtUnix = none ↔ ∀ queued ∈ queuedMessages, isEligible queued.sessionId = false
  next : ∀ time, nextReadyAtUnix = some time →
    IsLeast {time | ∃ id, isEligible id = true ∧ policy.ReadyAt queuedMessages id time} time

/-- What a poll has to answer. -/
def Polls : MessageQueuePoll → Prop
  | .ready batch => policy.Selects queuedMessages isEligible nowUnix batch
  | .waiting nextReadyAtUnix => policy.Awaits queuedMessages isEligible nowUnix nextReadyAtUnix

end Spec

variable {policy} {queuedMessages : List QueuedMessage} {isEligible : SessionId → Bool}
  {nowUnix : U64} {id : SessionId} {time : U64}

theorem readyAt_eq_some_iff :
    policy.readyAt (queueOf queuedMessages id) = some time ↔
      policy.ReadyAt queuedMessages id time := by
  unfold readyAt ReadyAt
  have hpos := policy.maxBatchSize_pos
  by_cases hfull : policy.maxBatchSize ≤ (queueOf queuedMessages id).length
  · rw [if_pos hfull, Option.map_eq_some_iff, or_iff_left fun h ↦ absurd h.1 (by omega)]
  · have hshort : (queueOf queuedMessages id)[policy.maxBatchSize - 1]? = none :=
      List.getElem?_eq_none (by omega)
    rw [if_neg hfull, Option.map_eq_some_iff, hshort]
    simp [lt_of_not_ge hfull]

/-- A session has one ready time. -/
theorem ReadyAt.unique {time' : U64} (h : policy.ReadyAt queuedMessages id time)
    (h' : policy.ReadyAt queuedMessages id time') : time = time' :=
  Option.some.inj ((readyAt_eq_some_iff.mpr h).symm.trans (readyAt_eq_some_iff.mpr h'))

/-- The sessions with messages are those with a ready time. -/
theorem exists_readyAt_iff :
    (∃ time, policy.ReadyAt queuedMessages id time) ↔ ∃ queued ∈ queuedMessages, queued.sessionId = id := by
  have hnonempty : (∃ queued ∈ queuedMessages, queued.sessionId = id) ↔
      queueOf queuedMessages id ≠ [] := by
    simp [queueOf, List.filter_eq_nil_iff]
  simp only [← readyAt_eq_some_iff, ← Option.isSome_iff_exists, hnonempty]
  have hpos := policy.maxBatchSize_pos
  unfold readyAt
  by_cases hfull : policy.maxBatchSize ≤ (queueOf queuedMessages id).length
  · have hlast : policy.maxBatchSize - 1 < (queueOf queuedMessages id).length := by omega
    rw [if_pos hfull, Option.isSome_map, List.getElem?_eq_getElem hlast]
    exact iff_of_true rfl (List.ne_nil_of_length_pos (by omega))
  · rw [if_neg hfull, Option.isSome_map, List.getLast?_isSome]

/-- The groups are the eligible sessions with their ready times. -/
theorem mem_groups_iff {group : U64 × SessionId × List QueuedMessage} :
    group ∈ policy.groups queuedMessages isEligible ↔ isEligible group.2.1 = true ∧
      group.2.2 = queueOf queuedMessages group.2.1 ∧
      policy.ReadyAt queuedMessages group.2.1 group.1 := by
  obtain ⟨readyAtUnix, sessionId, messages⟩ := group
  have hgroup : ∀ id, isEligible id = true → (queuedMessages.filter (isEligible ·.sessionId)).filter
      (·.sessionId = id) = queueOf queuedMessages id := by
    intro id heligible
    rw [List.filter_filter]
    refine List.filter_congr fun message _ ↦ ?_
    by_cases hsession : message.sessionId = id <;> simp [hsession, heligible]
  simp only [groups, List.mem_filterMap, List.mem_insertionSort, List.mem_dedup, List.mem_map,
    List.mem_filter, Option.map_eq_some_iff, Prod.mk.injEq]
  constructor
  · rintro ⟨_, ⟨queued, ⟨-, heligible⟩, rfl⟩, _, hready, rfl, rfl, rfl⟩
    rw [hgroup _ heligible] at hready ⊢
    exact ⟨heligible, rfl, readyAt_eq_some_iff.mp hready⟩
  · rintro ⟨heligible, rfl, hready⟩
    obtain ⟨queued, hqueued, rfl⟩ := exists_readyAt_iff.mp ⟨_, hready⟩
    refine ⟨_, ⟨queued, ⟨hqueued, heligible⟩, rfl⟩, _, ?_, rfl, rfl, hgroup _ heligible⟩
    rw [hgroup _ heligible]
    exact readyAt_eq_some_iff.mpr hready

/-- The order in which ready groups are chosen. -/
def priority (group : U64 × SessionId × List QueuedMessage) : U64 ×ₗ SessionId :=
  toLex (group.1, group.2.1)

theorem firstReady_eq_argmin (ready : List (U64 × SessionId × List QueuedMessage)) :
    firstReady ready = ready.argmin priority := by
  unfold firstReady List.argmin
  congr 1
  funext best group
  cases best with
  | none => rfl
  | some current =>
    simp only [List.argAux, priority, Prod.Lex.toLex_lt_toLex]

/-- A poll answers what it has to. -/
theorem polls_pollWhere : policy.Polls queuedMessages isEligible nowUnix
    (policy.pollWhere queuedMessages nowUnix isEligible) := by
  have hgroup : ∀ id time, isEligible id = true → policy.ReadyAt queuedMessages id time →
      (time, id, queueOf queuedMessages id) ∈ policy.groups queuedMessages isEligible :=
    fun id time heligible hready ↦ mem_groups_iff.mpr ⟨heligible, rfl, hready⟩
  simp only [pollWhere, firstReady_eq_argmin]
  cases hfirst : ((policy.groups queuedMessages isEligible).filter (·.1 ≤ nowUnix)).argmin priority with
  | some group =>
    obtain ⟨hmem, hle⟩ := List.mem_filter.mp (List.argmin_mem hfirst)
    obtain ⟨heligible, hmessages, hready⟩ := mem_groups_iff.mp hmem
    refine ⟨heligible, hready, by simpa using hle, fun id time heligible hready hle ↦ ?_, ?_⟩
    · exact List.le_of_mem_argmin (f := priority)
        (List.mem_filter.mpr ⟨hgroup id time heligible hready, by simpa using hle⟩) hfirst
    · simp only [batchOf, hmessages]
  | none =>
    have hlater : ∀ group ∈ policy.groups queuedMessages isEligible, nowUnix < group.1 := by
      intro group hmem
      by_contra hle
      have hnone := List.argmin_eq_none.mp hfirst
      exact absurd (List.mem_filter.mpr ⟨hmem, by simpa using hle⟩) (hnone ▸ List.not_mem_nil)
    have hall : (policy.groups queuedMessages isEligible).filter (nowUnix < ·.1) =
        policy.groups queuedMessages isEligible :=
      List.filter_eq_self.mpr fun group hmem ↦ decide_eq_true (hlater group hmem)
    simp only [hall]
    refine ⟨fun id time heligible hready ↦ hlater _ (hgroup id time heligible hready), ?_,
      fun time htime ↦ ?_⟩
    · rw [List.min?_eq_none_iff, List.map_eq_nil_iff, List.eq_nil_iff_forall_not_mem]
      constructor
      · intro hempty queued hqueued
        by_contra heligible
        obtain ⟨time, hready⟩ := exists_readyAt_iff.mpr ⟨queued, hqueued, rfl⟩
        exact hempty _ (hgroup _ time (by simpa using heligible) hready)
      · intro hineligible group hmem
        obtain ⟨heligible, -, hready⟩ := mem_groups_iff.mp hmem
        obtain ⟨queued, hqueued, hsession⟩ := exists_readyAt_iff.mp ⟨_, hready⟩
        have := hineligible queued hqueued
        rw [hsession, heligible] at this
        cases this
    · obtain ⟨hmem, hleast⟩ := List.min?_eq_some_iff.mp htime
      obtain ⟨group, hgroupMem, rfl⟩ := List.mem_map.mp hmem
      obtain ⟨heligible, -, hready⟩ := mem_groups_iff.mp hgroupMem
      refine ⟨⟨_, heligible, hready⟩, ?_⟩
      rintro other ⟨id, heligible', hready'⟩
      exact hleast other (List.mem_map.mpr ⟨_, hgroup id other heligible' hready', rfl⟩)

/-- Only one answer meets the specification. -/
theorem Polls.unique {poll poll' : MessageQueuePoll}
    (h : policy.Polls queuedMessages isEligible nowUnix poll)
    (h' : policy.Polls queuedMessages isEligible nowUnix poll') : poll = poll' := by
  cases poll with
  | ready batch =>
    cases poll' with
    | ready batch' =>
      have hpriority := (h.first _ _ h'.eligible h'.readyAt h'.ready_le).antisymm
        (h'.first _ _ h.eligible h.readyAt h.ready_le)
      obtain ⟨hready, hsession⟩ := Prod.mk.inj (toLex.injective hpriority)
      have hmessages : batch.messages = batch'.messages := by
        rw [h.messages, h'.messages, hsession]
      cases batch
      cases batch'
      simp_all
    | waiting next =>
      exact absurd h.ready_le (h'.later _ _ h.eligible h.readyAt).not_ge
  | waiting next =>
    cases poll' with
    | ready batch => exact absurd h'.ready_le (h.later _ _ h'.eligible h'.readyAt).not_ge
    | waiting next' =>
      refine congrArg _ ?_
      cases next with
      | none => exact (h'.never.mpr (h.never.mp rfl)).symm
      | some time =>
        cases next' with
        | none => exact absurd (h.never.mpr (h'.never.mp rfl)) (by simp)
        | some time' => exact congrArg _ ((h.next time rfl).unique (h'.next time' rfl))

theorem pollWhere_eq_iff {poll : MessageQueuePoll} :
    policy.pollWhere queuedMessages nowUnix isEligible = poll ↔
      policy.Polls queuedMessages isEligible nowUnix poll := by
  constructor
  · rintro rfl
    exact polls_pollWhere
  · exact fun h ↦ Polls.unique polls_pollWhere h

/-- Until the next session is ready, a poll keeps answering when that will be; then it is ready. -/
theorem pollWhere_waiting {time : U64}
    (h : policy.pollWhere queuedMessages nowUnix isEligible = .waiting (some time)) :
    (∀ later, nowUnix ≤ later → later < time →
        policy.pollWhere queuedMessages later isEligible = .waiting (some time)) ∧
      ∃ batch, policy.pollWhere queuedMessages time isEligible = .ready batch := by
  have hawaits : policy.Awaits queuedMessages isEligible nowUnix (some time) := pollWhere_eq_iff.mp h
  obtain ⟨⟨id, heligible, hready⟩, hleast⟩ := hawaits.next time rfl
  constructor
  · intro later _ hlater
    apply pollWhere_eq_iff.mpr
    exact {
      later := fun id' time' heligible' hready' ↦ hlater.trans_le (hleast ⟨id', heligible', hready'⟩)
      never := hawaits.never
      next := hawaits.next }
  · cases hpoll : policy.pollWhere queuedMessages time isEligible with
    | ready batch => exact ⟨batch, rfl⟩
    | waiting next =>
      have hnone : policy.Awaits queuedMessages isEligible time next := pollWhere_eq_iff.mp hpoll
      exact absurd (hnone.later id time heligible hready) (lt_irrefl time)

end MessageQueuePolicy

/-! ## Sessions do not disturb each other -/

/-- Messages of one session are added to a queue, removed from it or delayed. -/
inductive Edits (id : SessionId) (queuedMessages : List QueuedMessage) : List QueuedMessage → Prop
  | refl : Edits id queuedMessages queuedMessages
  | add {queued : QueuedMessage} {before after : List QueuedMessage}
    (h : Edits id queuedMessages (before ++ after)) (hsession : queued.sessionId = id) :
    Edits id queuedMessages (before ++ queued :: after)
  | remove {queued : QueuedMessage} {before after : List QueuedMessage}
    (h : Edits id queuedMessages (before ++ queued :: after)) (hsession : queued.sessionId = id) :
    Edits id queuedMessages (before ++ after)
  | delay {queued : QueuedMessage} {time : U64} {before after : List QueuedMessage}
    (h : Edits id queuedMessages (before ++ queued :: after)) (hsession : queued.sessionId = id)
    (hle : queued.enqueuedAtUnix ≤ time) :
    Edits id queuedMessages (before ++ { queued with enqueuedAtUnix := time } :: after)

theorem queueOf_skip {queued : QueuedMessage} {before after : List QueuedMessage} {id : SessionId}
    (h : queued.sessionId ≠ id) :
    queueOf (before ++ queued :: after) id = queueOf (before ++ after) id := by
  simp [queueOf, h]

theorem Edits.queueOf_eq {id other : SessionId} {queuedMessages edited : List QueuedMessage}
    (h : Edits id queuedMessages edited) (hother : other ≠ id) :
    queueOf edited other = queueOf queuedMessages other := by
  induction h with
  | refl => rfl
  | add h hsession ih => rw [queueOf_skip (hsession.trans_ne hother.symm), ih]
  | remove h hsession ih => rw [← ih, queueOf_skip (hsession.trans_ne hother.symm)]
  | delay h hsession hle ih =>
    rw [queueOf_skip (hsession.trans_ne hother.symm)] at ih
    refine (queueOf_skip ?_).trans ih
    exact hsession.trans_ne hother.symm

namespace MessageQueuePolicy

/-- A poll answers exactly what the ready times say, its wake-up time is exact, and what happens to
the messages of one session changes neither the ready time nor the batch of another one. -/
theorem poll_spec (policy : MessageQueuePolicy) (queuedMessages : List QueuedMessage)
    (isEligible : SessionId → Bool) :
    (∀ nowUnix poll, policy.pollWhere queuedMessages nowUnix isEligible = poll ↔
        policy.Polls queuedMessages isEligible nowUnix poll) ∧
      (∀ nowUnix time, policy.pollWhere queuedMessages nowUnix isEligible = .waiting (some time) →
        (∀ later, nowUnix ≤ later → later < time →
            policy.pollWhere queuedMessages later isEligible = .waiting (some time)) ∧
          ∃ batch, policy.pollWhere queuedMessages time isEligible = .ready batch) ∧
      ∀ id edited, Edits id queuedMessages edited → ∀ other, other ≠ id →
        (∀ time, policy.ReadyAt edited other time ↔ policy.ReadyAt queuedMessages other time) ∧
          policy.batchOf edited other = policy.batchOf queuedMessages other := by
  refine ⟨fun nowUnix poll ↦ pollWhere_eq_iff, fun nowUnix time ↦ pollWhere_waiting,
    fun id edited hedits other hother ↦ ?_⟩
  have hqueue := hedits.queueOf_eq hother
  constructor
  · intro time
    rw [ReadyAt, ReadyAt, hqueue]
  · rw [batchOf, batchOf, hqueue]

end MessageQueuePolicy

end FerrisBridge
