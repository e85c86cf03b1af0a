import FerrisBridge.Foundations.Tickets
import FerrisBridge.Store.AgentRuns
import FerrisBridge.Store.Completion
import FerrisBridge.Store.Durability
import FerrisBridge.Store.Ownership

/-!
# Histories with crashes

Calls of the store between which the machine may crash. What a method has written or confirmed before
it returns is durable: the outcomes that the methods return outlive every crash. In particular a run is
handed over to an agent at most once, and so is every message, although a crash may undo calls that
have failed to confirm what they wrote.
-/

open Foundations

namespace FerrisBridge

/-! ## The machine -/

/-- What can happen to the file: a call, the operating system makes the visible content durable on its
own, or a crash. -/
inductive FileAction
  | call (call : Call)
  | flush
  | crash

/-- The file after the visible content has become durable. -/
def Disk.flush (disk : Disk) : Disk := { disk with durable := disk.visible }

theorem Disk.Recoverable.flush {disk : Disk} (h : disk.Recoverable) :
    disk.flush.Recoverable ∧ disk.Persists disk.flush :=
  ⟨⟨h.valid, h.valid, Disk.Evolves.refl disk⟩, h.behind⟩

namespace StateStore

def stepWithCrashes (self : StateStore) (action : FileAction) (disk : Disk) :
    Option (Except String Reply) × Disk :=
  match action with
  | .call call =>
    let result := self.step call disk
    (some result.1, result.2)
  | .flush => (none, disk.flush)
  | .crash => (none, disk.crash)

end StateStore

abbrev FileEntry := Entry Disk FileAction (Option (Except String Reply))

/-- What happens to a file that starts absent. -/
def StateStore.historyWithCrashes (self : StateStore) (actions : List FileAction) : List FileEntry :=
  trace self.stepWithCrashes .absent actions

/-- A method that has returned a reply. -/
structure Returns (e : FileEntry) (method : Method) (reply : Reply) : Prop where
  input : ∃ io, e.input = .call ⟨.method method, io⟩
  output : e.output = some (.ok reply)

section Histories

variable {self : StateStore} {actions : List FileAction} {e : FileEntry} {disk : Disk}
  {method : Method} {reply : Reply}

theorem StateStore.stepWithCrashes_recoverable (self : StateStore) (action : FileAction)
    (h : disk.Recoverable) : (self.stepWithCrashes action disk).2.Recoverable ∧
      disk.Persists (self.stepWithCrashes action disk).2 := by
  cases action with
  | call call => exact (self.call_effect call.io call.request disk).recoverable h
  | flush => exact h.flush
  | crash => exact h.crash

theorem Disk.recoverable_absent : Disk.absent.Recoverable where
  valid := Disk.valid_absent
  durable _ h := by cases h
  behind _ h := by cases h

/-- The file is recoverable throughout a history. -/
theorem StateStore.historyWithCrashes_recoverable :
    ∀ e ∈ self.historyWithCrashes actions, e.before.Recoverable ∧ e.after.Recoverable :=
  (trace_invariant Disk.Recoverable (fun _ ↦ True) Disk.recoverable_absent
    (fun _ action h _ ↦ (self.stepWithCrashes_recoverable action h).1) fun _ _ ↦ trivial).1

/-- What is durable after a step of a history is durable before and after all later ones. -/
theorem StateStore.historyWithCrashes_persists :
    (self.historyWithCrashes actions).Pairwise fun e later ↦
      e.after.Persists later.before ∧ e.after.Persists later.after := by
  have hpairwise : (self.historyWithCrashes actions).Pairwise fun e later ↦
      e.after.Persists later.before :=
    trace_pairwise Disk.Recoverable Disk.Persists (fun _ ↦ True) Disk.recoverable_absent
      Disk.Persists.refl Disk.Persists.trans
      (fun _ action h _ ↦ self.stepWithCrashes_recoverable action h) fun _ _ ↦ trivial
  refine hpairwise.imp_of_mem fun {e later} _ hlater hbetween ↦ ⟨hbetween, ?_⟩
  have hbefore := (historyWithCrashes_recoverable later hlater).1
  obtain ⟨before, action, rfl⟩ := exists_eq_stepEntry hlater
  exact hbetween.trans _ _ _ (self.stepWithCrashes_recoverable action hbefore).2

theorem StateStore.recoverable_final : (finalOf self.stepWithCrashes .absent actions).Recoverable :=
  (trace_invariant Disk.Recoverable (fun _ ↦ True) Disk.recoverable_absent
    (fun _ action h _ ↦ (self.stepWithCrashes_recoverable action h).1) fun _ _ ↦ trivial).2

/-- What is durable after a step of a history is durable at its end. -/
theorem StateStore.persists_final : ∀ e ∈ self.historyWithCrashes actions,
    e.after.Persists (finalOf self.stepWithCrashes .absent actions) := by
  have hextends := @trace_extends _ _ _ self.stepWithCrashes _ actions Disk.Recoverable
    Disk.Persists (fun _ ↦ True) Disk.recoverable_absent Disk.Persists.refl Disk.Persists.trans
    (fun _ action h _ ↦ self.stepWithCrashes_recoverable action h) fun _ _ ↦ trivial
  exact fun e he ↦ (hextends.2 e he).2

/-- A method that has returned a reply is a call that returns it. -/
theorem Returns.call (he : e ∈ self.historyWithCrashes actions) (h : Returns e method reply) :
    ∃ io, self.call io (.method method) e.before = .ok reply e.after := by
  obtain ⟨⟨io, hinput⟩, houtput⟩ := h
  obtain ⟨before, action, rfl⟩ := exists_eq_stepEntry he
  obtain rfl : action = .call ⟨.method method, io⟩ := hinput
  exact ⟨io, outcome_eq_ok.mp (Option.some.inj houtput)⟩

/-- A method that has returned a reply has done its work and committed it. -/
theorem Returns.work (he : e ∈ self.historyWithCrashes actions) (h : Returns e method reply) :
    ∃ (io : Io) (commit : Commit) (state : RuntimeState),
      method.work io.now (io.loaded e.before.visible) = .ok (reply, commit) state ∧
        e.after = commit.result state e.before := by
  obtain ⟨io, hcall⟩ := h.call he
  obtain ⟨commit, state, hwork, hafter⟩ :=
    self.method_eq_ok (StateStore.historyWithCrashes_recoverable e he).1.valid hcall
  exact ⟨io, commit, state, hwork, hafter⟩

end Histories

/-! ## Outcomes -/

/-- The outcome that a method has returned: what it has claimed, started, completed or recorded. -/
inductive Acknowledged
  | claimed (run : RunRecord) (input : RunInputRecord)
  | attempt (attempt : OutboundDeliveryAttempt)
  | started (id : RunId) (input : RunInputRecord)
  | completed (id : RunId) (messages : List Message) (finishedAtUnix : U64)
  | run (run : RunRecord)
  | delivery (delivery : OutboundDeliveryRecord)

def Method.acknowledged : Method → Reply → Option Acknowledged
  | .claimMessageBatch _ _ _, .batch (.claimed run input) => some (.claimed run input)
  | .claimNextOutboundDeliveryAttempt _ _, .attempt (some attempt) => some (.attempt attempt)
  | .startAgentRun id _, .started input => some (.started id input)
  | .completeAgentRun id messages finishedAtUnix, .completed _ =>
    some (.completed id messages finishedAtUnix)
  | .failAgentRun _ _, .run run => some (.run run)
  | .interruptAgentRun _ _, .run run => some (.run run)
  | .markOutboundDeliveryDelivered _ _, .delivery delivery => some (.delivery delivery)
  | .markOutboundDeliveryFailed _ _ _, .delivery delivery => some (.delivery delivery)
  | .markOutboundDeliveryUncertain _ _ _, .delivery delivery => some (.delivery delivery)
  | .resolveOutboundDeliveryAsDelivered _ _, .delivery delivery => some (.delivery delivery)
  | .resolveOutboundDeliveryAsFailed _ _ _, .delivery delivery => some (.delivery delivery)
  | _, _ => none

namespace RuntimeState

/-- The state shows an outcome, or what has become of it. -/
def Attests (state : RuntimeState) : Acknowledged → Prop
  | .claimed run input => state.runInput input.runId = some input ∧
    ∃ run', state.run run.id = some run' ∧ run.Evolves run'
  | .attempt attempt => ∃ delivery, state.outboundDelivery attempt.deliveryId = some delivery ∧
    attempt.attemptNumber ≤ delivery.deliveryAttempts
  | .started id input => state.runInput id = some input ∧
    ∃ run, state.run id = some run ∧ run.status ≠ .pending
  | .completed id messages finishedAtUnix => ∃ run expected, run.id = id ∧
    state.CompletedAs run expected finishedAtUnix ∧
    StateStore.outputDeliveries id run.sessionId messages finishedAtUnix = .ok expected
  | .run run => ∃ run', state.run run.id = some run' ∧ run.Evolves run'
  | .delivery delivery => ∃ delivery', state.outboundDelivery delivery.id = some delivery' ∧
    delivery.Evolves delivery'

variable {state state' : RuntimeState} {outcome : Acknowledged} {now time : U64}

theorem Attests.evolves (h : state.Attests outcome) (hevolves : state.Evolves state') :
    state'.Attests outcome := by
  cases outcome with
  | claimed run input =>
    obtain ⟨hinput, run', hrun, hlater⟩ := h
    obtain ⟨run'', hrun', hlater'⟩ := hevolves.run hrun
    exact ⟨hevolves.runInput hinput, run'', hrun', hlater.trans hlater'⟩
  | attempt attempt =>
    obtain ⟨delivery, hdelivery, hattempts⟩ := h
    obtain ⟨delivery', hdelivery', hlater⟩ := hevolves.delivery hdelivery
    exact ⟨delivery', hdelivery', hattempts.trans hlater.attempts_le⟩
  | started id input =>
    obtain ⟨hinput, run, hrun, hstatus⟩ := h
    obtain ⟨run', hrun', hlater⟩ := hevolves.run hrun
    exact ⟨hevolves.runInput hinput, run', hrun', hlater.not_pending hstatus⟩
  | completed id messages finishedAtUnix =>
    obtain ⟨run, expected, hid, hcompleted, hexpected⟩ := h
    exact ⟨run, expected, hid, hcompleted.evolves hevolves, hexpected⟩
  | run run =>
    obtain ⟨run', hrun, hlater⟩ := h
    obtain ⟨run'', hrun', hlater'⟩ := hevolves.run hrun
    exact ⟨run'', hrun', hlater.trans hlater'⟩
  | delivery delivery =>
    obtain ⟨delivery', hdelivery, hlater⟩ := h
    obtain ⟨delivery'', hdelivery', hlater'⟩ := hevolves.delivery hdelivery
    exact ⟨delivery'', hdelivery', hlater.trans hlater'⟩

/-- A new state shows no outcome. -/
theorem not_attests_new (time : U64) (outcome : Acknowledged) : ¬(new time).Attests outcome := by
  cases outcome with
  | claimed run input =>
    rintro ⟨hinput, -⟩
    cases hinput
  | attempt attempt =>
    rintro ⟨_, hdelivery, -⟩
    cases hdelivery
  | started id input =>
    rintro ⟨hinput, -⟩
    cases hinput
  | completed id messages finishedAtUnix =>
    rintro ⟨run, _, -, hcompleted, -⟩
    cases hcompleted.found
  | run run =>
    rintro ⟨_, hrun, -⟩
    cases hrun
  | delivery delivery =>
    rintro ⟨_, hdelivery, -⟩
    cases hdelivery

theorem attests_delivery {id : OutboundDeliveryId} {delivery : OutboundDeliveryRecord}
    (h : state.outboundDelivery id = some delivery) : state.Attests (.delivery delivery) := by
  refine ⟨delivery, ?_, .refl delivery⟩
  rwa [(find_key_eq_some h).2]

/-- A record that an operation has updated is in the state. -/
theorem attests_of_updateOutboundDelivery {id : OutboundDeliveryId}
    {update : EStateM String OutboundDeliveryRecord Unit} {delivery : OutboundDeliveryRecord}
    (hstate' : state'.Valid)
    (h : updateOutboundDelivery id now update state = .ok delivery state') :
    state'.Attests (.delivery delivery) := by
  obtain ⟨before, _, after, -, rfl, -, -⟩ := updateOutboundDelivery_eq_ok h
  exact attests_delivery
    (find_key_of_mem hstate'.delivery_ids (List.mem_append_right _ List.mem_cons_self))

end RuntimeState

namespace StateStore

variable {state state' : RuntimeState} {now time : U64} {commit : Commit}

theorem attests_of_claimMessageBatch {runId : RunId} {policy : MessageQueuePolicy} {run : RunRecord}
    {input : RunInputRecord} (hstate' : state'.Valid)
    (h : claimMessageBatch runId policy time now state = .ok (.claimed run input, commit) state') :
    state'.Attests (.claimed run input) ∧ commit = .write := by
  obtain ⟨hclaim, ⟨_, _, -, rfl⟩ | ⟨_, hwaiting, -⟩⟩ := claimMessageBatch_eq_ok h
  · obtain ⟨_, hwaiting, -⟩ | ⟨_, _, hclaimed, -, -, -, -, -, -, rfl⟩ :=
      RuntimeState.claimMessageBatch_eq_ok hclaim
    · cases hwaiting
    · obtain ⟨rfl, rfl⟩ := MessageBatchClaimOutcome.claimed.inj hclaimed
      refine ⟨⟨?_, run, ?_, .refl run⟩, rfl⟩
      · exact find_key_of_mem hstate'.input_ids (List.mem_append_right _ (List.mem_singleton_self _))
      · exact find_key_of_mem hstate'.run_ids (List.mem_append_right _ (List.mem_singleton_self _))
  · cases hwaiting

theorem attests_of_claimNextOutboundDeliveryAttempt {policy : OutboundRetryPolicy}
    {attempt : OutboundDeliveryAttempt} (hstate' : state'.Valid)
    (h : claimNextOutboundDeliveryAttempt time policy now state = .ok (some attempt, commit) state') :
    state'.Attests (.attempt attempt) ∧ commit = .write := by
  obtain ⟨claimed, hclaimed, hcommit⟩ := claimNextOutboundDeliveryAttempt_eq_ok h
  obtain ⟨rfl, -⟩ | ⟨front, _, delivery, back, rfl, -, rfl, -⟩ :=
    RuntimeState.claimNextOutboundDeliveryWhere_eq_ok hclaimed
  · cases hcommit.1
  · obtain ⟨rfl, _, made, hmade, hrecord⟩ := hcommit
    obtain rfl := Option.some.inj hmade
    obtain ⟨hid, -, hnumber⟩ := OutboundDeliveryAttempt.fromRecord_eq_ok hrecord
    refine ⟨⟨delivery, ?_, hnumber.le⟩, rfl⟩
    rw [hid]
    exact find_key_of_mem hstate'.delivery_ids (List.mem_append_right _ List.mem_cons_self)

theorem attests_of_startAgentRun {id : RunId} {input : RunInputRecord} (hstate' : state'.Valid)
    (h : startAgentRun id time now state = .ok (input, commit) state') :
    state'.Attests (.started id input) ∧ commit = .write := by
  obtain ⟨rfl, hinput, _, -, -, -, hstart⟩ := startAgentRun_eq_ok h
  obtain ⟨front, previous, run, back, -, hruns, hinputs, hprevious, -, hrunning, hdescends⟩ :=
    RuntimeState.startRun_eq_ok hstart
  refine ⟨⟨?_, run, ?_, fun hpending ↦ ?_⟩, rfl⟩
  · rw [RuntimeState.runInput, hinputs]
    exact hinput
  · rw [← (find_key_eq_some hprevious).2, ← hdescends.id_eq]
    apply find_key_of_mem hstate'.run_ids
    rw [hruns]
    exact List.mem_append_right _ List.mem_cons_self
  · cases hrunning.symm.trans hpending

theorem attests_of_completeAgentRun {id : RunId} {messages : List Message}
    {deliveries : List OutboundDeliveryRecord} (hstate' : state'.Valid)
    (h : completeAgentRun id messages time now state = .ok (deliveries, commit) state') :
    state'.Attests (.completed id messages time) ∧
      (commit = .write ∨ commit = .confirm ∧ state' = state) := by
  obtain ⟨run, expected, hrun, hexpected, ⟨rfl, hcomplete⟩ | ⟨rfl, rfl, hstatus, hverify, -⟩⟩ :=
    completeAgentRun_eq_ok h
  · obtain ⟨previous, completed, hprevious, -, hid, hsession, hcompleted, -⟩ :=
      RuntimeState.completedAs_of_complete hstate' hcomplete
    obtain rfl := Option.some.inj (hrun.symm.trans hprevious)
    rw [← hsession] at hexpected
    exact ⟨⟨completed, expected, hid, hcompleted, hexpected⟩, .inl rfl⟩
  · obtain ⟨hfinished, hids, houtputs⟩ := RuntimeState.verifyCompletionReplay_eq_ok.mp hverify
    obtain ⟨-, rfl⟩ := find_key_eq_some hrun
    exact ⟨⟨run, expected, rfl, ⟨hrun, hstatus, hfinished, hids, houtputs⟩, hexpected⟩,
      .inr ⟨rfl, rfl⟩⟩

theorem attests_run {id : RunId} {run : RunRecord} (h : state.run id = some run) :
    state.Attests (.run run) := by
  refine ⟨run, ?_, .refl run⟩
  rwa [(find_key_eq_some h).2]

end StateStore

namespace Method

variable {method : Method} {state state' : RuntimeState} {now : U64} {reply : Reply} {commit : Commit}
  {acknowledgement : Acknowledged}

theorem acknowledged_eq_started {id : RunId} {input : RunInputRecord}
    (h : method.acknowledged reply = some (.started id input)) :
    ∃ time, method = .startAgentRun id time ∧ reply = .started input := by
  unfold acknowledged at h
  split at h <;> cases h
  exact ⟨_, rfl, rfl⟩

theorem acknowledged_eq_claimed {run : RunRecord} {input : RunInputRecord}
    (h : method.acknowledged reply = some (.claimed run input)) :
    ∃ runId policy time, method = .claimMessageBatch runId policy time ∧
      reply = .batch (.claimed run input) := by
  unfold acknowledged at h
  split at h <;> cases h
  exact ⟨_, _, _, rfl, rfl⟩

/-- A method that returns an outcome shows it in the state that it writes, or in the loaded one, which
it confirms. -/
theorem attests (hstate : state.Valid) (h : method.work now state = .ok (reply, commit) state')
    (hreply : method.acknowledged reply = some acknowledgement) :
    state'.Attests acknowledgement ∧ (commit = .write ∨ commit = .confirm ∧ state' = state) := by
  have hstate' := (Method.change hstate h).1.valid hstate
  cases method with
  | load | persistInboundEvent | pollMessageQueue | enqueueOutboundDelivery |
    reconcileRunsAtStartup | reconcileOutboundDeliveriesAtStartup => cases hreply
  | claimMessageBatch runId policy time =>
    obtain ⟨batch, hwork, rfl⟩ := replying_eq_ok.mp h
    cases batch with
    | waiting => cases hreply
    | claimed run input =>
      obtain rfl := Option.some.inj hreply
      exact (StateStore.attests_of_claimMessageBatch hstate' hwork).imp_right .inl
  | claimNextOutboundDeliveryAttempt time policy =>
    obtain ⟨claimed, hwork, rfl⟩ := replying_eq_ok.mp h
    cases claimed with
    | none => cases hreply
    | some attempt =>
      obtain rfl := Option.some.inj hreply
      exact (StateStore.attests_of_claimNextOutboundDeliveryAttempt hstate' hwork).imp_right .inl
  | startAgentRun id time =>
    obtain ⟨input, hwork, rfl⟩ := replying_eq_ok.mp h
    obtain rfl := Option.some.inj hreply
    exact (StateStore.attests_of_startAgentRun hstate' hwork).imp_right .inl
  | completeAgentRun id messages finishedAtUnix =>
    obtain ⟨deliveries, hwork, rfl⟩ := replying_eq_ok.mp h
    obtain rfl := Option.some.inj hreply
    exact StateStore.attests_of_completeAgentRun hstate' hwork
  | markOutboundDeliveryDelivered | markOutboundDeliveryFailed | markOutboundDeliveryUncertain =>
    obtain ⟨delivery, hwork, rfl⟩ := replying_eq_ok.mp h
    obtain rfl := Option.some.inj hreply
    obtain ⟨hmark, rfl⟩ := StateStore.writing_eq_ok hwork
    exact ⟨RuntimeState.attests_of_updateOutboundDelivery hstate' hmark, .inl rfl⟩
  | resolveOutboundDeliveryAsDelivered =>
    obtain ⟨delivery, hwork, rfl⟩ := replying_eq_ok.mp h
    obtain rfl := Option.some.inj hreply
    obtain ⟨hresolve, rfl⟩ | ⟨rfl, rfl, hdelivery, -⟩ :=
      StateStore.resolveOutboundDeliveryAsDelivered_eq_ok hwork
    · exact ⟨RuntimeState.attests_of_updateOutboundDelivery hstate' hresolve, .inl rfl⟩
    · exact ⟨RuntimeState.attests_delivery hdelivery, .inr ⟨rfl, rfl⟩⟩
  | resolveOutboundDeliveryAsFailed =>
    obtain ⟨delivery, hwork, rfl⟩ := replying_eq_ok.mp h
    obtain rfl := Option.some.inj hreply
    obtain ⟨hresolve, rfl⟩ | ⟨rfl, rfl, hdelivery, -⟩ :=
      StateStore.resolveOutboundDeliveryAsFailed_eq_ok hwork
    · exact ⟨RuntimeState.attests_of_updateOutboundDelivery hstate' hresolve, .inl rfl⟩
    · exact ⟨RuntimeState.attests_delivery hdelivery, .inr ⟨rfl, rfl⟩⟩
  | failAgentRun =>
    obtain ⟨run, hwork, rfl⟩ := replying_eq_ok.mp h
    obtain rfl := Option.some.inj hreply
    obtain ⟨rfl, -, hrun, -⟩ | ⟨rfl, rfl, hrun, -⟩ := StateStore.failAgentRun_eq_ok hwork
    · exact ⟨StateStore.attests_run hrun, .inl rfl⟩
    · exact ⟨StateStore.attests_run hrun, .inr ⟨rfl, rfl⟩⟩
  | interruptAgentRun =>
    obtain ⟨run, hwork, rfl⟩ := replying_eq_ok.mp h
    obtain rfl := Option.some.inj hreply
    obtain ⟨rfl, -, hrun, -⟩ | ⟨rfl, rfl, hrun, -⟩ := StateStore.interruptAgentRun_eq_ok hwork
    · exact ⟨StateStore.attests_run hrun, .inl rfl⟩
    · exact ⟨StateStore.attests_run hrun, .inr ⟨rfl, rfl⟩⟩

end Method

/-! ## What crashes leave -/

/-- The outcome that a step of a history has returned. -/
def acknowledgedIn (e : FileEntry) : Option Acknowledged :=
  match e.input, e.output with
  | .call ⟨.method method, _⟩, some (.ok reply) => method.acknowledged reply
  | _, _ => none

theorem acknowledgedIn_eq_some {e : FileEntry} {acknowledgement : Acknowledged} :
    acknowledgedIn e = some acknowledgement ↔
      ∃ method reply, Returns e method reply ∧ method.acknowledged reply = some acknowledgement := by
  constructor
  · intro h
    unfold acknowledgedIn at h
    split at h
    case h_1 method io reply hinput houtput => exact ⟨method, reply, ⟨⟨io, hinput⟩, houtput⟩, h⟩
    case h_2 => cases h
  · rintro ⟨method, reply, ⟨⟨io, hinput⟩, houtput⟩, h⟩
    rw [acknowledgedIn, hinput, houtput]
    exact h

namespace StateStore

variable {self : StateStore} {actions : List FileAction} {e : FileEntry}
  {acknowledgement : Acknowledged}

/-- An outcome that a call returns is durable when it returns. -/
theorem durable_of_call {method : Method} {io : Io} {reply : Reply} {before after : Disk}
    (hdisk : before.Valid) (hcall : self.call io (.method method) before = .ok reply after)
    (hreply : method.acknowledged reply = some acknowledgement) :
    ∃ state ∈ after.durable, state.Attests acknowledgement := by
  obtain ⟨commit, state, hwork, rfl⟩ := self.method_eq_ok hdisk hcall
  obtain ⟨hattests, rfl | ⟨rfl, rfl⟩⟩ := Method.attests (hdisk.loaded io) hwork hreply
  · exact ⟨state, rfl, hattests⟩
  · cases hvisible : before.visible with
    | none =>
      rw [hvisible] at hattests
      exact absurd hattests (RuntimeState.not_attests_new _ _)
    | some state =>
      rw [hvisible] at hattests
      exact ⟨state, hvisible, hattests⟩

theorem durable_of_acknowledged (he : e ∈ self.historyWithCrashes actions)
    (h : acknowledgedIn e = some acknowledgement) :
    ∃ state ∈ e.after.durable, state.Attests acknowledgement := by
  obtain ⟨method, reply, hreturns, hreply⟩ := acknowledgedIn_eq_some.mp h
  obtain ⟨io, hcall⟩ := hreturns.call he
  exact durable_of_call (historyWithCrashes_recoverable e he).1.valid hcall hreply

/-- Whatever a method has returned as its outcome outlives every crash: the batch and its run, the
attempt, the started run with its input, the completion with its outputs, and the record of a run or a
delivery are in the durable and the visible state from then on, or what they have become. -/
theorem outcomes_survive_crashes (self : StateStore) (actions : List FileAction) :
    (self.historyWithCrashes actions).Pairwise fun e later ↦
      ∀ acknowledgement ∈ acknowledgedIn e,
        (∃ state ∈ later.after.durable, state.Attests acknowledgement) ∧
        ∃ state ∈ later.after.visible, state.Attests acknowledgement := by
  refine historyWithCrashes_persists.imp_of_mem ?_
  intro e later he hlater hpersists acknowledgement hacknowledged
  obtain ⟨state, hstate, hattests⟩ := durable_of_acknowledged he hacknowledged
  obtain ⟨state', hstate', hevolves⟩ := hpersists.2 state hstate
  have hattests' := hattests.evolves hevolves
  refine ⟨⟨state', hstate', hattests'⟩, ?_⟩
  obtain ⟨shown, hshown, hevolves'⟩ := (historyWithCrashes_recoverable later hlater).2.behind
    state' hstate'
  exact ⟨shown, hshown, hattests'.evolves hevolves'⟩

end StateStore

/-! ## Exactly once -/

/-- The input of a run that a step of a history has handed over to an agent. -/
def startedInput (e : FileEntry) : Option RunInputRecord :=
  match acknowledgedIn e with
  | some (.started _ input) => some input
  | _ => none

/-- The batch that a step of a history has claimed and returned. -/
def claimedInput (e : FileEntry) : Option RunInputRecord :=
  match acknowledgedIn e with
  | some (.claimed _ input) => some input
  | _ => none

/-- The events of the messages of an input. -/
def RunInputRecord.eventIds (input : RunInputRecord) : List EventId :=
  input.messages.map (·.eventId)

/-- The inputs of different runs share no event. -/
theorem RuntimeState.Consistent.disjoint_inputs {state : RuntimeState} (h : state.Consistent)
    {input input' : RunInputRecord} (hinput : input ∈ state.runInputs)
    (hinput' : input' ∈ state.runInputs) (hne : input ≠ input') :
    input.eventIds.Disjoint input'.eventIds := by
  have hids : (state.runInputs.flatMap RunInputRecord.eventIds).Nodup := by
    have howned := h.owned_ids
    rw [RuntimeState.ownedMessages, List.map_append, List.nodup_append'] at howned
    have hclaimed := howned.1
    rwa [RuntimeState.claimedMessages, List.map_flatMap] at hclaimed
  have hsymm : Std.Symm (Function.onFun List.Disjoint RunInputRecord.eventIds) :=
    ⟨fun _ _ hdisjoint ↦ List.Disjoint.symm hdisjoint⟩
  exact (List.nodup_flatMap.mp hids).2.forall hinput hinput' hne

namespace StateStore

variable {self : StateStore} {actions : List FileAction} {e later : FileEntry}
  {acknowledgement : Acknowledged} {input input' : RunInputRecord}

/-- The state before a later step shows the outcome, as its work finds it. -/
theorem attests_before : (self.historyWithCrashes actions).Pairwise fun e later ↦
    ∀ acknowledgement ∈ acknowledgedIn e,
      ∃ state ∈ later.before.visible, state.Valid ∧ state.Attests acknowledgement := by
  refine historyWithCrashes_persists.imp_of_mem ?_
  intro e later he hlater hpersists acknowledgement hacknowledged
  obtain ⟨state, hstate, hattests⟩ := durable_of_acknowledged he hacknowledged
  obtain ⟨kept, hkept, hevolves⟩ := hpersists.1 state hstate
  have hbefore := (historyWithCrashes_recoverable later hlater).1
  obtain ⟨shown, hshown, hevolves'⟩ := hbefore.behind kept hkept
  exact ⟨shown, hshown, hbefore.valid shown hshown,
    (hattests.evolves hevolves).evolves hevolves'⟩

/-- A run that a step starts has its input in the file before it, and is pending there. -/
theorem startedInput_spec (he : e ∈ self.historyWithCrashes actions)
    (h : startedInput e = some input) :
    acknowledgedIn e = some (.started input.runId input) ∧ ∀ state ∈ e.before.visible,
      state.runInput input.runId = some input ∧
      ∃ run, state.run input.runId = some run ∧ run.status = .pending := by
  unfold startedInput at h
  split at h
  case h_2 => cases h
  case h_1 id input' hstarted =>
    obtain rfl := Option.some.inj h
    obtain ⟨method, reply, hreturns, hreply⟩ := acknowledgedIn_eq_some.mp hstarted
    obtain ⟨time, rfl, rfl⟩ := Method.acknowledged_eq_started hreply
    obtain ⟨io, commit, after, hreplying, -⟩ := hreturns.work he
    obtain ⟨_, hwork, hreply⟩ := replying_eq_ok.mp hreplying
    obtain rfl := Reply.started.inj hreply
    obtain ⟨-, hinput, _, -, -, -, hstart⟩ := startAgentRun_eq_ok hwork
    obtain ⟨_, run, _, _, -, -, -, hrun, hpending, -⟩ := RuntimeState.startRun_eq_ok hstart
    obtain rfl := (find_key_eq_some hinput).2
    refine ⟨hstarted, fun state hstate ↦ ?_⟩
    rw [Option.mem_def.mp hstate] at hinput hrun
    exact ⟨hinput, run, hrun, hpending⟩

/-- A batch that a step claims has different events, which wait in the queue of the file before it. -/
theorem claimedInput_spec (he : e ∈ self.historyWithCrashes actions)
    (h : claimedInput e = some input) :
    (∃ run, acknowledgedIn e = some (.claimed run input)) ∧ input.eventIds.Nodup ∧
      ∀ state ∈ e.before.visible, ∀ other ∈ state.runInputs, input.eventIds.Disjoint other.eventIds := by
  have hbefore := (historyWithCrashes_recoverable e he).1.valid
  unfold claimedInput at h
  split at h
  case h_2 => cases h
  case h_1 run input' hclaimed =>
    obtain rfl := Option.some.inj h
    obtain ⟨method, reply, hreturns, hreply⟩ := acknowledgedIn_eq_some.mp hclaimed
    obtain ⟨runId, policy, time, rfl, rfl⟩ := Method.acknowledged_eq_claimed hreply
    obtain ⟨io, commit, after, hwork, -⟩ := hreturns.work he
    obtain ⟨-, hvalid, hmessages, -⟩ := claimedBatch_eq_ok hwork
    refine ⟨⟨run, hclaimed⟩, hvalid.eventIds_nodup, fun state hstate other hother id hid hid' ↦ ?_⟩
    rw [Option.mem_def.mp hstate] at hmessages
    have hqueued : id ∈ state.queuedMessages.map (·.eventId) :=
      ((hmessages.sublist.trans List.filter_sublist).map _).subset hid
    have hclaimed : id ∈ state.claimedMessages.map (·.eventId) := by
      rw [RuntimeState.claimedMessages, List.map_flatMap]
      exact List.mem_flatMap.mpr ⟨other, hother, hid'⟩
    have hdisjoint := (hbefore state hstate).owned_ids
    rw [RuntimeState.ownedMessages, List.map_append, List.nodup_append'] at hdisjoint
    exact hdisjoint.2.2 hclaimed hqueued

/-- Two runs that are started are different, and so are all their messages. -/
theorem started_apart : (self.historyWithCrashes actions).Pairwise fun e later ↦
    ∀ input ∈ startedInput e, ∀ input' ∈ startedInput later,
      input.runId ≠ input'.runId ∧ input.eventIds.Disjoint input'.eventIds := by
  refine attests_before.imp_of_mem ?_
  intro e later he hlater hattests input hinput input' hinput'
  obtain ⟨hstarted, -⟩ := startedInput_spec he hinput
  obtain ⟨-, hfound⟩ := startedInput_spec hlater hinput'
  obtain ⟨state, hstate, hvalid, hkept, run, hrun, hstatus⟩ := hattests _ hstarted
  obtain ⟨hfound, run', hrun', hpending⟩ := hfound state hstate
  have hne : input.runId ≠ input'.runId := by
    intro heq
    rw [heq, hrun'] at hrun
    obtain rfl := Option.some.inj hrun
    exact hstatus hpending
  refine ⟨hne, hvalid.disjoint_inputs (find_key_eq_some hkept).1 (find_key_eq_some hfound).1 ?_⟩
  rintro rfl
  exact hne rfl

/-- Two batches that are claimed share no message. -/
theorem claimed_apart : (self.historyWithCrashes actions).Pairwise fun e later ↦
    ∀ input ∈ claimedInput e, ∀ input' ∈ claimedInput later,
      input.eventIds.Disjoint input'.eventIds := by
  refine attests_before.imp_of_mem ?_
  intro e later he hlater hattests input hinput input' hinput'
  obtain ⟨⟨run, hclaimed⟩, -⟩ := claimedInput_spec he hinput
  obtain ⟨-, -, hqueued⟩ := claimedInput_spec hlater hinput'
  obtain ⟨state, hstate, -, hkept, -⟩ := hattests _ hclaimed
  exact (hqueued state hstate input (find_key_eq_some hkept).1).symm

/-- A run is started at most once. -/
theorem started_runIds_nodup :
    (((self.historyWithCrashes actions).filterMap startedInput).map (·.runId)).Nodup := by
  rw [List.Nodup, List.pairwise_map, List.pairwise_filterMap]
  exact started_apart.imp fun h input hinput input' hinput' ↦ (h input hinput input' hinput').1

/-- A message is in at most one started run. -/
theorem started_eventIds_nodup :
    (((self.historyWithCrashes actions).filterMap startedInput).flatMap (·.eventIds)).Nodup := by
  rw [List.nodup_flatMap, List.pairwise_filterMap]
  refine ⟨fun input hinput ↦ ?_, started_apart.imp fun h input hinput input' hinput' ↦
    (h input hinput input' hinput').2⟩
  obtain ⟨e, he, hstarted⟩ := List.mem_filterMap.mp hinput
  obtain ⟨state, hstate, hattests⟩ := durable_of_acknowledged he (startedInput_spec he hstarted).1
  have hvalid := (historyWithCrashes_recoverable e he).2.durable state hstate
  exact (hvalid.inputs input (find_key_eq_some hattests.1).1).eventIds_nodup

/-- Across all crashes a run is handed over to an agent at most once, and every message reaches an
agent at most once, and is claimed at most once; the agent of a run is given the batch that was
claimed for it. -/
theorem messages_handed_over_once (self : StateStore) (actions : List FileAction) :
    (((self.historyWithCrashes actions).filterMap startedInput).map (·.runId)).Nodup ∧
    (((self.historyWithCrashes actions).filterMap startedInput).flatMap (·.eventIds)).Nodup ∧
    (((self.historyWithCrashes actions).filterMap claimedInput).flatMap (·.eventIds)).Nodup ∧
    (self.historyWithCrashes actions).Pairwise fun e later ↦ ∀ input ∈ claimedInput e,
      ∀ input' ∈ startedInput later, input'.runId = input.runId → input' = input := by
  refine ⟨started_runIds_nodup, started_eventIds_nodup, ?_, ?_⟩
  · rw [List.nodup_flatMap, List.pairwise_filterMap]
    refine ⟨fun input hinput ↦ ?_, claimed_apart⟩
    obtain ⟨e, he, hclaimed⟩ := List.mem_filterMap.mp hinput
    exact (claimedInput_spec he hclaimed).2.1
  · refine attests_before.imp_of_mem ?_
    intro e later he hlater hattests input hinput input' hinput' hid
    obtain ⟨⟨run, hclaimed⟩, -⟩ := claimedInput_spec he hinput
    obtain ⟨-, hfound⟩ := startedInput_spec hlater hinput'
    obtain ⟨state, hstate, -, hkept, -⟩ := hattests _ hclaimed
    have hstarted := (hfound state hstate).1
    rw [hid, hkept] at hstarted
    exact (Option.some.inj hstarted).symm

end StateStore

end FerrisBridge
