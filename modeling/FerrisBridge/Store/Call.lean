import FerrisBridge.Foundations.Trace
import FerrisBridge.State.Continuation
import FerrisBridge.Store.Model

/-!
# Calls of the store

The methods of the store as data, so that statements can range over all of them and over histories
of calls. `Effect` lists once what a call can do to the file and with which reply; the state that a
call writes is given by `Computes`.
-/

open Foundations

namespace FerrisBridge

/-- A method that works on the loaded state. -/
inductive Method
  | load
  | persistInboundEvent (event : Event)
  | pollMessageQueue (policy : MessageQueuePolicy) (nowUnix : U64)
  | claimMessageBatch (runId : RunId) (policy : MessageQueuePolicy) (nowUnix : U64)
  | enqueueOutboundDelivery (delivery : OutboundDeliveryRecord)
  | claimNextOutboundDeliveryAttempt (startedAtUnix : U64) (retryPolicy : OutboundRetryPolicy)
  | markOutboundDeliveryDelivered (id : OutboundDeliveryId) (deliveredAtUnix : U64)
  | markOutboundDeliveryFailed (id : OutboundDeliveryId) (failedAtUnix : U64) (error : String)
  | markOutboundDeliveryUncertain (id : OutboundDeliveryId) (uncertainAtUnix : U64)
    (error : String)
  | resolveOutboundDeliveryAsDelivered (id : OutboundDeliveryId) (resolvedAtUnix : U64)
  | resolveOutboundDeliveryAsFailed (id : OutboundDeliveryId) (resolvedAtUnix : U64)
    (reason : String)
  | reconcileRunsAtStartup (recoveredAtUnix : U64)
  | reconcileOutboundDeliveriesAtStartup (recoveredAtUnix : U64)
  | startAgentRun (id : RunId) (startedAtUnix : U64)
  | completeAgentRun (id : RunId) (messages : List Message) (finishedAtUnix : U64)
  | failAgentRun (id : RunId) (failedAtUnix : U64)
  | interruptAgentRun (id : RunId) (interruptedAtUnix : U64)

/-- A call of the store. The snapshots that callers save are valid. -/
inductive Request
  | save (snapshot : RuntimeState) (valid : snapshot.validate = .ok ())
  | method (method : Method)

/-- What a call returns. -/
inductive Reply
  | saved
  | loaded (state : RuntimeState)
  | persisted (status : InboundEventRecordStatus)
  | polled (poll : MessageQueuePoll)
  | batch (outcome : MessageBatchClaimOutcome)
  | enqueued (status : OutboundDeliveryEnqueueStatus)
  | attempt (attempt : Option OutboundDeliveryAttempt)
  | delivery (delivery : OutboundDeliveryRecord)
  | runsRecovered (report : RunStartupRecoveryReport)
  | deliveriesRecovered (report : OutboundDeliveryStartupRecoveryReport)
  | started (input : RunInputRecord)
  | completed (deliveries : List OutboundDeliveryRecord)
  | run (run : RunRecord)

/-- Wraps the reply of a method. -/
def replying {α : Type} (reply : α → Reply) (transaction : Transaction (α × Commit)) :
    Transaction (Reply × Commit) := do
  let (result, commit) ← transaction
  return (reply result, commit)

theorem replying_eq_ok {α : Type} {wrap : α → Reply} {transaction : Transaction (α × Commit)}
    {reply : Reply} {commit : Commit} {state state' : RuntimeState} :
    replying wrap transaction state = .ok (reply, commit) state' ↔
      ∃ result, transaction state = .ok (result, commit) state' ∧ wrap result = reply := by
  simp only [replying, estate_bind_eq_ok, estate_pure_eq_ok, Prod.exists, Prod.mk.injEq]
  constructor
  · rintro ⟨result, _, _, h, ⟨rfl, rfl⟩, rfl⟩
    exact ⟨result, h, rfl⟩
  · rintro ⟨result, h, rfl⟩
    exact ⟨result, commit, state', h, ⟨rfl, rfl⟩, rfl⟩

namespace Method

/-- The work of a method. -/
def work (method : Method) (now : U64) : Transaction (Reply × Commit) :=
  match method with
  | .load => do return (.loaded (← get), .nothing)
  | .persistInboundEvent event =>
    replying .persisted (StateStore.persistInboundEvent event now)
  | .pollMessageQueue policy nowUnix =>
    replying .polled (StateStore.pollMessageQueue policy nowUnix)
  | .claimMessageBatch runId policy nowUnix =>
    replying .batch (StateStore.claimMessageBatch runId policy nowUnix now)
  | .enqueueOutboundDelivery delivery =>
    replying .enqueued (StateStore.enqueueOutboundDelivery delivery now)
  | .claimNextOutboundDeliveryAttempt startedAtUnix retryPolicy =>
    replying .attempt (StateStore.claimNextOutboundDeliveryAttempt startedAtUnix retryPolicy now)
  | .markOutboundDeliveryDelivered id deliveredAtUnix =>
    replying .delivery (StateStore.markOutboundDeliveryDelivered id deliveredAtUnix now)
  | .markOutboundDeliveryFailed id failedAtUnix error =>
    replying .delivery (StateStore.markOutboundDeliveryFailed id failedAtUnix error now)
  | .markOutboundDeliveryUncertain id uncertainAtUnix error =>
    replying .delivery (StateStore.markOutboundDeliveryUncertain id uncertainAtUnix error now)
  | .resolveOutboundDeliveryAsDelivered id resolvedAtUnix =>
    replying .delivery (StateStore.resolveOutboundDeliveryAsDelivered id resolvedAtUnix now)
  | .resolveOutboundDeliveryAsFailed id resolvedAtUnix reason =>
    replying .delivery (StateStore.resolveOutboundDeliveryAsFailed id resolvedAtUnix reason now)
  | .reconcileRunsAtStartup recoveredAtUnix =>
    replying .runsRecovered (StateStore.reconcileRunsAtStartup recoveredAtUnix)
  | .reconcileOutboundDeliveriesAtStartup recoveredAtUnix =>
    replying .deliveriesRecovered (StateStore.reconcileOutboundDeliveriesAtStartup recoveredAtUnix)
  | .startAgentRun id startedAtUnix =>
    replying .started (StateStore.startAgentRun id startedAtUnix now)
  | .completeAgentRun id messages finishedAtUnix =>
    replying .completed (StateStore.completeAgentRun id messages finishedAtUnix now)
  | .failAgentRun id failedAtUnix => replying .run (StateStore.failAgentRun id failedAtUnix now)
  | .interruptAgentRun id interruptedAtUnix =>
    replying .run (StateStore.interruptAgentRun id interruptedAtUnix now)

end Method

def StateStore.call (self : StateStore) (io : Io) : Request → EStateM String Disk Reply
  | .save snapshot _ => do
    self.save io snapshot
    return .saved
  | .method method => self.transact io method.work

/-! ## What a call does to the file -/

/-- The state that a call loads. -/
def Io.loaded (io : Io) (visible : Option RuntimeState) : RuntimeState :=
  visible.getD (.new io.newStateAt)

/-- The reply that a call is going to give and the state that it writes before. -/
inductive Computes (io : Io) (visible : Option RuntimeState) :
    Request → Reply → RuntimeState → Prop
  | write {method : Method} {reply : Reply} {state : RuntimeState}
    (hwork : method.work io.now (io.loaded visible) = .ok (reply, .write) state) :
    Computes io visible (.method method) reply state
  | merge {method : Method} {reply : Reply} {state merged : RuntimeState}
    (hwork : method.work io.now (io.loaded visible) = .ok (reply, .save) state)
    (hmerge : state.mergeSnapshot visible = .ok merged) :
    Computes io visible (.method method) reply merged
  | save {snapshot merged : RuntimeState} (valid : snapshot.validate = .ok ())
    (hmerge : snapshot.mergeSnapshot visible = .ok merged) :
    Computes io visible (.save snapshot valid) .saved merged

/-- The result of a call: it is refused; it answers from the loaded state, with or without a check
that the file is durable; or it writes, and the replacement may not be confirmed. -/
inductive Effect (io : Io) (disk : Disk) (request : Request) :
    EStateM.Result String Disk Reply → Prop
  | refused (err : String) : Effect io disk request (.error err disk)
  | answered {method : Method} {reply : Reply} {state : RuntimeState}
    (hrequest : request = .method method)
    (hwork : method.work io.now (io.loaded disk.visible) = .ok (reply, .nothing) state) :
    Effect io disk request (.ok reply disk)
  | confirmed {method : Method} {reply : Reply} {state : RuntimeState}
    (hrequest : request = .method method)
    (hwork : method.work io.now (io.loaded disk.visible) = .ok (reply, .confirm) state) :
    Effect io disk request (.ok reply { disk with durable := disk.visible })
  | written {reply : Reply} {state : RuntimeState}
    (hcomputes : Computes io disk.visible request reply state) (hvalid : state.Valid) :
    Effect io disk request (.ok reply ⟨some state, some state⟩)
  | unconfirmed {reply : Reply} {state : RuntimeState} (err : String)
    (hcomputes : Computes io disk.visible request reply state) (hvalid : state.Valid) :
    Effect io disk request (.error err { disk with visible := some state })

namespace StateStore

variable {self : StateStore} {io : Io} {disk : Disk} {state : RuntimeState}

/-- Reading gives the visible content, which it has checked, or fails; the file stays. -/
theorem readStateFile_cases (self : StateStore) (failure : Option String) (disk : Disk) :
    (∃ err, self.readStateFile failure disk = .error err disk) ∨
      self.readStateFile failure disk = .ok disk.visible disk ∧
        ∀ content ∈ disk.visible, content.Valid := by
  cases failure with
  | some err => exact .inl ⟨_, rfl⟩
  | none =>
    obtain ⟨visible, durable⟩ := disk
    cases visible with
    | none => exact .inr ⟨rfl, nofun⟩
    | some content =>
      cases hvalid : content.validate with
      | error err =>
        have hparse : self.parseStateFile content =
            .error s!"failed to parse {self.path}: {err}" := by simp only [parseStateFile, hvalid]
        exact .inl ⟨_, (estate_ok_bind (x := get) rfl).trans
          (estate_error_bind (question_eq_error.mpr ⟨hparse, rfl⟩))⟩
      | ok u =>
        have hparse : self.parseStateFile content = .ok content := by
          simp only [parseStateFile, hvalid]
        refine .inr ⟨(estate_ok_bind (x := get) rfl).trans
          (estate_ok_bind (question_eq_ok.mpr ⟨hparse, rfl⟩)), ?_⟩
        rintro _ ⟨⟩
        exact RuntimeState.validate_eq_ok.mp hvalid

/-- A write leaves the file, replaces it, or replaces it without the confirmation. -/
theorem writeUnlocked_cases (self : StateStore) (io : Io) (state : RuntimeState) (disk : Disk) :
    (∃ err, self.writeUnlocked io state disk = .error err disk) ∨
      state.Valid ∧ (self.writeUnlocked io state disk = .ok () ⟨some state, some state⟩ ∨
        ∃ err, self.writeUnlocked io state disk = .error err { disk with visible := some state }) := by
  cases hvalid : state.validate with
  | error err => exact .inl ⟨err, estate_error_bind (question_eq_error.mpr ⟨hvalid, rfl⟩)⟩
  | ok u =>
    have hwrite : self.writeUnlocked io state disk =
        mapErr (fun err ↦ s!"failed to save runtime state {self.path}: {err}")
          (writeJsonAtomic io state) disk := estate_ok_bind (question_eq_ok.mpr ⟨hvalid, rfl⟩)
    rw [hwrite]
    unfold writeJsonAtomic
    cases io.write with
    | failedBeforeReplace err => exact .inl ⟨_, rfl⟩
    | replaced => exact .inr ⟨RuntimeState.validate_eq_ok.mp hvalid, .inl rfl⟩
    | failedAfterReplace err =>
      exact .inr ⟨RuntimeState.validate_eq_ok.mp hvalid, .inr ⟨_, rfl⟩⟩

/-- The write at the end of a call, with the reply that the call gives after it. -/
theorem effect_write {request : Request} {reply : Reply} {write : EStateM String Disk Unit}
    (hwrite : write disk = self.writeUnlocked io state disk)
    (hcomputes : Computes io disk.visible request reply state) :
    Effect io disk request ((do write; return reply : EStateM String Disk Reply) disk) := by
  rcases self.writeUnlocked_cases io state disk with ⟨err, h⟩ | ⟨hvalid, h | ⟨err, h⟩⟩
  · rw [estate_error_bind (hwrite.trans h)]
    exact .refused err
  · rw [estate_ok_bind (hwrite.trans h)]
    exact .written hcomputes hvalid
  · rw [estate_error_bind (hwrite.trans h)]
    exact .unconfirmed err hcomputes hvalid

/-- A save merges into the visible content and writes the result, or leaves the file. -/
theorem saveUnlocked_cases (self : StateStore) (io : Io) (candidate : RuntimeState) (disk : Disk) :
    (∃ err, self.saveUnlocked io candidate disk = .error err disk) ∨
      ∃ merged, candidate.mergeSnapshot disk.visible = .ok merged ∧
        (∀ content ∈ disk.visible, content.Valid) ∧
        self.saveUnlocked io candidate disk = self.writeUnlocked io merged disk := by
  rcases self.readStateFile_cases io.readForMerge disk with ⟨err, hread⟩ | ⟨hread, hvalid⟩
  · exact .inl ⟨err, estate_error_bind hread⟩
  · cases hmerge : candidate.mergeSnapshot disk.visible with
    | error err =>
      exact .inl ⟨err, (estate_ok_bind hread).trans
        (estate_error_bind (question_eq_error.mpr ⟨hmerge, rfl⟩))⟩
    | ok merged =>
      exact .inr ⟨merged, rfl, hvalid,
        (estate_ok_bind hread).trans (estate_ok_bind (question_eq_ok.mpr ⟨hmerge, rfl⟩))⟩

theorem effect_save {request : Request} {reply : Reply} {candidate : RuntimeState}
    (hcomputes : ∀ merged, candidate.mergeSnapshot disk.visible = .ok merged →
      Computes io disk.visible request reply merged) :
    Effect io disk request
      ((do self.saveUnlocked io candidate; return reply : EStateM String Disk Reply) disk) := by
  rcases self.saveUnlocked_cases io candidate disk with ⟨err, h⟩ | ⟨merged, hmerge, -, h⟩
  · rw [estate_error_bind h]
    exact .refused err
  · exact effect_write h (hcomputes merged hmerge)

/-- A method that loads the state: the loaded state is the visible one, and it is valid. -/
theorem transact_cases (self : StateStore) (io : Io) (disk : Disk) {α : Type}
    (transaction : U64 → Transaction (α × Commit)) :
    (∃ err, self.transact io transaction disk = .error err disk) ∨
      ∃ reply commit state, (∀ content ∈ disk.visible, content.Valid) ∧
        transaction io.now (io.loaded disk.visible) = .ok (reply, commit) state ∧
        self.transact io transaction disk =
          (do self.commit io state commit; return reply : EStateM String Disk α) disk := by
  rcases self.readStateFile_cases io.read disk with ⟨err, hread⟩ | ⟨hread, hvalid⟩
  · exact .inl ⟨err, estate_error_bind (estate_error_bind hread)⟩
  · have hloaded : self.load io disk = .ok (io.loaded disk.visible) disk :=
      (estate_ok_bind hread).trans rfl
    rw [transact, estate_ok_bind hloaded]
    cases hwork : transaction io.now (io.loaded disk.visible) with
    | error err state => exact .inl ⟨err, rfl⟩
    | ok result state => exact .inr ⟨result.1, result.2, state, hvalid, rfl, rfl⟩

/-- Wrapping the reply of the work wraps the reply of the call. -/
theorem transact_replying (self : StateStore) (io : Io) (disk : Disk) {α : Type} (wrap : α → Reply)
    (transaction : U64 → Transaction (α × Commit)) :
    self.transact io (fun now ↦ replying wrap (transaction now)) disk =
      (do let reply ← self.transact io transaction; return wrap reply : EStateM String Disk Reply)
        disk := by
  cases hload : self.load io disk with
  | error err disk' =>
    have htransact : self.transact io transaction disk = .error err disk' :=
      estate_error_bind hload
    exact (estate_error_bind hload).trans (estate_error_bind htransact).symm
  | ok state disk' =>
    cases hwork : transaction io.now state with
    | error err state' =>
      have hfailed : replying wrap (transaction io.now) state = .error err state' :=
        estate_error_bind hwork
      have htransact : self.transact io transaction disk = .error err disk' := by
        rw [transact, estate_ok_bind hload]
        simp only [hwork]
        rfl
      refine Eq.trans ?_ (estate_error_bind htransact).symm
      rw [transact, estate_ok_bind hload]
      simp only [hfailed]
      rfl
    | ok result state' =>
      obtain ⟨reply, commit⟩ := result
      have hdone : replying wrap (transaction io.now) state = .ok (wrap reply, commit) state' :=
        estate_ok_bind hwork
      have htransact : self.transact io transaction disk =
          (do self.commit io state' commit; return reply : EStateM String Disk α) disk' := by
        rw [transact, estate_ok_bind hload]
        simp only [hwork]
      rw [transact, estate_ok_bind hload]
      simp only [hdone]
      cases hcommit : self.commit io state' commit disk' with
      | error err disk'' =>
        have hfailed := htransact.trans (estate_error_bind hcommit)
        exact (estate_error_bind hcommit).trans (estate_error_bind hfailed).symm
      | ok u disk'' =>
        have hreturned := htransact.trans (estate_ok_bind hcommit)
        refine (estate_ok_bind hcommit).trans (Eq.symm ?_)
        exact estate_ok_bind hreturned

/-- What a call does to the file. -/
theorem call_effect (self : StateStore) (io : Io) (request : Request) (disk : Disk) :
    Effect io disk request (self.call io request disk) := by
  cases request with
  | save snapshot valid => exact effect_save fun merged hmerge ↦ .save valid hmerge
  | method method =>
    rcases self.transact_cases io disk method.work with ⟨err, h⟩ | ⟨reply, commit, state, -, hwork, h⟩
    · rw [call, h]
      exact .refused err
    · rw [call, h]
      cases commit with
      | nothing => exact .answered rfl hwork
      | confirm =>
        simp only [commit, confirmDurable, confirmExistingFileDurable]
        cases io.confirm with
        | some err => exact .refused _
        | none => exact .confirmed rfl hwork
      | write => exact effect_write rfl (.write hwork)
      | save => exact effect_save fun merged hmerge ↦ .merge hwork hmerge

end StateStore

end FerrisBridge
