import FerrisBridge.Store.Agreement

/-!
# Completion of agent runs

A completion writes the completed run and the deliveries of its messages in one replacement of the
file. From then on both stay, however far the deliveries have advanced, so that the same completion
can be replayed and any other is refused.
-/

open Foundations

namespace FerrisBridge

/-- The deliveries of a completion carry its messages in order. -/
theorem StateStore.messages_of_outputDeliveries {id : RunId} {sessionId : SessionId}
    {messages : List Message} {time : U64} {expected : List OutboundDeliveryRecord}
    (h : StateStore.outputDeliveries id sessionId messages time = .ok expected) :
    expected.map (·.message) = messages := by
  obtain ⟨-, houtputs⟩ := StateStore.outputDeliveries_eq_ok.mp h
  have hmessages : List.Forall₂ (· = ·) (messages.zipIdx.map Prod.fst)
      (expected.map (·.message)) := by
    refine List.forall₂_map_left_iff.mpr (List.forall₂_map_right_iff.mpr
      (houtputs.imp fun output delivery houtput ↦ ?_))
    obtain ⟨-, -, _, -, hnew⟩ := StateStore.outputDelivery_eq_ok houtput
    obtain ⟨-, -, -, hmessage, -⟩ := OutboundDeliveryRecord.new_eq_ok hnew
    exact hmessage.symm
  rw [List.forall₂_eq_eq_eq, List.zipIdx_map_fst] at hmessages
  exact hmessages.symm

namespace RuntimeState

variable {state state' : RuntimeState} {run : RunRecord} {expected : List OutboundDeliveryRecord}
  {messages : List Message} {time now : U64} {u : Unit}

/-- The run has completed with the expected deliveries as its outputs, which may have advanced. -/
structure CompletedAs (state : RuntimeState) (run : RunRecord)
    (expected : List OutboundDeliveryRecord) (time : U64) : Prop where
  found : state.run run.id = some run
  status : run.status = .completed
  finished : run.finishedAtUnix = some time
  ids : run.outputDeliveryIds = expected.map (·.id)
  outputs : ∀ delivery ∈ expected, ∃ persisted,
    state.outboundDelivery delivery.id = some persisted ∧
      persisted.hasSameEnqueueIdentity delivery = true

/-- What the verification of a replay checks. -/
theorem verifyCompletionReplay_eq_ok :
    StateStore.verifyCompletionReplay state run expected time = .ok u ↔
      run.finishedAtUnix = some time ∧ run.outputDeliveryIds = expected.map (·.id) ∧
        ∀ delivery ∈ expected, ∃ persisted,
          state.outboundDelivery delivery.id = some persisted ∧
            persisted.hasSameEnqueueIdentity delivery = true := by
  simp only [StateStore.verifyCompletionReplay, StateStore.verifyOutput, except_bind_eq_ok,
    rejectIf_eq_ok, okOr_eq_ok, forM_eq_ok_iff, not_not, Bool.not_eq_false, exists_const]

/-- A completed run and its outputs stay, whatever happens to the state. -/
theorem CompletedAs.evolves (h : state.CompletedAs run expected time)
    (hevolves : state.Evolves state') : state'.CompletedAs run expected time := by
  obtain ⟨run', hrun', hlater⟩ := hevolves.run h.found
  obtain rfl := hlater.eq_of_terminal (by simp [RunRecord.isTerminal, h.status, RunStatus.isTerminal])
  refine ⟨hrun', h.status, h.finished, h.ids, fun delivery hdelivery ↦ ?_⟩
  obtain ⟨persisted, hpersisted, hsame⟩ := h.outputs delivery hdelivery
  obtain ⟨persisted', hpersisted', hlater⟩ := hevolves.delivery hpersisted
  exact ⟨persisted', hpersisted', hlater.sameEnqueueIdentity_iff.mpr hsame⟩

/-- A completion turns a running run and its new deliveries into a completed run with outputs. -/
theorem completedAs_of_complete {id : RunId} {deliveries : List OutboundDeliveryRecord}
    (hstate' : state'.Valid)
    (h : completeRunWithOutputDeliveries id expected time now state = .ok deliveries state') :
    ∃ previous run, state.run id = some previous ∧ previous.status = .running ∧ run.id = id ∧
      run.sessionId = previous.sessionId ∧ state'.CompletedAs run expected time ∧
      deliveries = expected ∧
      ∀ delivery ∈ expected, delivery.id ∉ state.outboundDeliveries.map (·.id) := by
  obtain ⟨rfl, -, before, previous, run, after, -, hprevious, hrunning, rfl, hadvances, hcompleted,
    hfinished, houtputs, hdeliveries, -⟩ := completeRunWithOutputDeliveries_eq_ok h
  have hdescends := hadvances.descends
  refine ⟨previous, run, hprevious, hrunning, hdescends.id_eq.trans (find_key_eq_some hprevious).2,
    hdescends.sessionId_eq, ⟨?_, hcompleted, hfinished, houtputs, fun delivery hdelivery ↦ ?_⟩, rfl,
    fun delivery hdelivery ↦ (hdeliveries delivery hdelivery).2⟩
  · exact find_key_of_mem hstate'.run_ids (by simp [touchAt])
  · refine ⟨delivery, find_key_of_mem hstate'.delivery_ids (List.mem_append_right _ hdelivery), ?_⟩
    simp [OutboundDeliveryRecord.hasSameEnqueueIdentity]

/-- The messages of a completion can be read off the records of its outputs. -/
theorem CompletedAs.messages_eq {expected' : List OutboundDeliveryRecord}
    (h : state.CompletedAs run expected time) (h' : state.CompletedAs run expected' time) :
    expected.map (·.message) = expected'.map (·.message) := by
  have hread : ∀ expected, state.CompletedAs run expected time →
      (expected.map (·.message)).map some =
        run.outputDeliveryIds.map fun id ↦ (state.outboundDelivery id).map (·.message) := by
    intro expected h
    rw [h.ids, List.map_map, List.map_map]
    refine List.map_congr_left fun delivery hdelivery ↦ ?_
    obtain ⟨persisted, hpersisted, hsame⟩ := h.outputs delivery hdelivery
    rw [Function.comp_apply, Function.comp_apply, hpersisted, Option.map_some,
      (OutboundDeliveryRecord.hasSameEnqueueIdentity_iff.mp hsame).2.2.1]
  have hboth := (hread expected h).trans (hread expected' h').symm
  exact List.map_injective_iff.mpr (Option.some_injective _) hboth

/-- A replay answers with the current records of the outputs. -/
theorem CompletedAs.replay (h : state.CompletedAs run expected time)
    (hexpected : StateStore.outputDeliveries run.id run.sessionId messages time = .ok expected) :
    StateStore.completeAgentRun run.id messages time now state =
      .ok (run.outputDeliveryIds.filterMap state.outboundDelivery, .confirm) state := by
  have hverify : StateStore.verifyCompletionReplay state run expected time = .ok () :=
    verifyCompletionReplay_eq_ok.mpr ⟨h.finished, h.ids, h.outputs⟩
  rw [StateStore.completeAgentRun, estate_ok_bind (estate_get_eq_ok.mpr ⟨rfl, rfl⟩),
    estate_ok_bind (question_eq_ok.mpr ⟨okOr_eq_ok.mpr h.found, rfl⟩),
    estate_ok_bind (question_eq_ok.mpr ⟨hexpected, rfl⟩)]
  simp only [h.status]
  exact estate_ok_bind (question_eq_ok.mpr ⟨hverify, rfl⟩)

/-- Any other completion is refused. -/
theorem CompletedAs.conflict {messages' : List Message} {time' : U64} {commit : Commit}
    {deliveries : List OutboundDeliveryRecord}
    (h : state.CompletedAs run expected time)
    (hexpected : StateStore.outputDeliveries run.id run.sessionId messages time = .ok expected)
    (hother : messages' ≠ messages ∨ time' ≠ time) :
    StateStore.completeAgentRun run.id messages' time' now state ≠ .ok (deliveries, commit) state' := by
  intro hcomplete
  obtain ⟨run', expected', hrun', hexpected', hcases⟩ :=
    StateStore.completeAgentRun_eq_ok hcomplete
  obtain rfl := Option.some.inj (hrun'.symm.trans h.found)
  rcases hcases with ⟨-, hwrite⟩ | ⟨-, -, -, hverify, -⟩
  · obtain ⟨-, -, _, running, _, _, -, hfound, hrunning, -⟩ :=
      completeRunWithOutputDeliveries_eq_ok hwrite
    obtain rfl := Option.some.inj (hfound.symm.trans h.found)
    cases hrunning.symm.trans h.status
  · obtain ⟨hfinished, hids, houtputs⟩ := verifyCompletionReplay_eq_ok.mp hverify
    obtain rfl := Option.some.inj (h.finished.symm.trans hfinished)
    have hmessages := h.messages_eq ⟨h.found, h.status, hfinished, hids, houtputs⟩
    rw [StateStore.messages_of_outputDeliveries hexpected,
      StateStore.messages_of_outputDeliveries hexpected'] at hmessages
    exact hother.elim (absurd hmessages.symm) (absurd rfl)

/-- The run has completed at the time with the messages as its outputs: each is carried by exactly one
delivery, whatever has become of it since. -/
structure CompletedWith (state : RuntimeState) (id : RunId) (messages : List Message)
    (finishedAtUnix : U64) (run : RunRecord) : Prop where
  found : state.run id = some run
  status : run.status = .completed
  finished : run.finishedAtUnix = some finishedAtUnix
  ids : List.Forall₂ (fun index deliveryId ↦ StateStore.outputDeliveryId id index = .ok deliveryId)
    (List.range messages.length) run.outputDeliveryIds
  outputs : List.Forall₂ (fun message deliveryId ↦ ∃ delivery,
      state.outboundDeliveries.filter (·.id = deliveryId) = [delivery] ∧
        delivery.sessionId = run.sessionId ∧ delivery.message = message ∧
        delivery.createdAtUnix = finishedAtUnix) messages run.outputDeliveryIds

theorem CompletedAs.completedWith (h : state.CompletedAs run expected time) (hstate : state.Valid)
    (hexpected : StateStore.outputDeliveries run.id run.sessionId messages time = .ok expected) :
    state.CompletedWith run.id messages time run := by
  obtain ⟨-, houtputs⟩ := StateStore.outputDeliveries_eq_ok.mp hexpected
  refine ⟨h.found, h.status, h.finished, ?_, ?_⟩
  · rw [h.ids, List.range_eq_range', ← List.zipIdx_map_snd 0 messages, List.forall₂_map_left_iff,
      List.forall₂_map_right_iff]
    refine houtputs.imp fun output delivery houtput ↦ ?_
    obtain ⟨-, -, deliveryId, hid, hnew⟩ := StateStore.outputDelivery_eq_ok houtput
    rw [hid, (OutboundDeliveryRecord.new_eq_ok hnew).2.1]
  · rw [h.ids, ← StateStore.messages_of_outputDeliveries hexpected, List.forall₂_map_left_iff,
      List.forall₂_map_right_iff, List.forall₂_same]
    intro delivery hdelivery
    obtain ⟨_, _, hnew⟩ := StateStore.exists_new_of_outputDeliveries hexpected hdelivery
    obtain ⟨-, -, hsession, -, hcreated, -⟩ := OutboundDeliveryRecord.new_eq_ok hnew
    obtain ⟨persisted, hpersisted, hsame⟩ := h.outputs delivery hdelivery
    obtain ⟨hmem, hid⟩ := find_key_eq_some hpersisted
    obtain ⟨-, hsession', hmessage, hcreated'⟩ :=
      OutboundDeliveryRecord.hasSameEnqueueIdentity_iff.mp hsame
    refine ⟨persisted, ?_, hsession'.trans hsession, hmessage, hcreated'.trans hcreated⟩
    rw [← hid]
    exact filter_key_of_mem hstate.delivery_ids hmem

end RuntimeState

/-! ## Calls -/

section Calls

open RuntimeState

variable {self : StateStore} {io : Io} {disk : Disk} {id : RunId} {messages : List Message}
  {finishedAtUnix now : U64}

/-- The file shows the run completed with the messages at the time. -/
def Disk.Completed (disk : Disk) (id : RunId) (messages : List Message) (finishedAtUnix : U64) :
    Prop :=
  ∃ state ∈ disk.visible, ∃ run expected, run.id = id ∧
    state.CompletedAs run expected finishedAtUnix ∧
      StateStore.outputDeliveries id run.sessionId messages finishedAtUnix = .ok expected

/-- The file shows the run running, and none of its outputs. -/
def Disk.Uncompleted (disk : Disk) (id : RunId) (messages : List Message) : Prop :=
  ∃ state ∈ disk.visible, ∃ run, state.run id = some run ∧ run.status = .running ∧
    ∀ index < messages.length, ∀ deliveryId, StateStore.outputDeliveryId id index = .ok deliveryId →
      state.outboundDelivery deliveryId = none

theorem Disk.Completed.evolves {disk' : Disk} (h : disk.Completed id messages finishedAtUnix)
    (hevolves : disk.Evolves disk') : disk'.Completed id messages finishedAtUnix := by
  obtain ⟨state, hstate, run, expected, hid, hcompleted, hexpected⟩ := h
  obtain ⟨state', hstate', hlater⟩ := hevolves state hstate
  exact ⟨state', hstate', run, expected, hid, hcompleted.evolves hlater, hexpected⟩

/-- The ids of the outputs are those of the expected deliveries. -/
theorem StateStore.exists_mem_of_outputDeliveryId {sessionId : SessionId}
    {expected : List OutboundDeliveryRecord} {index : ℕ} {deliveryId : OutboundDeliveryId}
    (h : StateStore.outputDeliveries id sessionId messages finishedAtUnix = .ok expected)
    (hindex : index < messages.length)
    (hid : StateStore.outputDeliveryId id index = .ok deliveryId) :
    ∃ delivery ∈ expected, delivery.id = deliveryId := by
  obtain ⟨-, houtputs⟩ := outputDeliveries_eq_ok.mp h
  have hmem : (messages[index], index) ∈ messages.zipIdx :=
    List.mk_mem_zipIdx_iff_getElem?.mpr (List.getElem?_eq_getElem hindex)
  obtain ⟨delivery, hdelivery, houtput⟩ := exists_of_mem_right houtputs.flip hmem
  obtain ⟨-, -, _, hid', hnew⟩ := outputDelivery_eq_ok houtput
  obtain rfl := Except.ok.inj (hid.symm.trans hid')
  exact ⟨delivery, hdelivery, (OutboundDeliveryRecord.new_eq_ok hnew).2.1⟩

/-- A state that has a run has not been made up for a missing file. -/
theorem Io.visible_of_run {run : RunRecord} {visible : Option RuntimeState}
    (h : (io.loaded visible).run id = some run) : visible = some (io.loaded visible) := by
  cases visible with
  | none => cases h
  | some state => rfl

/-- A completion replays a completed run, or completes a running run together with deliveries that
were not there before. -/
theorem Method.completeAgentRun_eq_ok {state : RuntimeState} {reply : Reply} {commit : Commit}
    (hdisk : disk.Valid)
    (h : (Method.completeAgentRun id messages finishedAtUnix).work io.now
      (io.loaded disk.visible) = .ok (reply, commit) state) :
    (∀ durable, (Disk.mk (some state) durable).Completed id messages finishedAtUnix) ∧
      (commit = .confirm ∧ disk.visible = some state ∨
        commit = .write ∧ disk.Uncompleted id messages) := by
  have hstate := (Method.change (hdisk.loaded io) h).1.valid (hdisk.loaded io)
  obtain ⟨_, hwork, -⟩ := replying_eq_ok.mp h
  obtain ⟨run, expected, hrun, hexpected, ⟨rfl, hcomplete⟩ | ⟨rfl, rfl, hstatus, hverify, -⟩⟩ :=
    StateStore.completeAgentRun_eq_ok hwork
  · obtain ⟨previous, run', hprevious, hrunning, hid, hsession, hcompleted, -, hnew⟩ :=
      completedAs_of_complete hstate hcomplete
    obtain rfl := Option.some.inj (hrun.symm.trans hprevious)
    refine ⟨fun durable ↦ ⟨state, rfl, run', expected, hid, hcompleted, hsession ▸ hexpected⟩,
      .inr ⟨rfl, _, Io.visible_of_run hrun, run, hrun, hrunning, fun index hindex deliveryId hid ↦ ?_⟩⟩
    obtain ⟨delivery, hdelivery, rfl⟩ :=
      StateStore.exists_mem_of_outputDeliveryId hexpected hindex hid
    exact find_key_eq_none_iff_notMem.mpr (hnew delivery hdelivery)
  · obtain ⟨hfinished, hids, houtputs⟩ := verifyCompletionReplay_eq_ok.mp hverify
    obtain ⟨-, rfl⟩ := find_key_eq_some hrun
    exact ⟨fun durable ↦ ⟨_, rfl, run, expected, rfl, ⟨hrun, hstatus, hfinished, hids, houtputs⟩,
      hexpected⟩, .inl ⟨rfl, Io.visible_of_run hrun⟩⟩

/-- A completion leaves what the file shows, which a reply confirms as completed, or it turns the
running run without outputs into the completed one. -/
theorem Effect.completeAgentRun {result : EStateM.Result String Disk Reply} (hdisk : disk.Valid)
    (h : Effect io disk (.method (.completeAgentRun id messages finishedAtUnix)) result) :
    ((finalState result).visible = disk.visible ∧ ((∃ reply, outcome result = .ok reply) →
        (finalState result).Completed id messages finishedAtUnix)) ∨
      disk.Uncompleted id messages ∧ (finalState result).Completed id messages finishedAtUnix := by
  cases h with
  | refused =>
    refine .inl ⟨rfl, ?_⟩
    rintro ⟨_, ⟨⟩⟩
  | answered hrequest hwork =>
    obtain rfl := Request.method.inj hrequest
    obtain ⟨-, ⟨hcommit, -⟩ | ⟨hcommit, -⟩⟩ := Method.completeAgentRun_eq_ok hdisk hwork <;>
      cases hcommit
  | confirmed hrequest hwork =>
    obtain rfl := Request.method.inj hrequest
    obtain ⟨hcompleted, ⟨-, hvisible⟩ | ⟨hcommit, -⟩⟩ := Method.completeAgentRun_eq_ok hdisk hwork
    · refine .inl ⟨rfl, fun _ ↦ ?_⟩
      simp only [finalState, hvisible]
      exact hcompleted _
    · cases hcommit
  | written hcomputes =>
    obtain ⟨_, hcommit, hwork⟩ := hcomputes.work_eq_ok hdisk
    obtain ⟨hcompleted, ⟨rfl, -⟩ | ⟨-, huncompleted⟩⟩ := Method.completeAgentRun_eq_ok hdisk hwork
    · simp at hcommit
    · exact .inr ⟨huncompleted, hcompleted _⟩
  | unconfirmed _ hcomputes =>
    obtain ⟨_, hcommit, hwork⟩ := hcomputes.work_eq_ok hdisk
    obtain ⟨hcompleted, ⟨rfl, -⟩ | ⟨-, huncompleted⟩⟩ := Method.completeAgentRun_eq_ok hdisk hwork
    · simp at hcommit
    · exact .inr ⟨huncompleted, hcompleted _⟩

/-- Where a completion shows, the same completion is replayed. -/
theorem Disk.Completed.replay (self : StateStore) (hdisk : disk.Valid)
    (h : disk.Completed id messages finishedAtUnix) :
    ∃ state ∈ disk.visible, ∃ run, state.CompletedWith id messages finishedAtUnix run ∧
      ∀ io : Io, io.read = none → io.confirm = none →
        self.call io (.method (.completeAgentRun id messages finishedAtUnix)) disk =
          .ok (.completed (run.outputDeliveryIds.filterMap state.outboundDelivery))
            { disk with durable := disk.visible } := by
  obtain ⟨state, hstate, run, expected, rfl, hcompleted, hexpected⟩ := h
  refine ⟨state, hstate, run, hcompleted.completedWith (hdisk state hstate) hexpected,
    fun io hread hconfirm ↦ ?_⟩
  have hloaded : io.loaded disk.visible = state := by rw [Option.mem_def.mp hstate]; rfl
  have hwork : (Method.completeAgentRun run.id messages finishedAtUnix).work io.now
      (io.loaded disk.visible) =
        .ok (.completed (run.outputDeliveryIds.filterMap state.outboundDelivery), .confirm) state := by
    rw [hloaded]
    exact replying_eq_ok.mpr ⟨_, hcompleted.replay hexpected, rfl⟩
  rw [StateStore.call, StateStore.transact_eq hread (Disk.valid_iff.mp hdisk) hwork]
  exact estate_ok_bind (StateStore.confirmDurable_eq_ok hconfirm)

/-- Where a completion shows, any other completion of the run is refused. -/
theorem Disk.Completed.conflict {messages' : List Message} {finishedAtUnix' : U64}
    (h : disk.Completed id messages finishedAtUnix)
    (hother : messages' ≠ messages ∨ finishedAtUnix' ≠ finishedAtUnix) :
    ∃ err, self.call io (.method (.completeAgentRun id messages' finishedAtUnix')) disk =
      .error err disk := by
  obtain ⟨state, hstate, run, expected, rfl, hcompleted, hexpected⟩ := h
  have hloaded : io.loaded disk.visible = state := by rw [Option.mem_def.mp hstate]; rfl
  rcases self.transact_cases io disk (Method.completeAgentRun run.id messages' finishedAtUnix').work
    with hfailed | ⟨reply, commit, state', -, hreplying, -⟩
  · exact hfailed
  · obtain ⟨deliveries, hwork, -⟩ := replying_eq_ok.mp hreplying
    rw [hloaded] at hwork
    exact absurd hwork (hcompleted.conflict hexpected hother)

/-- A completion is atomic, permanent and replayable. The call either leaves what the file shows or
turns a running run without outputs into a completed one with all of them; and once it has returned or
has changed what the file shows, the completion shows after any later calls, the same completion is
replayed, and any other is refused. -/
theorem completion_atomic_permanent_replayable (self : StateStore) (earlier later : List Call)
    (io : Io) (id : RunId) (messages : List Message) (finishedAtUnix : U64) :
    let call : Call := ⟨.method (.completeAgentRun id messages finishedAtUnix), io⟩
    let before := self.after earlier
    let after := self.after (earlier ++ [call])
    let last := self.after (earlier ++ call :: later)
    (after.visible = before.visible ∨ before.Uncompleted id messages ∧
      ∃ state ∈ after.visible, ∃ run, state.CompletedWith id messages finishedAtUnix run) ∧
    ((∃ reply, (self.step call before).1 = .ok reply) ∨ after.visible ≠ before.visible →
      ∃ state ∈ last.visible, ∃ run, state.CompletedWith id messages finishedAtUnix run ∧
        (∀ io', io'.read = none → io'.confirm = none →
          self.call io' call.request last =
            .ok (.completed (run.outputDeliveryIds.filterMap state.outboundDelivery))
              { last with durable := last.visible }) ∧
        ∀ io' messages' finishedAtUnix', messages' ≠ messages ∨ finishedAtUnix' ≠ finishedAtUnix →
          ∃ err, self.call io' (.method (.completeAgentRun id messages' finishedAtUnix')) last =
            .error err last) := by
  intro call before after last
  have hafter : after = finalState (self.call io call.request before) := StateStore.after_concat
  have hvalid : after.Valid := StateStore.history_valid.2
  have hlast : after.Evolves last := by
    have hevolves := self.after_evolves (earlier ++ [call]) later
    rwa [List.append_assoc] at hevolves
  have heffect := (self.call_effect io call.request before).completeAgentRun
    StateStore.history_valid.2
  rw [← hafter] at heffect
  constructor
  · refine heffect.imp And.left fun h ↦ ⟨h.1, ?_⟩
    obtain ⟨state, hstate, run, hcompleted, -⟩ := h.2.replay self hvalid
    exact ⟨state, hstate, run, hcompleted⟩
  · intro hdone
    have hcompleted : after.Completed id messages finishedAtUnix := by
      rcases heffect with ⟨hsame, hreplied⟩ | ⟨-, hcompleted⟩
      · exact hreplied (hdone.resolve_right fun h ↦ h hsame)
      · exact hcompleted
    have hcompleted := hcompleted.evolves hlast
    obtain ⟨state, hstate, run, hwith, hreplay⟩ :=
      hcompleted.replay self StateStore.history_valid.2
    exact ⟨state, hstate, run, hwith, hreplay, fun io' messages' finishedAtUnix' hother ↦
      hcompleted.conflict hother⟩

end Calls

/-! ### A completed run -/

/-- The message of the user. -/
def userMessage : Message where
  id := ⟨"msg_1", by decide⟩
  sessionId := some (.forScope chat)
  author := .user
  content := .text "question" (by decide)
  createdAtUnix := 0

/-- The run that answers it is running. -/
def answering : List Call :=
  [⟨.save chatState rfl, .untroubled⟩,
    ⟨.method (.persistInboundEvent ⟨⟨"evt_1", by decide⟩, .platform, .messageReceived userMessage, 0⟩),
      .untroubled⟩,
    ⟨.method (.claimMessageBatch ⟨"run_1", by decide⟩ ⟨0, 1, by decide⟩ 1), .untroubled⟩,
    ⟨.method (.startAgentRun ⟨"run_1", by decide⟩ 2), .untroubled⟩]

theorem completion_atomic_permanent_replayable_answer :
    ∃ state ∈ ((StateStore.mk "state.json").after (answering ++
      [⟨.method (.completeAgentRun ⟨"run_1", by decide⟩ [pendingReply.message] 3), .untroubled⟩])).visible,
      ∃ run, state.CompletedWith ⟨"run_1", by decide⟩ [pendingReply.message] 3 run := by
  obtain ⟨state, hstate, run, hcompleted, -⟩ := (completion_atomic_permanent_replayable
    ⟨"state.json"⟩ answering [] .untroubled ⟨"run_1", by decide⟩ [pendingReply.message] 3).2
      (.inl ⟨_, rfl⟩)
  exact ⟨state, hstate, run, hcompleted⟩

end FerrisBridge
