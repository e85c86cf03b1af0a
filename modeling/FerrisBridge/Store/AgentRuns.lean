import FerrisBridge.Store.Saving

/-!
# Agent runs

A durable agent run is handed over at most once, its history only moves forward, and no session has
two agents at the same time. Runs are written by many methods and by merged snapshots, but only
`start_agent_run` can make a run with a durable input running.
-/

open Foundations

namespace FerrisBridge

namespace RuntimeState

variable {state state' : RuntimeState} {now time : U64} {u : Unit}

/-- Every running run was there before. -/
def StartsNone (before after : List RunRecord) : Prop :=
  ∀ run ∈ after, run.status = .running → run ∈ before

theorem StartsNone.replace {before after : List RunRecord} {run run' : RunRecord}
    (h : run'.status ≠ .running) : StartsNone (before ++ run :: after) (before ++ run' :: after) := by
  intro other hother hrunning
  simp only [List.mem_append, List.mem_cons] at hother ⊢
  rcases hother with hother | rfl | hother
  · exact .inl hother
  · exact absurd hrunning h
  · exact .inr (.inr hother)

/-- A run operation whose transition does not end in `Running`. -/
theorem startsNone_of_runTransition {id : RunId} {update : EStateM String RunRecord Unit}
    (hupdate : ∀ run run', update run = .ok () run' → run'.status ≠ .running)
    (h : (do runMut id update; modify (touchAt (max time now)) :
      EStateM String RuntimeState Unit) state = .ok u state') :
    StartsNone state.runs state'.runs ∧ state'.runInputs = state.runInputs := by
  simp only [estate_bind_unit_eq_ok, estate_modify_eq_ok] at h
  obtain ⟨_, hrun, rfl⟩ := h
  obtain ⟨before, run, run', after, hruns, rfl, -, hrun⟩ := runMut_eq_ok hrun
  rw [hruns]
  exact ⟨.replace (hupdate run run' hrun), rfl⟩

/-- Starting a run replaces its pending record by a running one. -/
theorem startRun_eq_ok {id : RunId} (h : startRun id time now state = .ok u state') :
    ∃ before run run' after, state.runs = before ++ run :: after ∧
      state'.runs = before ++ run' :: after ∧ state'.runInputs = state.runInputs ∧
      state.run id = some run ∧ run.status = .pending ∧ run'.status = .running ∧
      run'.Descends run := by
  simp only [startRun, estate_bind_unit_eq_ok, estate_modify_eq_ok] at h
  obtain ⟨_, hrun, rfl⟩ := h
  obtain ⟨before, run, run', after, hruns, rfl, hfound, hrun⟩ := runMut_eq_ok hrun
  obtain ⟨hadvances, hpending, hrunning, -⟩ := RunRecord.start_eq_ok hrun
  exact ⟨before, run, run', after, hruns, rfl, rfl, hfound, hpending, hrunning, hadvances.descends⟩

theorem startsNone_of_reconcileRunsAtStartup {result : RunStartupRecoveryReport × Bool}
    (h : reconcileRunsAtStartup time state = .ok result state') :
    StartsNone state.runs state'.runs ∧ state'.runInputs = state.runInputs := by
  simp only [reconcileRunsAtStartup, estate_bind_eq_ok, estate_get_eq_ok, estate_modify_eq_ok,
    estate_pure_eq_ok, zoom_eq_ok] at h
  obtain ⟨_, _, ⟨rfl, rfl⟩, loop, _, ⟨runs, hloop, rfl⟩, _, _, rfl, -, rfl⟩ := h
  have hnone := forEachMut_invariant (fun _ done done' ↦ StartsNone done done')
    (fun loop done done' run loop' run' hdone hbody other hother hrunning ↦ ?_)
    (fun _ h ↦ absurd h List.not_mem_nil) hloop
  · obtain ⟨updatedAtUnix, heq, -, -⟩ := touchLatest_eq loop.latestInterruptedAt { state with runs }
    rw [heq]
    exact ⟨hnone, rfl⟩
  · rcases List.mem_append.mp hother with hother | hother
    · exact List.mem_append_left _ (hdone other hother hrunning)
    · obtain rfl := List.mem_singleton.mp hother
      rcases recoverRun_eq_ok hbody with ⟨rfl, -⟩ | ⟨_, _, -, hinterrupted, -⟩
      · simp
      · cases hinterrupted.symm.trans hrunning

/-- Another run of a session with an active run is terminal. -/
theorem Consistent.terminal_of_active (h : state.Consistent) {run other : RunRecord}
    (hrun : run ∈ state.runs) (hother : other ∈ state.runs) (hne : run ≠ other)
    (hactive : run.isTerminal = false) (hsession : run.sessionId = other.sessionId) :
    other.isTerminal = true := by
  have : Std.Symm NotBothActive := ⟨fun _ _ h hfirst hsecond heq ↦ h hsecond hfirst heq.symm⟩
  by_contra hterminal
  exact h.active.forall hrun hother hne hactive (by simpa using hterminal) hsession

/-- An operation that has nothing to do with runs. -/
theorem startsNone_of_eq (hruns : state'.runs = state.runs)
    (hinputs : state'.runInputs = state.runInputs) :
    StartsNone state.runs state'.runs ∧ state'.runInputs = state.runInputs :=
  ⟨fun _ hrun _ ↦ hruns ▸ hrun, hinputs⟩

theorem startsNone_of_recordInboundEvent {event : Event} {status : InboundEventRecordStatus}
    (h : recordInboundEvent event now state = .ok status state') :
    StartsNone state.runs state'.runs ∧ state'.runInputs = state.runInputs := by
  obtain ⟨queued, -, ⟨-, rfl, -⟩ | ⟨-, -, record, -, rfl⟩⟩ := recordInboundEventAt_eq_ok h
  · exact startsNone_of_eq rfl rfl
  · cases queued <;> exact startsNone_of_eq rfl rfl

theorem startsNone_of_updateOutboundDelivery {id : OutboundDeliveryId}
    {update : EStateM String OutboundDeliveryRecord Unit} {delivery : OutboundDeliveryRecord}
    (h : updateOutboundDelivery id now update state = .ok delivery state') :
    StartsNone state.runs state'.runs ∧ state'.runInputs = state.runInputs := by
  obtain ⟨_, _, _, -, rfl, -, -⟩ := updateOutboundDelivery_eq_ok h
  exact startsNone_of_eq rfl rfl

end RuntimeState

namespace Method

open RuntimeState

variable {state state' : RuntimeState} {now : U64} {method : Method} {reply : Reply}
  {commit : Commit}

/-- No method makes a run running, apart from `start_agent_run`, and no method adds a run input,
apart from `claim_message_batch`. -/
theorem startsNone (h : method.work now state = .ok (reply, commit) state')
    (hclaim : ∀ runId policy time, method ≠ .claimMessageBatch runId policy time)
    (hstart : ∀ id time, method ≠ .startAgentRun id time) :
    StartsNone state.runs state'.runs ∧ state'.runInputs = state.runInputs := by
  cases method with
  | load =>
    simp only [work, estate_bind_eq_ok, estate_get_eq_ok, estate_pure_eq_ok] at h
    obtain ⟨_, _, ⟨rfl, rfl⟩, -, rfl⟩ := h
    exact startsNone_of_eq rfl rfl
  | persistInboundEvent =>
    obtain ⟨_, hwork, -⟩ := replying_eq_ok.mp h
    exact startsNone_of_recordInboundEvent (StateStore.persistInboundEvent_eq_ok hwork).1
  | pollMessageQueue =>
    obtain ⟨_, hwork, -⟩ := replying_eq_ok.mp h
    simp only [StateStore.pollMessageQueue, estate_bind_eq_ok, estate_get_eq_ok,
      estate_pure_eq_ok] at hwork
    obtain ⟨_, _, ⟨rfl, rfl⟩, -, rfl⟩ := hwork
    exact startsNone_of_eq rfl rfl
  | claimMessageBatch runId policy time => exact absurd rfl (hclaim runId policy time)
  | enqueueOutboundDelivery =>
    obtain ⟨_, hwork, -⟩ := replying_eq_ok.mp h
    obtain ⟨-, -, -, ⟨-, rfl, -⟩ | ⟨-, -, rfl⟩⟩ :=
      enqueueOutboundDelivery_eq_ok (StateStore.enqueueOutboundDelivery_eq_ok hwork).1 <;>
      exact startsNone_of_eq rfl rfl
  | claimNextOutboundDeliveryAttempt =>
    obtain ⟨_, hwork, -⟩ := replying_eq_ok.mp h
    obtain ⟨_, hclaimed, -⟩ := StateStore.claimNextOutboundDeliveryAttempt_eq_ok hwork
    obtain ⟨-, rfl⟩ | ⟨_, _, _, _, -, -, rfl, -, -⟩ :=
      claimNextOutboundDeliveryWhere_eq_ok hclaimed <;>
      exact startsNone_of_eq rfl rfl
  | markOutboundDeliveryDelivered | markOutboundDeliveryFailed | markOutboundDeliveryUncertain =>
    obtain ⟨_, hwork, -⟩ := replying_eq_ok.mp h
    exact startsNone_of_updateOutboundDelivery (StateStore.writing_eq_ok hwork).1
  | resolveOutboundDeliveryAsDelivered =>
    obtain ⟨_, hwork, -⟩ := replying_eq_ok.mp h
    rcases StateStore.resolveOutboundDeliveryAsDelivered_eq_ok hwork with
      ⟨hresolve, -⟩ | ⟨rfl, -⟩
    · exact startsNone_of_updateOutboundDelivery hresolve
    · exact startsNone_of_eq rfl rfl
  | resolveOutboundDeliveryAsFailed =>
    obtain ⟨_, hwork, -⟩ := replying_eq_ok.mp h
    rcases StateStore.resolveOutboundDeliveryAsFailed_eq_ok hwork with ⟨hresolve, -⟩ | ⟨rfl, -⟩
    · exact startsNone_of_updateOutboundDelivery hresolve
    · exact startsNone_of_eq rfl rfl
  | reconcileRunsAtStartup =>
    obtain ⟨_, hwork, -⟩ := replying_eq_ok.mp h
    simp only [StateStore.reconcileRunsAtStartup, estate_bind_eq_ok, estate_pure_eq_ok] at hwork
    obtain ⟨_, _, hreconcile, -, rfl⟩ := hwork
    exact startsNone_of_reconcileRunsAtStartup hreconcile
  | reconcileOutboundDeliveriesAtStartup =>
    obtain ⟨_, hwork, -⟩ := replying_eq_ok.mp h
    simp only [StateStore.reconcileOutboundDeliveriesAtStartup,
      RuntimeState.reconcileOutboundDeliveriesAtStartup, estate_bind_eq_ok, estate_modify_eq_ok,
      estate_pure_eq_ok, zoom_eq_ok] at hwork
    obtain ⟨_, _, ⟨loop, _, ⟨deliveries, -, rfl⟩, _, _, rfl, -, rfl⟩, -, rfl⟩ := hwork
    obtain ⟨_, heq, -⟩ := touchLatest_eq loop.latestRecoveredAt
      { state with outboundDeliveries := deliveries }
    rw [heq]
    exact startsNone_of_eq rfl rfl
  | startAgentRun id time => exact absurd rfl (hstart id time)
  | completeAgentRun =>
    obtain ⟨_, hwork, -⟩ := replying_eq_ok.mp h
    obtain ⟨_, _, -, -, ⟨-, hcomplete⟩ | ⟨-, rfl, -⟩⟩ := StateStore.completeAgentRun_eq_ok hwork
    · obtain ⟨-, -, _, _, run', _, hruns, -, -, rfl, -, hcompleted, -⟩ :=
        completeRunWithOutputDeliveries_eq_ok hcomplete
      rw [hruns]
      exact ⟨.replace (by simp [hcompleted]), rfl⟩
    · exact startsNone_of_eq rfl rfl
  | failAgentRun =>
    obtain ⟨_, hwork, -⟩ := replying_eq_ok.mp h
    rcases StateStore.failAgentRun_eq_ok hwork with ⟨-, hfail, -⟩ | ⟨-, rfl, -⟩
    · refine startsNone_of_runTransition (fun run run' hrun ↦ ?_) hfail
      simp [(RunRecord.fail_eq_ok hrun).2.1]
    · exact startsNone_of_eq rfl rfl
  | interruptAgentRun =>
    obtain ⟨_, hwork, -⟩ := replying_eq_ok.mp h
    rcases StateStore.interruptAgentRun_eq_ok hwork with ⟨-, hinterrupt, -⟩ | ⟨-, rfl, -⟩
    · refine startsNone_of_runTransition (fun run run' hrun ↦ ?_) hinterrupt
      simp [(RunRecord.interrupt_eq_ok hrun).2.2.1]
    · exact startsNone_of_eq rfl rfl

/-- A method that makes a run with a durable input running is the `start_agent_run` of it. -/
theorem handsOver (hstate : state.Valid) (h : method.work now state = .ok (reply, commit) state')
    {run : RunRecord} (hrun : run ∈ state'.runs) (hrunning : run.status = .running)
    (hinput : (state'.runInput run.id).isSome) :
    run ∈ state.runs ∧ (state.runInput run.id).isSome ∨
      (∃ time, method = .startAgentRun run.id time) ∧ run ∉ state.runs := by
  by_cases hclaim : ∃ runId policy time, method = .claimMessageBatch runId policy time
  · obtain ⟨runId, policy, time, rfl⟩ := hclaim
    obtain ⟨_, hwork, -⟩ := replying_eq_ok.mp h
    rcases claimMessageBatch_eq_ok (StateStore.claimMessageBatch_eq_ok hwork).1 with
      ⟨_, -, rfl⟩ | ⟨run', input, -, rfl, -, hid, -, -, ⟨-, hnew, -⟩, rfl⟩
    · exact .inl ⟨hrun, hinput⟩
    · rcases List.mem_append.mp hrun with hrun | hrun
      · refine .inl ⟨hrun, find_key_isSome.mpr ?_⟩
        have hknown : run.id ∈ (state.runInputs ++ [input]).map (·.runId) :=
          find_key_isSome.mp hinput
        rw [List.map_append, List.mem_append, List.map_singleton, List.mem_singleton, hid] at hknown
        refine hknown.resolve_right fun heq ↦ hnew ?_
        exact List.mem_map.mpr ⟨run, hrun, heq⟩
      · obtain rfl := List.mem_singleton.mp hrun
        cases hrunning
  by_cases hstart : ∃ id time, method = .startAgentRun id time
  · obtain ⟨id, time, rfl⟩ := hstart
    obtain ⟨_, hwork, -⟩ := replying_eq_ok.mp h
    obtain ⟨-, -, _, -, -, -, hstart⟩ := StateStore.startAgentRun_eq_ok hwork
    obtain ⟨before, previous, run', after, hruns, hruns', hinputs, hfound, hpending, -, hdescends⟩ :=
      startRun_eq_ok hstart
    obtain ⟨-, rfl⟩ := find_key_eq_some hfound
    rw [RuntimeState.runInput, hinputs] at hinput
    have hprevious : previous ∈ state.runs := by simp [hruns]
    rw [hruns'] at hrun
    simp only [List.mem_append, List.mem_cons] at hrun
    rcases hrun with hrun | rfl | hrun
    · exact .inl ⟨by simp [hruns, hrun], hinput⟩
    · refine .inr ⟨⟨time, by rw [hdescends.id_eq]⟩, fun hrun ↦ ?_⟩
      obtain rfl := eq_of_key_eq hstate.run_ids hrun hprevious hdescends.id_eq
      cases hpending.symm.trans hrunning
    · exact .inl ⟨by simp [hruns, hrun], hinput⟩
  · push Not at hclaim hstart
    obtain ⟨hnone, hinputs⟩ := startsNone h hclaim hstart
    rw [RuntimeState.runInput, hinputs] at hinput
    exact .inl ⟨hnone run hrun hrunning, hinput⟩

end Method

/-- A call that makes a run with a durable input running is the `start_agent_run` of it. -/
theorem Computes.handsOver {io : Io} {disk : Disk} {request : Request} {reply : Reply}
    {state : RuntimeState} (hdisk : disk.Valid) (hstate : state.Valid)
    (h : Computes io disk.visible request reply state) {run : RunRecord} (hrun : run ∈ state.runs)
    (hrunning : run.status = .running) (hinput : (state.runInput run.id).isSome) :
    (∃ before ∈ disk.visible, run ∈ before.runs ∧ (before.runInput run.id).isSome) ∨
      (∃ time, request = .method (.startAgentRun run.id time)) ∧
        ∀ before ∈ disk.visible, run ∉ before.runs := by
  cases request with
  | save snapshot valid =>
    obtain - | - | ⟨-, hmerge⟩ := h
    have hforges := StateStore.forgesNothing_of_merge hdisk valid hmerge
    cases hvisible : disk.visible with
    | none =>
      rw [RuntimeState.runInput, hforges.inputs, hvisible] at hinput
      cases hinput
    | some existing =>
      have hexisting := hdisk existing hvisible
      rw [RuntimeState.runInput, hforges.inputs, hvisible] at hinput
      obtain ⟨input, hinputEq⟩ := Option.isSome_iff_exists.mp hinput
      obtain ⟨hmem, hid⟩ := find_key_eq_some hinputEq
      obtain ⟨existingRun, hexistingRun, -⟩ := hexisting.input_runs input hmem
      rw [hid] at hexistingRun
      obtain ⟨hmem', hid'⟩ := find_key_eq_some hexistingRun
      rw [← hid'] at hinput
      obtain ⟨run', hrun', hkept⟩ := hforges.runs existing hvisible existingRun hmem' hinput
      have hfound : state.run run.id = some run := find_key_of_mem hstate.run_ids hrun
      rw [hid', hfound] at hrun'
      obtain rfl := Option.some.inj hrun'
      rcases hkept with rfl | ⟨-, hstatus⟩
      · exact .inl ⟨existing, rfl, hmem', hinput⟩
      · simp [hrunning] at hstatus
  | method method =>
    obtain ⟨commit, -, hwork⟩ := h.work_eq_ok hdisk
    have hhanded := Method.handsOver (hdisk.loaded io) hwork hrun hrunning hinput
    cases hvisible : disk.visible with
    | none =>
      rw [hvisible] at hhanded
      exact .inr ⟨hhanded.elim (fun h ↦ absurd h.1 List.not_mem_nil)
        (fun h ↦ h.1.imp fun _ ↦ congrArg _), fun _ h ↦ by cases h⟩
    | some existing =>
      rw [hvisible] at hhanded
      refine hhanded.imp (fun h ↦ ⟨existing, rfl, h⟩) fun h ↦ ⟨h.1.imp fun _ ↦ congrArg _, ?_⟩
      rintro _ ⟨⟩
      exact h.2

/-- The run that a call has handed over to an agent, with its session. -/
def handedOver (e : CallEntry) : Option (RunId × SessionId) :=
  match e.input.request, e.output with
  | .method (.startAgentRun id _), .ok (.started input) => some (id, input.sessionId)
  | _, _ => none

namespace StateStore

variable {self : StateStore} {calls : List Call} {e : CallEntry} {id : RunId} {session : SessionId}

/-- A run is handed over from `Pending` and is running afterwards; the other runs stay. -/
theorem handedOver_spec (he : e ∈ self.history calls) (h : handedOver e = some (id, session)) :
    ∃ before after previous run, e.before.visible = some before ∧ e.after.visible = some after ∧
      before.run id = some previous ∧ previous.status = .pending ∧ previous.sessionId = session ∧
      after.run id = some run ∧ run.status = .running ∧ run.sessionId = session ∧
      ∀ other ∈ before.runs, other.id ≠ id → other ∈ after.runs := by
  unfold handedOver at h
  split at h
  case h_2 => cases h
  case h_1 id' time input hrequest houtput =>
    obtain ⟨rfl, rfl⟩ := Prod.mk.inj (Option.some.inj h)
    obtain ⟨commit, after, hreplying, hafter⟩ := history_method_eq_ok he hrequest houtput
    obtain ⟨_, hwork, hreply⟩ := replying_eq_ok.mp hreplying
    obtain rfl := Reply.started.inj hreply
    obtain ⟨rfl, -, run, hrun, hsession, -, hstart⟩ := startAgentRun_eq_ok hwork
    obtain ⟨front, previous, run', back, hruns, hruns', -, hprevious, hpending, hrunning, hdescends⟩ :=
      RuntimeState.startRun_eq_ok hstart
    obtain rfl := Option.some.inj (hrun.symm.trans hprevious)
    have hvisible := congrArg Disk.visible hafter
    have hafterValid : after.Valid := (history_valid.1 e he).2 after hvisible
    cases hbefore : e.before.visible with
    | none =>
      rw [hbefore] at hrun
      cases hrun
    | some before =>
      rw [hbefore] at hrun hruns
      obtain ⟨-, hid⟩ := find_key_eq_some hrun
      refine ⟨before, after, run, run', rfl, hvisible, hrun, hpending, hsession, ?_, hrunning,
        hdescends.sessionId_eq.trans hsession, fun other hother hne ↦ ?_⟩
      · rw [← hid, ← hdescends.id_eq]
        exact find_key_of_mem hafterValid.run_ids (by simp [hruns'])
      · rw [show before.runs = front ++ run :: back from hruns] at hother
        rw [hruns']
        simp only [List.mem_append, List.mem_cons] at hother ⊢
        rcases hother with hother | rfl | hother
        · exact .inl hother
        · exact absurd hid hne
        · exact .inr (.inr hother)

/-- A run that has been handed over is never pending again. -/
theorem handedOver_once :
    (self.history calls).Pairwise fun e later ↦ ∀ id session session',
      handedOver e = some (id, session) → handedOver later ≠ some (id, session') := by
  refine history_pairwise.imp_of_mem fun he hlater hevolves ↦ ?_
  intro id session session' hhanded hhanded'
  obtain ⟨-, after, -, run, -, hafter, -, -, -, hrun, hrunning, -⟩ := handedOver_spec he hhanded
  obtain ⟨before, -, previous, -, hbefore, -, hprevious, hpending, -⟩ :=
    handedOver_spec hlater hhanded'
  obtain ⟨_, hstate, hevolves⟩ := hevolves after hafter
  obtain rfl := Option.some.inj (hbefore.symm.trans hstate)
  obtain ⟨run', hrun', hevolves⟩ := hevolves.run hrun
  obtain rfl := Option.some.inj (hprevious.symm.trans hrun')
  exact hevolves.not_pending (by simp [hrunning]) hpending

/-- When a session has another run handed over, its earlier one is terminal. -/
theorem handedOver_terminal :
    (self.history calls).Pairwise fun e later ↦ ∀ id id' session,
      handedOver e = some (id, session) → handedOver later = some (id', session) → id ≠ id' →
        ∃ before ∈ later.before.visible, ∃ after ∈ later.after.visible, ∃ run,
          before.run id = some run ∧ after.run id = some run ∧
            (run.status = .completed ∨ run.status = .failed ∨ run.status = .cancelled) := by
  refine history_pairwise.imp_of_mem fun {e later} he hlater hevolves ↦ ?_
  intro id id' session hhanded hhanded' hne
  obtain ⟨-, first, -, run, -, hfirst, -, -, -, hrun, -, hsession, -⟩ := handedOver_spec he hhanded
  obtain ⟨before, after, previous, -, hbefore, hafter, hprevious, hpending, hsession', -, -, -,
    hothers⟩ := handedOver_spec hlater hhanded'
  obtain ⟨_, hstate, hevolves⟩ := hevolves first hfirst
  obtain rfl := Option.some.inj (hbefore.symm.trans hstate)
  obtain ⟨run', hrun', hevolves⟩ := hevolves.run hrun
  obtain ⟨hmem, rfl⟩ := find_key_eq_some hrun'
  obtain ⟨hmem', rfl⟩ := find_key_eq_some hprevious
  obtain ⟨hvalid, hvalid'⟩ := history_valid.1 later hlater
  have hterminal : run'.isTerminal = true := by
    refine (hvalid before hbefore).terminal_of_active hmem' hmem (fun heq ↦ hne ?_) ?_ ?_
    · rw [heq]
    · simp [RunRecord.isTerminal, hpending, RunStatus.isTerminal]
    · rw [hsession', hevolves.sessionId_eq, hsession]
  refine ⟨before, hbefore, after, hafter, run', hrun',
    find_key_of_mem (hvalid' after hafter).run_ids (hothers run' hmem hne), ?_⟩
  cases hstatus : run'.status <;> simp_all [RunRecord.isTerminal, RunStatus.isTerminal]

/-- A running run with a durable input was made running by its `start_agent_run`. -/
theorem running_of_startAgentRun {state : RuntimeState} (hstate : (self.after calls).visible = some state)
    {run : RunRecord} (hrun : run ∈ state.runs) (hrunning : run.status = .running)
    (hinput : (state.runInput run.id).isSome) :
    ∃ e ∈ self.history calls, (∃ time, e.input.request = .method (.startAgentRun run.id time)) ∧
      (∃ written ∈ e.after.visible, run ∈ written.runs) ∧
        ∀ before ∈ e.before.visible, run ∉ before.runs := by
  obtain ⟨e, he, hbefore, written, hwritten, hmem, hinput⟩ := exists_cause self.step .absent
    (fun disk : Disk ↦ ∃ state ∈ disk.visible, run ∈ state.runs ∧
      (state.runInput run.id).isSome) nofun
    ⟨state, hstate, hrun, hinput⟩
  obtain hvisible | ⟨reply, _, hcomputes, hvalid, hvisible⟩ := history_visible he
  · rw [hvisible] at hwritten
    exact absurd ⟨written, hwritten, hmem, hinput⟩ hbefore
  · obtain rfl := Option.some.inj (hwritten.symm.trans hvisible)
    rcases hcomputes.handsOver (history_valid.1 e he).1 hvalid hmem hrunning hinput with
      hkept | ⟨hrequest, hnew⟩
    · exact absurd hkept hbefore
    · exact ⟨e, he, hrequest, ⟨written, hwritten, hmem⟩, hnew⟩

/-- Agent runs are handed over at most once, never run back, and never overlap in a session. -/
theorem agent_runs_handed_over_once (self : StateStore) (calls : List Call) :
    ((self.history calls).Pairwise fun e later ↦ ∀ state ∈ e.after.visible,
      ∃ state' ∈ later.after.visible, ∀ run ∈ state.runs, ∃ run', state'.run run.id = some run' ∧
        (run' = run ∨ run'.isDescendantOf run = true)) ∧
    ((self.history calls).filterMap fun e ↦ (handedOver e).map (·.1)).Nodup ∧
    (∀ state ∈ (self.after calls).visible, ∀ run ∈ state.runs, run.status = .running →
      (state.runInput run.id).isSome → ∃ e ∈ self.history calls,
        (∃ time, e.input.request = .method (.startAgentRun run.id time)) ∧
        (∃ written ∈ e.after.visible, run ∈ written.runs) ∧
          ∀ before ∈ e.before.visible, run ∉ before.runs) ∧
    (self.history calls).Pairwise fun e later ↦ ∀ id id' session,
      handedOver e = some (id, session) → handedOver later = some (id', session) → id ≠ id' →
        ∃ before ∈ later.before.visible, ∃ after ∈ later.after.visible, ∃ run,
          before.run id = some run ∧ after.run id = some run ∧
            (run.status = .completed ∨ run.status = .failed ∨ run.status = .cancelled) := by
  refine ⟨?_, ?_, fun state hstate run hrun hrunning hinput ↦
    running_of_startAgentRun hstate hrun hrunning hinput, handedOver_terminal⟩
  · refine history_pairwise.imp_of_mem fun {e later} he hlater hevolves state hstate ↦ ?_
    obtain ⟨state', hstate', hstep⟩ := hevolves.trans _ _ _ (history_step hlater) state hstate
    refine ⟨state', hstate', fun run hrun ↦ ?_⟩
    have hvalid : state.Valid := (history_valid.1 e he).2 state hstate
    obtain ⟨run', hrun', hevolves⟩ := hstep.run (find_key_of_mem hvalid.run_ids hrun)
    exact ⟨run', hrun', hevolves.imp_right RunRecord.isDescendantOf_iff.mpr⟩
  · refine List.pairwise_filterMap.mpr (handedOver_once.imp fun {e later} hnot ↦ ?_)
    simp only [Option.map_eq_some_iff]
    rintro _ ⟨⟨id, session⟩, hhanded, rfl⟩ _ ⟨⟨id', session'⟩, hhanded', rfl⟩ rfl
    exact hnot id session session' hhanded hhanded'

end StateStore

end FerrisBridge
