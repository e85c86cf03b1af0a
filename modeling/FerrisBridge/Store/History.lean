import FerrisBridge.Store.Work

/-!
# Histories of the store

A history is a sequence of calls on one file, in the order in which they hold the write lock. The
visible state of the file is valid throughout, and it only evolves: whatever a call writes is a
change of the loaded state or the merge of a snapshot into it.
-/

open Foundations

namespace FerrisBridge

variable {state state' : RuntimeState} {now : U64}

theorem RuntimeState.valid_new (now : U64) : (RuntimeState.new now).Valid where
  sessions _ h := absurd h List.not_mem_nil
  session_ids := List.nodup_nil
  runs _ h := absurd h List.not_mem_nil
  run_sessions _ h := absurd h List.not_mem_nil
  run_ids := List.nodup_nil
  output_ids := List.nodup_nil
  active := .nil
  events _ h := absurd h List.not_mem_nil
  event_ids := List.nodup_nil
  deliveries _ h := absurd h List.not_mem_nil
  delivery_ids := List.nodup_nil
  delivery_sessions _ h := absurd h List.not_mem_nil
  outputs _ h := absurd h List.not_mem_nil
  queued _ h := absurd h List.not_mem_nil
  queued_ledger := List.Sublist.refl _
  queued_sessions _ h := absurd h List.not_mem_nil
  inputs _ h := absurd h List.not_mem_nil
  input_ids := List.nodup_nil
  input_runs _ h := absurd h List.not_mem_nil
  recorded _ h := absurd h List.not_mem_nil
  owned_ids := List.nodup_nil
  owned_ledger _ := List.Sublist.refl _
  owned_ordered _ := .nil
  updated _ h := absurd h List.not_mem_nil

/-! ## Methods -/

theorem RuntimeState.recordInboundEvent_runs {event : Event} {status : InboundEventRecordStatus}
    (h : RuntimeState.recordInboundEvent event now state = .ok status state') :
    state'.runs = state.runs := by
  obtain ⟨queued, -, ⟨-, rfl, -⟩ | ⟨-, -, record, -, rfl⟩⟩ := recordInboundEventAt_eq_ok h
  · rfl
  · cases queued <;> rfl

theorem RuntimeState.enqueueOutboundDelivery_runs {delivery : OutboundDeliveryRecord}
    {status : OutboundDeliveryEnqueueStatus}
    (h : RuntimeState.enqueueOutboundDelivery delivery now state = .ok status state') :
    state'.runs = state.runs := by
  obtain ⟨-, -, -, ⟨-, rfl, -⟩ | ⟨-, -, rfl⟩⟩ := enqueueOutboundDelivery_eq_ok h <;> rfl

namespace Method

variable {method : Method} {reply : Reply} {commit : Commit}

/-- The work of a method is a change of the loaded state. What a method saves as a snapshot is a
change that a caller could make to a snapshot, and leaves the runs. -/
theorem change (hstate : state.Valid) (h : method.work now state = .ok (reply, commit) state') :
    RuntimeState.Change state state' ∧
      (commit = .save → RuntimeState.SnapshotChange state state' ∧ state'.runs = state.runs) := by
  cases method with
  | load =>
    simp only [work, estate_bind_eq_ok, estate_get_eq_ok, estate_pure_eq_ok, Prod.mk.injEq] at h
    obtain ⟨_, _, ⟨rfl, rfl⟩, ⟨-, rfl⟩, rfl⟩ := h
    exact ⟨.snapshot .refl, fun h ↦ by cases h⟩
  | persistInboundEvent event =>
    obtain ⟨status, hwork, -⟩ := replying_eq_ok.mp h
    have hrecord := (StateStore.persistInboundEvent_eq_ok hwork).1
    have hchange := RuntimeState.SnapshotChange.of_recordInboundEvent hrecord
    exact ⟨.snapshot hchange, fun _ ↦ ⟨hchange, RuntimeState.recordInboundEvent_runs hrecord⟩⟩
  | pollMessageQueue =>
    obtain ⟨poll, hwork, -⟩ := replying_eq_ok.mp h
    simp only [StateStore.pollMessageQueue, estate_bind_eq_ok, estate_get_eq_ok, estate_pure_eq_ok,
      Prod.mk.injEq] at hwork
    obtain ⟨_, _, ⟨rfl, rfl⟩, ⟨-, rfl⟩, rfl⟩ := hwork
    exact ⟨.snapshot .refl, fun h ↦ by cases h⟩
  | claimMessageBatch =>
    obtain ⟨outcome, hwork, -⟩ := replying_eq_ok.mp h
    obtain ⟨hclaim, ⟨_, _, -, rfl⟩ | ⟨_, -, rfl⟩⟩ := StateStore.claimMessageBatch_eq_ok hwork <;>
      exact ⟨.of_claimMessageBatch hclaim, fun h ↦ by cases h⟩
  | enqueueOutboundDelivery =>
    obtain ⟨status, hwork, -⟩ := replying_eq_ok.mp h
    have henqueue := (StateStore.enqueueOutboundDelivery_eq_ok hwork).1
    have hchange := RuntimeState.SnapshotChange.of_enqueueOutboundDelivery henqueue
    exact ⟨.snapshot hchange,
      fun _ ↦ ⟨hchange, RuntimeState.enqueueOutboundDelivery_runs henqueue⟩⟩
  | claimNextOutboundDeliveryAttempt =>
    obtain ⟨attempt, hwork, -⟩ := replying_eq_ok.mp h
    obtain ⟨claimed, hclaim, hcommit⟩ := StateStore.claimNextOutboundDeliveryAttempt_eq_ok hwork
    refine ⟨.of_claimNextOutboundDeliveryWhere hstate hclaim, ?_⟩
    cases claimed with
    | none => exact fun hsave ↦ by cases hcommit.2.symm.trans hsave
    | some delivery => exact fun hsave ↦ by cases hcommit.1.symm.trans hsave
  | markOutboundDeliveryDelivered =>
    obtain ⟨_, hwork, -⟩ := replying_eq_ok.mp h
    obtain ⟨hmark, rfl⟩ := StateStore.writing_eq_ok hwork
    exact ⟨.of_updateOutboundDelivery hstate
      (fun _ _ h ↦ (OutboundDeliveryRecord.advances_of_markDelivered h).1) hmark, fun h ↦ by cases h⟩
  | markOutboundDeliveryFailed =>
    obtain ⟨_, hwork, -⟩ := replying_eq_ok.mp h
    obtain ⟨hmark, rfl⟩ := StateStore.writing_eq_ok hwork
    exact ⟨.of_updateOutboundDelivery hstate
      (fun _ _ h ↦ (OutboundDeliveryRecord.advances_of_markFailed h).1) hmark, fun h ↦ by cases h⟩
  | markOutboundDeliveryUncertain =>
    obtain ⟨_, hwork, -⟩ := replying_eq_ok.mp h
    obtain ⟨hmark, rfl⟩ := StateStore.writing_eq_ok hwork
    exact ⟨.of_updateOutboundDelivery hstate
      (fun _ _ h ↦ (OutboundDeliveryRecord.advances_of_markUncertain h).1) hmark, fun h ↦ by cases h⟩
  | resolveOutboundDeliveryAsDelivered =>
    obtain ⟨_, hwork, -⟩ := replying_eq_ok.mp h
    rcases StateStore.resolveOutboundDeliveryAsDelivered_eq_ok hwork with
      ⟨hresolve, rfl⟩ | ⟨rfl, rfl, -⟩
    · exact ⟨.of_updateOutboundDelivery hstate (fun _ _ h ↦
        (OutboundDeliveryRecord.advances_of_resolveUncertainAsDelivered h).1) hresolve, fun h ↦ by cases h⟩
    · exact ⟨.snapshot .refl, fun h ↦ by cases h⟩
  | resolveOutboundDeliveryAsFailed =>
    obtain ⟨_, hwork, -⟩ := replying_eq_ok.mp h
    rcases StateStore.resolveOutboundDeliveryAsFailed_eq_ok hwork with
      ⟨hresolve, rfl⟩ | ⟨rfl, rfl, -⟩
    · exact ⟨.of_updateOutboundDelivery hstate (fun _ _ h ↦
        (OutboundDeliveryRecord.advances_of_resolveUncertainAsFailed h).1) hresolve, fun h ↦ by cases h⟩
    · exact ⟨.snapshot .refl, fun h ↦ by cases h⟩
  | reconcileRunsAtStartup =>
    obtain ⟨_, hwork, -⟩ := replying_eq_ok.mp h
    simp only [StateStore.reconcileRunsAtStartup, estate_bind_eq_ok, estate_pure_eq_ok,
      Prod.mk.injEq] at hwork
    obtain ⟨⟨report, changed⟩, _, hreconcile, ⟨-, rfl⟩, rfl⟩ := hwork
    exact ⟨.snapshot (.of_reconcileRunsAtStartup hstate hreconcile), by cases changed <;> intro h <;> cases h⟩
  | reconcileOutboundDeliveriesAtStartup =>
    obtain ⟨_, hwork, -⟩ := replying_eq_ok.mp h
    simp only [StateStore.reconcileOutboundDeliveriesAtStartup, estate_bind_eq_ok,
      estate_pure_eq_ok, Prod.mk.injEq] at hwork
    obtain ⟨⟨report, changed⟩, _, hreconcile, ⟨-, rfl⟩, rfl⟩ := hwork
    exact ⟨.of_reconcileOutboundDeliveriesAtStartup hstate hreconcile, by cases changed <;> intro h <;> cases h⟩
  | startAgentRun =>
    obtain ⟨_, hwork, -⟩ := replying_eq_ok.mp h
    obtain ⟨rfl, -, -, -, -, -, hstart⟩ := StateStore.startAgentRun_eq_ok hwork
    exact ⟨.snapshot (.of_startRun hstate hstart), fun h ↦ by cases h⟩
  | completeAgentRun =>
    obtain ⟨_, hwork, -⟩ := replying_eq_ok.mp h
    obtain ⟨run, expected, -, hexpected, ⟨rfl, hcomplete⟩ | ⟨rfl, rfl, -⟩⟩ :=
      StateStore.completeAgentRun_eq_ok hwork
    · refine ⟨.of_completeRunWithOutputDeliveries (fun delivery hdelivery ↦ ?_) hcomplete, fun h ↦ by cases h⟩
      obtain ⟨_, _, hnew⟩ := StateStore.exists_new_of_outputDeliveries hexpected hdelivery
      obtain ⟨-, -, -, -, hcreated, hupdated, -⟩ := OutboundDeliveryRecord.new_eq_ok hnew
      exact hupdated.trans hcreated.symm
    · exact ⟨.snapshot .refl, fun h ↦ by cases h⟩
  | failAgentRun =>
    obtain ⟨_, hwork, -⟩ := replying_eq_ok.mp h
    rcases StateStore.failAgentRun_eq_ok hwork with ⟨rfl, hfail, -⟩ | ⟨rfl, rfl, -⟩
    · exact ⟨.snapshot (.of_failRun hstate hfail), fun h ↦ by cases h⟩
    · exact ⟨.snapshot .refl, fun h ↦ by cases h⟩
  | interruptAgentRun =>
    obtain ⟨_, hwork, -⟩ := replying_eq_ok.mp h
    rcases StateStore.interruptAgentRun_eq_ok hwork with ⟨rfl, hinterrupt, -⟩ | ⟨rfl, rfl, -⟩
    · exact ⟨.snapshot (.of_interruptRun hstate hinterrupt), fun h ↦ by cases h⟩
    · exact ⟨.snapshot .refl, fun h ↦ by cases h⟩

end Method

/-! ## The visible state -/

/-- What the file shows is valid. -/
def Disk.Valid (disk : Disk) : Prop := ∀ state ∈ disk.visible, state.Valid

/-- A visible state does not disappear, and it evolves. -/
def Disk.Evolves (before after : Disk) : Prop :=
  ∀ state ∈ before.visible, ∃ state' ∈ after.visible, state.Evolves state'

theorem Disk.Evolves.refl (disk : Disk) : disk.Evolves disk :=
  fun state hstate ↦ ⟨state, hstate, .refl state⟩

theorem Disk.Evolves.trans (first second third : Disk) (h : first.Evolves second)
    (h' : second.Evolves third) : first.Evolves third := by
  intro state hstate
  obtain ⟨state', hstate', hevolves⟩ := h state hstate
  obtain ⟨state'', hstate'', hevolves'⟩ := h' state' hstate'
  exact ⟨state'', hstate'', hevolves.trans hevolves'⟩

section Calls

variable {io : Io} {disk : Disk} {request : Request} {method : Method} {reply : Reply}
  {commit : Commit}

theorem Disk.Valid.loaded (h : disk.Valid) (io : Io) : (io.loaded disk.visible).Valid := by
  cases hvisible : disk.visible with
  | none => exact RuntimeState.valid_new _
  | some state => exact h state hvisible

/-- A method that saves what it has computed merges it into the state that it has loaded, and the
merge gives it back. -/
theorem Method.merge_eq (method : Method) (io : Io) (reply : Reply) (hdisk : disk.Valid)
    (h : method.work io.now (io.loaded disk.visible) = .ok (reply, .save) state) :
    state.mergeSnapshot disk.visible = .ok state := by
  have hloaded := hdisk.loaded io
  obtain ⟨hchange, hruns⟩ := (Method.change hloaded h).2 rfl
  have hcontinues := (RuntimeState.Continues.refl _).step hloaded hchange
  have hstate := hchange.valid hloaded
  cases hvisible : disk.visible with
  | none =>
    rw [hvisible] at hcontinues hruns
    obtain ⟨added, hdeliveries, hpending⟩ := hcontinues.deliveries
    refine RuntimeState.mergeSnapshot_none_eq_ok.mpr ⟨⟨fun delivery hdelivery ↦ ?_,
      hcontinues.inputs, fun run hrun ↦ ?_⟩, rfl⟩
    · rw [hdeliveries] at hdelivery
      exact hpending delivery hdelivery
    · rw [hruns] at hrun
      cases hrun
  | some existing =>
    rw [hvisible] at hcontinues hruns hloaded
    refine (RuntimeState.mergeSnapshot_eq_ok hloaded hstate).mpr
      ⟨hcontinues.mergeable hloaded hstate (forM_eq_ok_iff.mpr fun run hrun ↦ ?_),
        hcontinues.merged_eq hloaded hstate⟩
    rw [hruns] at hrun
    refine (RuntimeState.validateSnapshotAgentRunTransition_eq_ok hloaded).mpr
      fun existingRun hexistingRun _ ↦ .inl ?_
    rw [RuntimeState.run, find_key_of_mem hloaded.run_ids hrun] at hexistingRun
    exact Option.some.inj hexistingRun

/-- The state that a method writes is the one that its work has computed. -/
theorem Computes.work_eq_ok (hdisk : disk.Valid)
    (h : Computes io disk.visible (.method method) reply state) :
    ∃ commit, (commit = .write ∨ commit = .save) ∧
      method.work io.now (io.loaded disk.visible) = .ok (reply, commit) state := by
  cases h with
  | write hwork => exact ⟨.write, .inl rfl, hwork⟩
  | merge hwork hmerge =>
    obtain rfl := Except.ok.inj ((Method.merge_eq _ _ _ hdisk hwork).symm.trans hmerge)
    exact ⟨.save, .inr rfl, hwork⟩

/-- What a call writes evolves from the visible state. -/
theorem Computes.evolves (hdisk : disk.Valid) (h : Computes io disk.visible request reply state) :
    ∀ existing ∈ disk.visible, existing.Evolves state := by
  intro existing hexisting
  have hexistingValid := hdisk existing hexisting
  rw [Option.mem_def] at hexisting
  cases request with
  | save snapshot valid =>
    obtain - | - | ⟨-, hmerge⟩ := h
    have hsnapshot := RuntimeState.validate_eq_ok.mp valid
    rw [hexisting, RuntimeState.mergeSnapshot_eq_ok hexistingValid hsnapshot] at hmerge
    obtain ⟨hmergeable, rfl⟩ := hmerge
    exact hmergeable.evolves hexistingValid hsnapshot
  | method method =>
    obtain ⟨commit, -, hwork⟩ := h.work_eq_ok hdisk
    rw [hexisting] at hwork
    exact (Method.change hexistingValid hwork).1.evolves hexistingValid

/-- A call keeps the visible state valid and lets it evolve. -/
theorem Effect.evolves {result : EStateM.Result String Disk Reply} (hdisk : disk.Valid)
    (h : Effect io disk request result) :
    (finalState result).Valid ∧ disk.Evolves (finalState result) := by
  have hwrites : ∀ reply state durable, Computes io disk.visible request reply state →
      state.Valid → (Disk.mk (some state) durable).Valid ∧
        disk.Evolves (Disk.mk (some state) durable) := by
    intro reply state durable hcomputes hvalid
    refine ⟨fun _ h ↦ Option.some.inj h ▸ hvalid, fun existing hexisting ↦ ⟨state, rfl, ?_⟩⟩
    exact hcomputes.evolves hdisk existing hexisting
  cases h with
  | refused => exact ⟨hdisk, .refl disk⟩
  | answered => exact ⟨hdisk, .refl disk⟩
  | confirmed => exact ⟨hdisk, .refl disk⟩
  | written hcomputes hvalid => exact hwrites _ _ _ hcomputes hvalid
  | unconfirmed _ hcomputes hvalid => exact hwrites _ _ _ hcomputes hvalid

/-- What the file holds after the work of a method has succeeded. -/
def Commit.result (commit : Commit) (state : RuntimeState) (disk : Disk) : Disk :=
  match commit with
  | .nothing => disk
  | .confirm => { disk with durable := disk.visible }
  | .write | .save => ⟨some state, some state⟩

/-- A method that returns a reply has done its work and committed it. -/
theorem StateStore.method_eq_ok (self : StateStore) {disk' : Disk} (hdisk : disk.Valid)
    (h : self.call io (.method method) disk = .ok reply disk') :
    ∃ commit state, method.work io.now (io.loaded disk.visible) = .ok (reply, commit) state ∧
      disk' = commit.result state disk := by
  have heffect := self.call_effect io (.method method) disk
  rw [h] at heffect
  cases heffect with
  | answered hrequest hwork =>
    obtain rfl := Request.method.inj hrequest
    exact ⟨.nothing, _, hwork, rfl⟩
  | confirmed hrequest hwork =>
    obtain rfl := Request.method.inj hrequest
    exact ⟨.confirm, _, hwork, rfl⟩
  | written hcomputes hvalid =>
    obtain ⟨commit, hcommit, hwork⟩ := hcomputes.work_eq_ok hdisk
    refine ⟨commit, _, hwork, ?_⟩
    rcases hcommit with rfl | rfl <;> rfl

end Calls

/-! ## Histories -/

/-- A call, with the answers of the file system and the clock. -/
structure Call where
  request : Request
  io : Io

/-- A call of a history, with the file before and after it. -/
abbrev CallEntry := Entry Disk Call (Except String Reply)

/-- One call on the file: its result and the file after it. -/
def StateStore.step (self : StateStore) (call : Call) (disk : Disk) : Except String Reply × Disk :=
  (outcome (self.call call.io call.request disk), finalState (self.call call.io call.request disk))

/-- The calls on a file that starts absent, with their results. -/
def StateStore.history (self : StateStore) (calls : List Call) : List CallEntry :=
  trace self.step .absent calls

/-- The file after a history. -/
def StateStore.after (self : StateStore) (calls : List Call) : Disk :=
  finalOf self.step .absent calls

theorem Disk.valid_absent : Disk.absent.Valid := nofun

/-- The states that the file has shown after the calls of a history. -/
def visibleStates (entries : List CallEntry) : List RuntimeState :=
  entries.filterMap (·.after.visible)

variable {self : StateStore} {calls : List Call}

theorem StateStore.step_evolves (call : Call) {disk : Disk} (hdisk : disk.Valid) :
    (self.step call disk).2.Valid ∧ disk.Evolves (self.step call disk).2 :=
  (self.call_effect call.io call.request disk).evolves hdisk

/-- The visible state is valid throughout a history. -/
theorem StateStore.history_valid :
    (∀ e ∈ self.history calls, e.before.Valid ∧ e.after.Valid) ∧ (self.after calls).Valid :=
  trace_invariant Disk.Valid (fun _ ↦ True) Disk.valid_absent
    (fun _ call hdisk _ ↦ (step_evolves call hdisk).1) fun _ _ ↦ trivial

/-- A call lets the visible state evolve. -/
theorem StateStore.history_step {e : CallEntry} (he : e ∈ self.history calls) :
    e.before.Evolves e.after := by
  rw [congrArg Entry.after (eq_stepEntry_of_mem he)]
  exact (step_evolves e.input (history_valid.1 e he).1).2

theorem Effect.visible {io : Io} {disk : Disk} {request : Request}
    {result : EStateM.Result String Disk Reply} (h : Effect io disk request result) :
    (finalState result).visible = disk.visible ∨ ∃ reply state,
      Computes io disk.visible request reply state ∧ state.Valid ∧
        (finalState result).visible = some state := by
  cases h with
  | refused => exact .inl rfl
  | answered => exact .inl rfl
  | confirmed => exact .inl rfl
  | written hcomputes hvalid => exact .inr ⟨_, _, hcomputes, hvalid, rfl⟩
  | unconfirmed _ hcomputes hvalid => exact .inr ⟨_, _, hcomputes, hvalid, rfl⟩

/-- A call leaves the visible state, or replaces it by what it has computed. -/
theorem StateStore.history_visible {e : CallEntry} (he : e ∈ self.history calls) :
    e.after.visible = e.before.visible ∨ ∃ reply state,
      Computes e.input.io e.before.visible e.input.request reply state ∧ state.Valid ∧
        e.after.visible = some state := by
  rw [congrArg Entry.after (eq_stepEntry_of_mem he)]
  exact (self.call_effect e.input.io e.input.request e.before).visible

/-- A method of a history that has returned a reply has done its work and committed it. -/
theorem StateStore.history_method_eq_ok {e : CallEntry} (he : e ∈ self.history calls)
    {method : Method} {reply : Reply} (hrequest : e.input.request = .method method)
    (houtput : e.output = .ok reply) :
    ∃ commit state, method.work e.input.io.now (e.input.io.loaded e.before.visible) =
      .ok (reply, commit) state ∧ e.after = commit.result state e.before := by
  have hstep := eq_stepEntry_of_mem he
  have hafter := congrArg Entry.after hstep
  refine hafter ▸ self.method_eq_ok (history_valid.1 e he).1 ?_
  have hresult := (congrArg Entry.output hstep).symm.trans houtput
  rw [← hrequest]
  exact outcome_eq_ok.mp hresult

/-- The visible state evolves throughout a history. -/
theorem StateStore.history_pairwise :
    (self.history calls).Pairwise fun e later ↦ e.after.Evolves later.before :=
  trace_pairwise Disk.Valid Disk.Evolves (fun _ ↦ True) Disk.valid_absent Disk.Evolves.refl
    Disk.Evolves.trans (fun _ call hdisk _ ↦ step_evolves call hdisk) fun _ _ ↦ trivial

theorem StateStore.history_evolves {e : CallEntry} (he : e ∈ self.history calls) :
    e.after.Evolves (self.after calls) :=
  ((trace_extends Disk.Valid Disk.Evolves (fun _ ↦ True) Disk.valid_absent Disk.Evolves.refl
    Disk.Evolves.trans (fun _ call hdisk _ ↦ step_evolves call hdisk) fun _ _ ↦ trivial).2 e he).2

/-- The visible state evolves with more calls. -/
theorem StateStore.after_evolves (self : StateStore) (calls later : List Call) :
    (self.after calls).Evolves (self.after (calls ++ later)) := by
  rw [StateStore.after, StateStore.after, finalOf_append]
  exact (trace_extends Disk.Valid Disk.Evolves (fun _ ↦ True) history_valid.2 Disk.Evolves.refl
    Disk.Evolves.trans (fun _ call hdisk _ ↦ step_evolves call hdisk) fun _ _ ↦ trivial).1

theorem StateStore.after_concat {call : Call} :
    self.after (calls ++ [call]) = (self.step call (self.after calls)).2 := finalOf_append

/-- The state that the file shows after a history is one of those that it has shown. -/
theorem StateStore.mem_visibleStates {state : RuntimeState}
    (h : (self.after calls).visible = some state) : state ∈ visibleStates (self.history calls) := by
  have hne : calls ≠ [] := by
    rintro rfl
    cases h
  obtain ⟨e, he, hafter⟩ := exists_after_eq_finalOf self.step .absent hne
  exact List.mem_filterMap.mpr ⟨e, he, (congrArg Disk.visible hafter).trans h⟩

/-- Every state that the file has shown evolves to the one that it shows in the end. -/
theorem StateStore.visibleStates_evolve {state earlier : RuntimeState}
    (h : (self.after calls).visible = some state)
    (hearlier : earlier ∈ visibleStates (self.history calls)) : earlier.Evolves state := by
  obtain ⟨e, he, hvisible⟩ := List.mem_filterMap.mp hearlier
  obtain ⟨state', hstate', hevolves⟩ := StateStore.history_evolves he earlier hvisible
  obtain rfl := Option.some.inj (h.symm.trans hstate')
  exact hevolves

end FerrisBridge
