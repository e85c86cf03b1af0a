import FerrisBridge.Bridge.Adapter
import FerrisBridge.Store.Durability

/-!
# The runtime orchestrator

The intake of inbound deliveries: an event is recorded before the adapter is handed the
acknowledgement. Between the calls the machine may crash, which leaves the durable content of the
state file. A duplicate is answered from the visible content without a check that it is durable, so
that an acknowledgement can be given for an event that a crash then loses; apart from that,
whatever has been acknowledged survives.
-/

open Foundations

namespace FerrisBridge

structure RuntimeOrchestrator where
  stateStore : StateStore
  deriving DecidableEq, Repr

/-- What an intake works on: the state file, and the acknowledgements that the adapter was handed. -/
structure Intake where
  disk : Disk
  acknowledgements : List InboundDeliveryAcknowledgement
  deriving DecidableEq, Repr

/-- Hands an acknowledgement to the adapter, which is given by its answer. -/
def acknowledgeInboundDelivery (answer : InboundDeliveryAcknowledgement → Except String Unit)
    (acknowledgement : InboundDeliveryAcknowledgement) : EStateM String Intake Unit := do
  modify fun intake ↦
    { intake with acknowledgements := intake.acknowledgements ++ [acknowledgement] }
  question (answer acknowledgement)

theorem acknowledgeInboundDelivery_disk {answer : InboundDeliveryAcknowledgement → Except String Unit}
    {acknowledgement : InboundDeliveryAcknowledgement} {intake : Intake} :
    (finalState (acknowledgeInboundDelivery answer acknowledgement intake)).disk = intake.disk := by
  unfold acknowledgeInboundDelivery
  cases hanswer : answer acknowledgement with
  | ok u =>
    rw [estate_ok_bind (a := ()) (estate_modify_eq_ok.mpr rfl), question]
    rfl
  | error err =>
    rw [estate_ok_bind (a := ()) (estate_modify_eq_ok.mpr rfl), question]
    rfl

namespace RuntimeOrchestrator

def acceptInboundDelivery (self : RuntimeOrchestrator) (io : Io)
    (answer : InboundDeliveryAcknowledgement → Except String Unit)
    (delivery : InboundDelivery) : EStateM RuntimeError Intake InboundDeliveryOutcome := do
  let eventId := delivery.event.id
  let recordStatus ← mapErr
    (fun err ↦ .recoverable
      s!"failed to persist inbound event {eventId} before acknowledgement: {err}")
    (zoom Intake.disk (fun intake disk ↦ { intake with disk })
      (self.stateStore.transact io (StateStore.persistInboundEvent delivery.event)))
  let acknowledgement : InboundDeliveryAcknowledgement :=
    { eventId, ackToken := delivery.ackToken, recordStatus }
  mapErr
    (fun err ↦ .recoverable
      s!"failed to acknowledge inbound event {eventId} after persistence: {err}")
    (acknowledgeInboundDelivery answer acknowledgement)
  return { eventId, recordStatus }

/-- An intake does to the file what `persist_inbound_event` does, and the adapter is handed an
acknowledgement exactly when that call has succeeded. -/
theorem acceptInboundDelivery_cases (self : RuntimeOrchestrator) (io : Io)
    (answer : InboundDeliveryAcknowledgement → Except String Unit) (delivery : InboundDelivery)
    (intake : Intake) :
    let result := self.acceptInboundDelivery io answer delivery intake
    let called := self.stateStore.call io (.method (.persistInboundEvent delivery.event)) intake.disk
    (finalState result).disk = finalState called ∧
      ((finalState result).acknowledgements = intake.acknowledgements ∨
        ∃ status, called = .ok (.persisted status) (finalState called)) := by
  intro result called
  have hcalled : called = (do
      let status ← self.stateStore.transact io (StateStore.persistInboundEvent delivery.event)
      return .persisted status : EStateM String Disk Reply) intake.disk :=
    self.stateStore.transact_replying io intake.disk .persisted _
  cases htransact : self.stateStore.transact io (StateStore.persistInboundEvent delivery.event)
      intake.disk with
  | error err disk =>
    replace hcalled : called = .error err disk := hcalled.trans (estate_error_bind htransact)
    have hresult : result = .error _ { intake with disk } :=
      estate_error_bind (mapErr_of_error (zoom_of_error htransact))
    rw [hresult, hcalled]
    exact ⟨rfl, .inl rfl⟩
  | ok status disk =>
    replace hcalled : called = .ok (.persisted status) disk :=
      hcalled.trans ((estate_ok_bind htransact).trans rfl)
    refine ⟨?_, .inr ⟨status, by rw [hcalled]; rfl⟩⟩
    rw [hcalled]
    change (finalState ((mapErr _ (zoom _ _ _) >>= _) intake)).disk = disk
    rw [estate_ok_bind (mapErr_eq_ok.mpr (zoom_eq_ok.mpr ⟨disk, htransact, rfl⟩))]
    refine (congrArg Intake.disk finalState_bind_pure).trans ?_
    rw [finalState_mapErr, acknowledgeInboundDelivery_disk]

end RuntimeOrchestrator

/-! ## Histories with crashes -/

/-- What can happen to the file: a call of the store, an intake, or a crash. -/
inductive Action
  | call (call : Call)
  | accept (io : Io) (answer : InboundDeliveryAcknowledgement → Except String Unit)
    (delivery : InboundDelivery)
  | crash

inductive Outcome
  | called (result : Except String Reply)
  | accepted (result : Except RuntimeError InboundDeliveryOutcome)
  | crashed

namespace RuntimeOrchestrator

def step (self : RuntimeOrchestrator) (action : Action) (intake : Intake) : Outcome × Intake :=
  match action with
  | .call call =>
    let (result, disk) := self.stateStore.step call intake.disk
    (.called result, { intake with disk })
  | .accept io answer delivery =>
    let result := self.acceptInboundDelivery io answer delivery intake
    (.accepted (outcome result), finalState result)
  | .crash => (.crashed, { intake with disk := intake.disk.crash })

/-- The actions on a file that starts absent, with their outcomes. -/
def history (self : RuntimeOrchestrator) (actions : List Action) :
    List (Entry Intake Action Outcome) :=
  trace self.step ⟨.absent, []⟩ actions

end RuntimeOrchestrator

/-- What an action asks the store to keep. -/
def Action.submission : Action → Option Submission
  | .call ⟨.method method, _⟩ => method.submission
  | .accept _ _ delivery => some (.event delivery.event)
  | _ => none

/-- What an action has acknowledged: a submission that a call has returned successfully, or the event
of a delivery for which the adapter was handed an acknowledgement. -/
def acknowledged (e : Entry Intake Action Outcome) : Option Submission :=
  match e.output with
  | .called (.ok _) => e.input.submission
  | .accepted _ =>
    if e.after.acknowledgements = e.before.acknowledgements then none else e.input.submission
  | _ => none

namespace RuntimeOrchestrator

variable {self : RuntimeOrchestrator} {action : Action} {intake : Intake} {actions : List Action}
  {e : Entry Intake Action Outcome} {submission : Submission}

/-- An action does to the file what a call of the store does, or it is a crash. -/
theorem step_disk (self : RuntimeOrchestrator) (action : Action) (intake : Intake) :
    (self.step action intake).2.disk = intake.disk.crash ∨
      ∃ call, (self.step action intake).2.disk = (self.stateStore.step call intake.disk).2 := by
  cases action with
  | call call => exact .inr ⟨call, rfl⟩
  | accept io answer delivery =>
    exact .inr ⟨⟨.method (.persistInboundEvent delivery.event), io⟩,
      (self.acceptInboundDelivery_cases io _ delivery intake).1⟩
  | crash => exact .inl rfl

/-- An action keeps the file recoverable and what is durable. -/
theorem step_recoverable (h : intake.disk.Recoverable) :
    (self.step action intake).2.disk.Recoverable ∧
      intake.disk.Persists (self.step action intake).2.disk := by
  rcases self.step_disk action intake with hdisk | ⟨call, hdisk⟩
  · rw [hdisk]
    exact h.crash
  · rw [hdisk]
    exact (self.stateStore.call_effect call.io call.request intake.disk).recoverable h

theorem recoverable_absent : Disk.absent.Recoverable := ⟨nofun, nofun, nofun⟩

/-- What an action acknowledges has been submitted by a call of the store that has succeeded. -/
theorem acknowledged_spec (he : e ∈ self.history actions) (h : acknowledged e = some submission) :
    e.input.submission = some submission ∧ ∃ io method reply, method.submission = some submission ∧
      self.stateStore.call io (.method method) e.before.disk = .ok reply e.after.disk := by
  obtain ⟨before, action, rfl⟩ := exists_eq_stepEntry he
  cases action with
  | call call =>
    obtain ⟨request, io⟩ := call
    cases hresult : self.stateStore.call io request before.disk with
    | error err disk =>
      simp only [acknowledged, stepEntry, step, StateStore.step, hresult, outcome] at h
      cases h
    | ok reply disk =>
      simp only [acknowledged, stepEntry, step, StateStore.step, hresult, outcome] at h
      cases request with
      | save => cases h
      | method method =>
        refine ⟨h, io, method, reply, h, ?_⟩
        simp only [stepEntry, step, StateStore.step, hresult, finalState]
  | accept io answer delivery =>
    simp only [acknowledged, stepEntry, step] at h
    obtain ⟨hdisk, hsame | ⟨status, hcalled⟩⟩ := self.acceptInboundDelivery_cases
      io answer delivery before
    · simp only [hsame, if_true] at h
      cases h
    · replace h := (Option.ite_none_left_eq_some.mp h).2
      refine ⟨h, io, .persistInboundEvent delivery.event, .persisted status, h, ?_⟩
      simp only [stepEntry, step, hdisk]
      exact hcalled
  | crash => cases h

/-- Whatever has been acknowledged survives all crashes, in every history in which each submission
that is a duplicate in the visible state is in the durable state as well. -/
theorem acknowledged_survives (self : RuntimeOrchestrator) (actions : List Action)
    (hdurable : ∀ e ∈ self.history actions, ∀ submission ∈ e.input.submission,
      e.before.disk.RepeatsDurable submission) :
    (∀ e ∈ self.history actions, ∀ submission ∈ acknowledged e,
      ∃ state ∈ e.after.disk.visible, state.Holds submission) ∧
    (self.history actions).Pairwise fun e later ↦ ∀ submission ∈ acknowledged e,
      ∃ state ∈ later.after.disk.visible, state.Holds submission := by
  have hinit : (Intake.mk .absent []).disk.Recoverable := recoverable_absent
  have hrecoverable : ∀ e ∈ self.history actions,
      e.before.disk.Recoverable ∧ e.after.disk.Recoverable :=
    (trace_invariant (fun intake : Intake ↦ intake.disk.Recoverable) (fun _ ↦ True) hinit
      (fun _ _ h _ ↦ (step_recoverable h).1) fun _ _ ↦ trivial).1
  have hkept : ∀ e ∈ self.history actions, ∀ submission ∈ acknowledged e,
      ∃ state ∈ e.after.disk.durable, state.Holds submission := by
    intro e he submission hacknowledged
    obtain ⟨hsubmission, io, method, reply, hmethod, hcall⟩ := acknowledged_spec he hacknowledged
    exact StateStore.submission_durable (hrecoverable e he).1.valid hmethod
      (hdurable e he submission hsubmission) hcall
  refine ⟨fun e he submission hacknowledged ↦ ?_, ?_⟩
  · obtain ⟨state, hstate, hholds⟩ := hkept e he submission hacknowledged
    obtain ⟨state', hstate', hevolves⟩ := (hrecoverable e he).2.behind state hstate
    exact ⟨state', hstate', hholds.evolves hevolves⟩
  · have hpersists : (self.history actions).Pairwise fun e later ↦
        e.after.disk.Persists later.before.disk := trace_pairwise
      (fun intake : Intake ↦ intake.disk.Recoverable)
      (fun intake intake' ↦ intake.disk.Persists intake'.disk) (fun _ ↦ True) hinit
      (fun intake ↦ .refl intake.disk) (fun _ _ _ ↦ .trans _ _ _)
      (fun _ _ h _ ↦ step_recoverable h) fun _ _ ↦ trivial
    refine hpersists.imp_of_mem fun {e later} he hlater hpersists submission hacknowledged ↦ ?_
    obtain ⟨state, hstate, hholds⟩ := hkept e he submission hacknowledged
    have hstep : later.before.disk.Persists later.after.disk := by
      rw [congrArg Entry.after (eq_stepEntry_of_mem hlater)]
      exact (step_recoverable (hrecoverable later hlater).1).2
    obtain ⟨state', hstate', hevolves⟩ := Disk.Persists.trans _ _ _ hpersists hstep state hstate
    obtain ⟨state'', hstate'', hevolves'⟩ := (hrecoverable later hlater).2.behind state' hstate'
    exact ⟨state'', hstate'', hholds.evolves (hevolves.trans hevolves')⟩

/-- An event that no session is needed for. -/
def notice : Event := ⟨⟨"event", by decide⟩, .platform, .runtimeNotice "notice", 0⟩

/-- The delivery of the event. -/
def noticeDelivery : InboundDelivery := ⟨notice, ⟨"token", by decide⟩⟩

theorem acknowledged_survives_crash :
    ∃ state ∈ (finalOf (step ⟨⟨"state.json"⟩⟩) ⟨.absent, []⟩
      [.accept .untroubled (fun _ ↦ .ok ()) noticeDelivery, .crash]).disk.visible,
      state.Holds (.event notice) := by
  have hsurvives := acknowledged_survives ⟨⟨"state.json"⟩⟩
    [.accept .untroubled (fun _ ↦ .ok ()) noticeDelivery, .crash] <| by
      refine List.forall_mem_cons.mpr ⟨fun submission _ hrepeats ↦ ?_,
        List.forall_mem_cons.mpr ⟨fun submission hsubmission ↦ ?_,
          fun _ h ↦ absurd h List.not_mem_nil⟩⟩
      · obtain ⟨_, hstate, -⟩ := hrepeats
        cases hstate
      · cases hsubmission
  exact (List.pairwise_cons.mp hsurvives.2).1 _ (List.mem_singleton_self _) (.event notice) rfl

/-- A failed sync of the directory, the redelivery of the event and a crash lose an event for which
the adapter was handed an acknowledgement: the duplicate is not made durable. -/
theorem acknowledged_lost :
    ¬∀ (self : RuntimeOrchestrator) (actions : List Action),
      (∀ e ∈ self.history actions, ∀ submission ∈ acknowledged e,
        ∃ state ∈ e.after.disk.visible, state.Holds submission) ∧
      (self.history actions).Pairwise fun e later ↦ ∀ submission ∈ acknowledged e,
        ∃ state ∈ later.after.disk.visible, state.Holds submission := by
  intro h
  obtain ⟨-, hsurvives⟩ := h ⟨⟨"state.json"⟩⟩
    [.call ⟨.method (.persistInboundEvent notice),
        { Io.untroubled with write := .failedAfterReplace "failed to sync the directory" }⟩,
      .accept .untroubled (fun _ ↦ .ok ()) noticeDelivery, .crash]
  have hredelivered := (List.pairwise_cons.mp hsurvives).2
  obtain ⟨_, hstate, -⟩ :=
    (List.pairwise_cons.mp hredelivered).1 _ (List.mem_singleton_self _) (.event notice) rfl
  cases hstate

end RuntimeOrchestrator

end FerrisBridge
