import FerrisBridge.State.Validate

/-!
# Changes of the runtime state

`Change` lists once what a successful operation can do to a valid state, with the guards that the
operation has checked. Every operation is then shown to make such a change, so that an invariant of
the state needs one case per kind of change and not one per operation. The changes that a caller can
make to a snapshot of its own are a type of their own, `SnapshotChange`.
-/

open Foundations

namespace FerrisBridge

/-- A run stays, or makes a transition that keeps its outputs. -/
def RunRecord.Steps (before after : RunRecord) : Prop :=
  after = before ∨
    (∃ time, before.Advances time after) ∧ after.outputDeliveryIds = before.outputDeliveryIds

theorem RunRecord.Steps.evolves {before after : RunRecord} (h : before.Steps after) :
    before.Evolves after := by
  rcases h with rfl | ⟨⟨_, h⟩, -⟩
  · exact .inl rfl
  · exact .inr h.descends

/-- A delivery stays or makes a transition. -/
def OutboundDeliveryRecord.Steps (before after : OutboundDeliveryRecord) : Prop :=
  after = before ∨ before.Advances after

namespace RuntimeState

/-- What a successful operation on a snapshot does to a valid state. -/
inductive SnapshotChange (state : RuntimeState) : RuntimeState → Prop
  | refl : SnapshotChange state state
  | upsertSession {session : Session} (now : U64) (hsession : session.Valid) :
    SnapshotChange state (state.upsertSession session now)
  | addRun {run : RunRecord} {time : U64} (hrun : run.Valid) (houtputs : run.outputDeliveryIds = [])
    (hsession : run.sessionId ∈ state.sessions.map (·.id)) (hid : run.id ∉ state.runs.map (·.id))
    (hactive : ∀ other ∈ state.runs, NotBothActive other run) (htime : run.updatedAtUnix ≤ time) :
    SnapshotChange state (touchAt time { state with runs := state.runs ++ [run] })
  | stepRuns {runs : List RunRecord} {updatedAtUnix : U64}
    (hsteps : List.Forall₂ RunRecord.Steps state.runs runs)
    (hle : state.updatedAtUnix ≤ updatedAtUnix)
    (hbound : ∀ run ∈ runs, run.updatedAtUnix ≤ updatedAtUnix) :
    SnapshotChange state { state with runs, updatedAtUnix }
  | recordEvent {event : Event} {time : U64} {queued : Option QueuedMessage}
    {record : InboundEventRecord} (hqueued : state.queuedMessageForEvent event time = .ok queued)
    (hnew : state.inboundEvent event.id = none)
    (hrecord : InboundEventRecord.fromEvent event time = .ok record) :
    SnapshotChange state (pushInboundEvent record queued state)
  | enqueue {delivery : OutboundDeliveryRecord} {time : U64} (hdelivery : delivery.Valid)
    (hpending : delivery.status = .pending)
    (hsession : delivery.sessionId ∈ state.sessions.map (·.id))
    (hid : delivery.id ∉ state.outboundDeliveries.map (·.id))
    (htime : delivery.updatedAtUnix ≤ time) :
    SnapshotChange state (touchAt time { state with
      outboundDeliveries := state.outboundDeliveries ++ [delivery] })

/-- What a successful operation does to a valid state. -/
inductive Change (state : RuntimeState) : RuntimeState → Prop
  | snapshot {state' : RuntimeState} (h : SnapshotChange state state') : Change state state'
  | claim {run : RunRecord} {input : RunInputRecord} {time : U64} (hrun : run.Valid)
    (hpending : run.status = .pending)
    (hsession : run.sessionId ∈ state.sessions.map (·.id)) (hid : run.id ∉ state.runs.map (·.id))
    (hactive : ∀ other ∈ state.runs, NotBothActive other run) (hinput : input.Valid)
    (hinputId : input.runId = run.id) (hinputSession : input.sessionId = run.sessionId)
    (hclaimed : input.claimedAtUnix = run.createdAtUnix)
    (hmessages : input.messages <+: state.queuedMessages.filter (·.sessionId = input.sessionId))
    (hrunTime : run.updatedAtUnix ≤ time) (hinputTime : input.claimedAtUnix ≤ time) :
    Change state (touchAt time { state with
      runs := state.runs ++ [run]
      queuedMessages := state.queuedMessages.filter
        (·.eventId ∉ input.messages.map (·.eventId))
      runInputs := state.runInputs ++ [input] })
  | stepDeliveries {outboundDeliveries : List OutboundDeliveryRecord} {updatedAtUnix : U64}
    (hsteps :
      List.Forall₂ OutboundDeliveryRecord.Steps state.outboundDeliveries outboundDeliveries)
    (hle : state.updatedAtUnix ≤ updatedAtUnix)
    (hbound : ∀ delivery ∈ outboundDeliveries, delivery.updatedAtUnix ≤ updatedAtUnix) :
    Change state { state with outboundDeliveries, updatedAtUnix }
  | complete {before after : List RunRecord} {run run' : RunRecord}
    {deliveries : List OutboundDeliveryRecord} {finishedAtUnix time : U64}
    (hruns : state.runs = before ++ run :: after) (hadvances : run.Advances finishedAtUnix run')
    (hcompleted : run'.status = .completed) (hfinished : run'.finishedAtUnix = some finishedAtUnix)
    (houtputs : run'.outputDeliveryIds = deliveries.map (·.id))
    (hdeliveries : ∀ delivery ∈ deliveries, delivery.Valid ∧ delivery.status = .pending ∧
      delivery.sessionId = run.sessionId ∧ delivery.message.author = .agent ∧
      delivery.createdAtUnix = finishedAtUnix ∧ delivery.updatedAtUnix ≤ time)
    (hids : (deliveries.map (·.id)).Nodup)
    (hnew : ∀ delivery ∈ deliveries, delivery.id ∉ state.outboundDeliveries.map (·.id))
    (htime : finishedAtUnix ≤ time) :
    Change state (touchAt time { state with
      runs := before ++ run' :: after
      outboundDeliveries := state.outboundDeliveries ++ deliveries })

variable {state state' : RuntimeState} {now : U64}

/-! ## Operations on runs -/

theorem runMut_eq_ok {α : Type} {id : RunId} {update : EStateM String RunRecord α} {a : α}
    (h : runMut id update state = .ok a state') :
    ∃ before run run' after, state.runs = before ++ run :: after ∧
      state' = { state with runs := before ++ run' :: after } ∧ state.run id = some run ∧
      update run = .ok a run' := by
  obtain ⟨runs, hupdate, rfl⟩ := zoom_eq_ok.mp h
  obtain ⟨before, run, run', after, hruns, rfl, hbefore, hrun, hupdate⟩ := updateFirst_eq_ok hupdate
  refine ⟨before, run, run', after, hruns, rfl, ?_, hupdate⟩
  rw [RuntimeState.run, hruns]
  exact find?_split hbefore hrun

/-- Changing one run that keeps its outputs. -/
theorem SnapshotChange.stepRun {before after : List RunRecord} {run run' : RunRecord} {time later : U64}
    (hstate : state.Valid) (hruns : state.runs = before ++ run :: after)
    (hadvances : run.Advances time run')
    (houtputs : run'.outputDeliveryIds = run.outputDeliveryIds) (hlater : time ≤ later) :
    SnapshotChange state (touchAt later { state with runs := before ++ run' :: after }) := by
  have hbound := (mem_recordTimes_iff.mp hstate.updated).2.1
  refine .stepRuns ?_ (le_max_left _ _) fun other hother ↦ ?_
  · rw [hruns]
    exact forall₂_replace (fun _ ↦ .inl rfl) (.inr ⟨⟨time, hadvances⟩, houtputs⟩)
  · rw [hruns] at hbound
    rcases List.mem_append.mp hother with hmem | hmem
    · exact (hbound other (List.mem_append_left _ hmem)).trans (le_max_left _ _)
    rcases List.mem_cons.mp hmem with rfl | hmem
    · rw [hadvances.updated_eq]
      exact max_le_max (hbound run (by simp)) hlater
    · exact (hbound other (by simp [hmem])).trans (le_max_left _ _)

/-- A run operation of the source: a transition of one run, then the aggregate timestamp. -/
theorem SnapshotChange.of_runTransition {id : RunId} {update : EStateM String RunRecord Unit}
    {time : U64} {u : Unit} (hstate : state.Valid)
    (hupdate : ∀ run run', run.Valid → update run = .ok () run' →
      run.Advances time run' ∧ run'.outputDeliveryIds = run.outputDeliveryIds)
    (h : (do runMut id update; modify (touchAt (max time now)) :
      EStateM String RuntimeState Unit) state = .ok u state') : SnapshotChange state state' := by
  simp only [estate_bind_unit_eq_ok, estate_modify_eq_ok] at h
  obtain ⟨_, hrun, rfl⟩ := h
  obtain ⟨before, run, run', after, hruns, rfl, -, hrun⟩ := runMut_eq_ok hrun
  have hvalid : run.Valid := hstate.runs run (by simp [hruns])
  obtain ⟨hadvances, houtputs⟩ := hupdate run run' hvalid hrun
  exact .stepRun hstate hruns hadvances houtputs (le_max_left _ _)

variable {id : RunId} {time : U64} {u : Unit}

theorem SnapshotChange.of_startRun (hstate : state.Valid) (h : startRun id time now state = .ok u state') :
    SnapshotChange state state' :=
  .of_runTransition hstate (fun _ _ _ h ↦ by
    obtain ⟨hadvances, -, -, houtputs⟩ := RunRecord.start_eq_ok h
    exact ⟨hadvances, houtputs⟩) h

theorem SnapshotChange.of_interruptRun (hstate : state.Valid)
    (h : interruptRun id time now state = .ok u state') : SnapshotChange state state' :=
  .of_runTransition hstate (fun _ _ _ h ↦ by
    obtain ⟨hadvances, -, -, houtputs⟩ := RunRecord.interrupt_eq_ok h
    exact ⟨hadvances, houtputs⟩) h

theorem SnapshotChange.of_completeRun (hstate : state.Valid)
    (h : completeRun id time now state = .ok u state') : SnapshotChange state state' :=
  .of_runTransition hstate (fun run _ hrun h ↦ by
    obtain ⟨hadvances, hrunning, -, houtputs⟩ := RunRecord.complete_eq_ok h
    exact ⟨hadvances, houtputs.trans (hrun.outputs_completed (by simp [hrunning])).symm⟩) h

theorem SnapshotChange.of_failRun (hstate : state.Valid) (h : failRun id time now state = .ok u state') :
    SnapshotChange state state' :=
  .of_runTransition hstate (fun _ _ _ h ↦ by
    obtain ⟨hadvances, -, houtputs⟩ := RunRecord.fail_eq_ok h
    exact ⟨hadvances, houtputs⟩) h

theorem SnapshotChange.of_cancelRun (hstate : state.Valid) (h : cancelRun id time now state = .ok u state') :
    SnapshotChange state state' :=
  .of_runTransition hstate (fun _ _ _ h ↦ by
    obtain ⟨hadvances, -, houtputs⟩ := RunRecord.cancel_eq_ok h
    exact ⟨hadvances, houtputs⟩) h

theorem validateNoActiveRun_eq_ok {run : RunRecord} {u : Unit} :
    state.validateNoActiveRun run = .ok u ↔ ∀ other ∈ state.runs, NotBothActive other run := by
  unfold validateNoActiveRun NotBothActive
  by_cases hrun : run.isTerminal = true
  · simp [hrun]
  · rw [if_neg hrun]
    cases hfind : state.runs.find? fun existing ↦
        existing.sessionId = run.sessionId ∧ existing.isTerminal = false with
    | none =>
      have hnone := List.find?_eq_none.mp hfind
      simp only [hrun, true_iff]
      intro other hother hactive _ heq
      exact hnone other hother (by simp [heq, hactive])
    | some existing =>
      have hexisting := List.find?_some hfind
      simp only [decide_eq_true_eq] at hexisting
      refine iff_of_false nofun fun h ↦ ?_
      exact h existing (List.mem_of_find?_eq_some hfind) hexisting.2 (by simpa using hrun)
        hexisting.1

theorem addRun_eq_ok {run : RunRecord} {u : Unit} :
    addRun run now state = .ok u state' ↔
      (run.sessionId ∈ state.sessions.map (·.id) ∧ run.id ∉ state.runs.map (·.id) ∧
        ∀ other ∈ state.runs, NotBothActive other run) ∧
      touchAt (max run.updatedAtUnix now) { state with runs := state.runs ++ [run] } = state' := by
  simp only [addRun, estate_bind_eq_ok, estate_get_eq_ok, question_eq_ok, validateRunSession_eq_ok,
    validateNoActiveRun_eq_ok, rejectIf_eq_ok, estate_modify_eq_ok]
  constructor
  · rintro ⟨_, _, ⟨rfl, rfl⟩, _, _, ⟨hsession, rfl⟩, _, _, ⟨hid, rfl⟩, _, _, ⟨hactive, rfl⟩, rfl⟩
    exact ⟨⟨hsession, by simpa using hid, hactive⟩, rfl⟩
  · rintro ⟨⟨hsession, hid, hactive⟩, rfl⟩
    exact ⟨_, _, ⟨rfl, rfl⟩, (), _, ⟨hsession, rfl⟩, (), _, ⟨by simpa using hid, rfl⟩, (), _,
      ⟨hactive, rfl⟩, rfl⟩

theorem SnapshotChange.of_addRun {run : RunRecord} {u : Unit} (hrun : run.Valid)
    (houtputs : run.outputDeliveryIds = []) (h : RuntimeState.addRun run now state = .ok u state') :
    SnapshotChange state state' := by
  obtain ⟨⟨hsession, hid, hactive⟩, rfl⟩ := addRun_eq_ok.mp h
  exact .addRun hrun houtputs hsession hid hactive (le_max_left _ _)

/-! ## Startup recovery -/

theorem touchLatest_eq (latest : Option U64) (state : RuntimeState) :
    ∃ updatedAtUnix, touchLatest latest state = { state with updatedAtUnix } ∧
      state.updatedAtUnix ≤ updatedAtUnix ∧ ∀ time, latest = some time → time ≤ updatedAtUnix := by
  cases latest with
  | none => exact ⟨state.updatedAtUnix, rfl, le_rfl, nofun⟩
  | some time =>
    refine ⟨max state.updatedAtUnix time, rfl, le_max_left _ _, ?_⟩
    rintro _ ⟨⟩
    exact le_max_right _ _

/-- One iteration leaves the run, or interrupts it no later than the latest interruption. -/
theorem recoverRun_eq_ok {runInputIds : List RunId} {loop loop' : RunRecovery} {run run' : RunRecord}
    (h : recoverRun runInputIds time loop run = .ok loop' run') :
    run' = run ∧ loop'.latestInterruptedAt = loop.latestInterruptedAt ∨
      ∃ interruptedAt latest, run.Advances interruptedAt run' ∧ run'.status = .interrupted ∧
        run'.outputDeliveryIds = run.outputDeliveryIds ∧
        loop'.latestInterruptedAt = some latest ∧ run'.updatedAtUnix ≤ latest ∧
        ∀ time, loop.latestInterruptedAt = some time → time ≤ latest := by
  have hinterrupted : ∀ {interruptedAt : U64} {loop₁ : RunRecovery},
      run.updatedAtUnix ≤ interruptedAt →
      (do RunRecord.interrupt interruptedAt; return loop₁ :
        EStateM String RunRecord RunRecovery) run = .ok loop' run' →
      loop₁.latestInterruptedAt =
        some (max (loop.latestInterruptedAt.getD interruptedAt) interruptedAt) →
      ∃ interruptedAt latest, run.Advances interruptedAt run' ∧ run'.status = .interrupted ∧
        run'.outputDeliveryIds = run.outputDeliveryIds ∧
        loop'.latestInterruptedAt = some latest ∧ run'.updatedAtUnix ≤ latest ∧
        ∀ time, loop.latestInterruptedAt = some time → time ≤ latest := by
    intro interruptedAt loop₁ hle hrun hlatest
    simp only [estate_bind_unit_eq_ok, estate_pure_eq_ok] at hrun
    obtain ⟨_, hrun, rfl, rfl⟩ := hrun
    obtain ⟨hadvances, -, hstatus, houtputs⟩ := RunRecord.interrupt_eq_ok hrun
    refine ⟨interruptedAt, _, hadvances, hstatus, houtputs, hlatest, ?_, fun time htime ↦ ?_⟩
    · rw [hadvances.updated_eq, max_eq_right hle]
      exact le_max_right _ _
    · rw [htime]
      exact le_max_left _ _
  obtain ⟨_, _, hget, h⟩ := estate_bind_eq_ok.mp h
  obtain ⟨rfl, rfl⟩ := estate_get_eq_ok.mp hget
  cases hstatus : run.status with
  | pending =>
    by_cases hinput : run.id ∈ runInputIds
    · simp only [hstatus, hinput, if_true, estate_pure_eq_ok] at h
      obtain ⟨rfl, rfl⟩ := h
      exact .inl ⟨rfl, rfl⟩
    · simp only [hstatus, hinput, if_false] at h
      exact .inr (hinterrupted (le_max_right _ _) h rfl)
  | running =>
    simp only [hstatus] at h
    exact .inr (hinterrupted (le_max_right _ _) h rfl)
  | interrupted | failed | completed | cancelled =>
    simp only [hstatus, estate_pure_eq_ok] at h
    obtain ⟨rfl, rfl⟩ := h
    exact .inl ⟨rfl, rfl⟩

/-- A recovery loop that leaves records or advances them, with a bound on the new times. -/
def Recovered {α : Type} (Steps : α → α → Prop) (updatedAt : α → U64) (latest : Option U64)
    (done done' : List α) : Prop :=
  List.Forall₂ Steps done done' ∧
    ∀ a ∈ done', a ∈ done ∨ ∃ time, latest = some time ∧ updatedAt a ≤ time

theorem Recovered.concat {α : Type} {Steps : α → α → Prop} {updatedAt : α → U64}
    {latest latest' : Option U64} {done done' : List α} {a a' : α}
    (h : Recovered Steps updatedAt latest done done') (hstep : Steps a a')
    (hle : ∀ time, latest = some time → ∃ time', latest' = some time' ∧ time ≤ time')
    (ha' : a' = a ∨ ∃ time, latest' = some time ∧ updatedAt a' ≤ time) :
    Recovered Steps updatedAt latest' (done ++ [a]) (done' ++ [a']) := by
  refine ⟨List.rel_append h.1 (.cons hstep .nil), fun b hb ↦ ?_⟩
  rcases List.mem_append.mp hb with hb | hb
  · rcases h.2 b hb with hdone | ⟨time, htime, hb⟩
    · exact .inl (List.mem_append_left _ hdone)
    · obtain ⟨time', htime', hle'⟩ := hle time htime
      exact .inr ⟨time', htime', hb.trans hle'⟩
  · obtain rfl := List.mem_singleton.mp hb
    rcases ha' with rfl | ha'
    · exact .inl (by simp)
    · exact .inr ha'

theorem SnapshotChange.of_reconcileRunsAtStartup {result : RunStartupRecoveryReport × Bool}
    (hstate : state.Valid) (h : reconcileRunsAtStartup time state = .ok result state') :
    SnapshotChange state state' := by
  simp only [reconcileRunsAtStartup, estate_bind_eq_ok, estate_get_eq_ok, estate_modify_eq_ok,
    estate_pure_eq_ok, zoom_eq_ok] at h
  obtain ⟨_, _, ⟨rfl, rfl⟩, loop, _, ⟨runs, hloop, rfl⟩, _, _, rfl, -, rfl⟩ := h
  have hrecovered := forEachMut_invariant
    (fun loop done done' ↦ Recovered RunRecord.Steps (·.updatedAtUnix)
      loop.latestInterruptedAt done done')
    (fun loop done done' run loop' run' hdone hbody ↦ ?_) ⟨.nil, fun _ h ↦ absurd h List.not_mem_nil⟩ hloop
  · obtain ⟨updatedAtUnix, heq, hle, hlatest⟩ := touchLatest_eq loop.latestInterruptedAt
      { state with runs }
    rw [heq]
    refine .stepRuns hrecovered.1 hle fun run hrun ↦ ?_
    rcases hrecovered.2 run hrun with hmem | ⟨time, htime, hrun⟩
    · exact ((mem_recordTimes_iff.mp hstate.updated).2.1 run hmem).trans hle
    · exact hrun.trans (hlatest time htime)
  · rcases recoverRun_eq_ok hbody with ⟨rfl, heq⟩ | ⟨_, latest, hadvances, -, houtputs, heq, hle,
      hlatest⟩
    · exact hdone.concat (.inl rfl) (fun time htime ↦ ⟨time, heq.trans htime, le_rfl⟩) (.inl rfl)
    · exact hdone.concat (.inr ⟨⟨_, hadvances⟩, houtputs⟩)
        (fun time htime ↦ ⟨latest, heq, hlatest time htime⟩) (.inr ⟨latest, heq, hle⟩)

/-! ## Operations on deliveries -/

section Deliveries

variable {id : OutboundDeliveryId} {delivery : OutboundDeliveryRecord}

theorem andClone_eq_ok {update : EStateM String OutboundDeliveryRecord Unit}
    {record clone record' : OutboundDeliveryRecord} :
    andClone update record = .ok clone record' ↔ update record = .ok () record' ∧ clone = record' := by
  simp only [andClone, estate_bind_unit_eq_ok, estate_get_eq_ok]
  constructor
  · rintro ⟨_, hupdate, rfl, rfl⟩
    exact ⟨hupdate, rfl⟩
  · rintro ⟨hupdate, rfl⟩
    exact ⟨_, hupdate, rfl, rfl⟩

/-- Changing one delivery by a transition. -/
theorem Change.stepDelivery {before after : List OutboundDeliveryRecord}
    {delivery delivery' : OutboundDeliveryRecord} (hstate : state.Valid)
    (hdeliveries : state.outboundDeliveries = before ++ delivery :: after)
    (hadvances : delivery.Advances delivery') :
    Change state (touchAt (max delivery'.updatedAtUnix now)
      { state with outboundDeliveries := before ++ delivery' :: after }) := by
  have hbound := (mem_recordTimes_iff.mp hstate.updated).2.2.2.2.1
  refine .stepDeliveries ?_ (le_max_left _ _) fun other hother ↦ ?_
  · rw [hdeliveries]
    exact forall₂_replace (fun _ ↦ .inl rfl) (.inr hadvances)
  · rw [hdeliveries] at hbound
    rcases List.mem_append.mp hother with hmem | hmem
    · exact (hbound other (List.mem_append_left _ hmem)).trans (le_max_left _ _)
    rcases List.mem_cons.mp hmem with rfl | hmem
    · exact (le_max_left _ _).trans (le_max_right _ _)
    · exact (hbound other (by simp [hmem])).trans (le_max_left _ _)

/-- A transition of the delivery with a given id, and what it leaves behind. -/
theorem updateOutboundDelivery_eq_ok {update : EStateM String OutboundDeliveryRecord Unit}
    (h : updateOutboundDelivery id now update state = .ok delivery state') :
    ∃ before previous after, state.outboundDeliveries = before ++ previous :: after ∧
      state' = touchAt (max delivery.updatedAtUnix now)
        { state with outboundDeliveries := before ++ delivery :: after } ∧
      state.outboundDelivery id = some previous ∧ update previous = .ok () delivery := by
  simp only [updateOutboundDelivery, estate_bind_eq_ok, zoom_eq_ok, estate_modify_eq_ok,
    estate_pure_eq_ok] at h
  obtain ⟨_, _, ⟨deliveries, hupdate, rfl⟩, _, _, rfl, rfl, rfl⟩ := h
  obtain ⟨before, previous, _, after, hdeliveries, rfl, hbefore, hprevious, hclone⟩ :=
    updateFirst_eq_ok hupdate
  obtain ⟨hupdate, rfl⟩ := andClone_eq_ok.mp hclone
  refine ⟨before, previous, after, hdeliveries, rfl, ?_, hupdate⟩
  rw [outboundDelivery, hdeliveries]
  exact find?_split hbefore hprevious

theorem Change.of_updateOutboundDelivery {update : EStateM String OutboundDeliveryRecord Unit}
    (hstate : state.Valid)
    (hupdate : ∀ record record', update record = .ok () record' → record.Advances record')
    (h : updateOutboundDelivery id now update state = .ok delivery state') :
    Change state state' := by
  obtain ⟨before, previous, after, hdeliveries, rfl, -, hprevious⟩ := updateOutboundDelivery_eq_ok h
  exact .stepDelivery hstate hdeliveries (hupdate previous delivery hprevious)

/-- A claim changes nothing, or begins an attempt of the first eligible delivery: no pending delivery
before it is eligible. -/
theorem claimNextOutboundDeliveryWhere_eq_ok {isEligible : OutboundDeliveryRecord → Bool}
    {claimed : Option OutboundDeliveryRecord}
    (h : claimNextOutboundDeliveryWhere time isEligible now state = .ok claimed state') :
    claimed = none ∧ state' = state ∨
      ∃ before previous delivery after, claimed = some delivery ∧
        state.outboundDeliveries = before ++ previous :: after ∧
        state' = touchAt (max delivery.updatedAtUnix now)
          { state with outboundDeliveries := before ++ delivery :: after } ∧
        isEligible previous = true ∧
        OutboundDeliveryRecord.beginDelivery time previous = .ok () delivery ∧
        ∀ earlier ∈ before, earlier.status = .pending → isEligible earlier = false := by
  simp only [claimNextOutboundDeliveryWhere, estate_bind_eq_ok, zoom_eq_ok] at h
  obtain ⟨result, _, ⟨deliveries, hupdate, rfl⟩, h⟩ := h
  cases result with
  | none =>
    obtain ⟨rfl, rfl⟩ := estate_pure_eq_ok.mp h
    obtain ⟨rfl, -⟩ := updateFirst?_eq_ok_none hupdate
    exact .inl ⟨rfl, rfl⟩
  | some delivery =>
    simp only [estate_bind_unit_eq_ok, estate_modify_eq_ok, estate_pure_eq_ok] at h
    obtain ⟨_, rfl, rfl, rfl⟩ := h
    obtain ⟨before, previous, _, after, hdeliveries, rfl, hbefore, hprevious, hclone⟩ :=
      updateFirst?_eq_ok_some hupdate
    obtain ⟨hbegin, rfl⟩ := andClone_eq_ok.mp hclone
    simp only [Bool.and_eq_true] at hprevious
    refine .inr ⟨before, previous, delivery, after, rfl, hdeliveries, rfl, hprevious.2, hbegin,
      fun earlier hearlier hpending ↦ ?_⟩
    simpa [hpending] using hbefore earlier hearlier

theorem Change.of_claimNextOutboundDeliveryWhere {isEligible : OutboundDeliveryRecord → Bool}
    {claimed : Option OutboundDeliveryRecord} (hstate : state.Valid)
    (h : claimNextOutboundDeliveryWhere time isEligible now state = .ok claimed state') :
    Change state state' := by
  rcases claimNextOutboundDeliveryWhere_eq_ok h with ⟨-, rfl⟩ | ⟨before, previous, delivery, after,
    -, hdeliveries, rfl, -, hbegin, -⟩
  · exact .snapshot .refl
  · exact .stepDelivery hstate hdeliveries
      (OutboundDeliveryRecord.advances_of_beginDelivery hbegin).1

/-- One iteration leaves the delivery, or makes a delivery in flight uncertain. -/
theorem recoverOutboundDelivery_eq_ok {loop loop' : OutboundRecovery}
    {delivery' : OutboundDeliveryRecord}
    (h : recoverOutboundDelivery time loop delivery = .ok loop' delivery') :
    delivery.status ≠ .delivering ∧ delivery' = delivery ∧
        loop'.latestRecoveredAt = loop.latestRecoveredAt ∨
      ∃ latest, delivery.Advances delivery' ∧ delivery.status = .delivering ∧
        delivery'.status = .uncertain ∧ loop'.latestRecoveredAt = some latest ∧
        delivery'.updatedAtUnix ≤ latest ∧
        ∀ time, loop.latestRecoveredAt = some time → time ≤ latest := by
  obtain ⟨_, _, hget, h⟩ := estate_bind_eq_ok.mp h
  obtain ⟨rfl, rfl⟩ := estate_get_eq_ok.mp hget
  cases hstatus : delivery.status with
  | delivering =>
    simp only [hstatus, estate_bind_unit_eq_ok, estate_pure_eq_ok] at h
    obtain ⟨_, hmark, rfl, rfl⟩ := h
    obtain ⟨hadvances, -, huncertain⟩ := OutboundDeliveryRecord.advances_of_markUncertain hmark
    refine .inr ⟨_, hadvances, rfl, huncertain, rfl, ?_, fun time htime ↦ ?_⟩
    · rw [OutboundDeliveryRecord.updatedAt_of_markUncertain hmark]
      exact le_max_right _ _
    · rw [htime]
      exact le_max_left _ _
  | uncertain | pending | delivered | failed =>
    simp only [hstatus, estate_pure_eq_ok] at h
    obtain ⟨rfl, rfl⟩ := h
    exact .inl ⟨fun h ↦ absurd h (by decide), rfl, rfl⟩

theorem Change.of_reconcileOutboundDeliveriesAtStartup
    {result : OutboundDeliveryStartupRecoveryReport × Bool} (hstate : state.Valid)
    (h : reconcileOutboundDeliveriesAtStartup time state = .ok result state') :
    Change state state' := by
  simp only [reconcileOutboundDeliveriesAtStartup, estate_bind_eq_ok, estate_modify_eq_ok,
    estate_pure_eq_ok, zoom_eq_ok] at h
  obtain ⟨loop, _, ⟨deliveries, hloop, rfl⟩, _, _, rfl, -, rfl⟩ := h
  have hrecovered := forEachMut_invariant
    (fun loop done done' ↦ Recovered OutboundDeliveryRecord.Steps (·.updatedAtUnix)
      loop.latestRecoveredAt done done')
    (fun loop done done' delivery loop' delivery' hdone hbody ↦ ?_) ⟨.nil, fun _ h ↦ absurd h List.not_mem_nil⟩ hloop
  · obtain ⟨updatedAtUnix, heq, hle, hlatest⟩ := touchLatest_eq loop.latestRecoveredAt
      { state with outboundDeliveries := deliveries }
    rw [heq]
    refine .stepDeliveries hrecovered.1 hle fun delivery hdelivery ↦ ?_
    rcases hrecovered.2 delivery hdelivery with hmem | ⟨time, htime, hdelivery⟩
    · exact ((mem_recordTimes_iff.mp hstate.updated).2.2.2.2.1 delivery hmem).trans hle
    · exact hdelivery.trans (hlatest time htime)
  · rcases recoverOutboundDelivery_eq_ok hbody with ⟨-, rfl, heq⟩ | ⟨latest, hadvances, -, -, heq,
      hle, hlatest⟩
    · exact hdone.concat (.inl rfl) (fun time htime ↦ ⟨time, heq.trans htime, le_rfl⟩) (.inl rfl)
    · exact hdone.concat (.inr hadvances)
        (fun time htime ↦ ⟨latest, heq, hlatest time htime⟩) (.inr ⟨latest, heq, hle⟩)

/-- An enqueue finds the same delivery, or adds a pending one. -/
theorem enqueueOutboundDelivery_eq_ok {status : OutboundDeliveryEnqueueStatus}
    (h : enqueueOutboundDelivery delivery now state = .ok status state') :
    delivery.Valid ∧ delivery.status = .pending ∧
      delivery.sessionId ∈ state.sessions.map (·.id) ∧
      (status = .duplicate ∧ state' = state ∧ state.outboundDelivery delivery.id = some delivery ∨
        status = .queued ∧ state.outboundDelivery delivery.id = none ∧
          state' = touchAt (max delivery.updatedAtUnix now) { state with
            outboundDeliveries := state.outboundDeliveries ++ [delivery] }) := by
  simp only [enqueueOutboundDelivery, estate_bind_eq_ok, estate_get_eq_ok, question_eq_ok,
    OutboundDeliveryRecord.validate_eq_ok, validateOutboundDeliverySession_eq_ok,
    rejectIf_eq_ok, not_not] at h
  obtain ⟨_, _, ⟨rfl, rfl⟩, _, _, ⟨hvalid, rfl⟩, _, _, ⟨hsession, rfl⟩, _, _, ⟨hpending, rfl⟩, h⟩ := h
  refine ⟨hvalid, hpending, hsession, ?_⟩
  cases hfind : state.outboundDelivery delivery.id with
  | some existing =>
    by_cases heq : existing = delivery
    · simp only [hfind, heq, if_true, estate_pure_eq_ok] at h
      obtain ⟨rfl, rfl⟩ := h
      exact .inl ⟨rfl, rfl, congrArg some heq⟩
    · simp only [hfind, heq, if_false] at h
      cases h
  | none =>
    simp only [hfind, estate_bind_unit_eq_ok, estate_modify_eq_ok, estate_pure_eq_ok] at h
    obtain ⟨_, rfl, rfl, rfl⟩ := h
    exact .inr ⟨rfl, rfl, rfl⟩

theorem SnapshotChange.of_enqueueOutboundDelivery {status : OutboundDeliveryEnqueueStatus}
    (h : enqueueOutboundDelivery delivery now state = .ok status state') : SnapshotChange state state' := by
  obtain ⟨hvalid, hpending, hsession, ⟨-, rfl, -⟩ | ⟨-, hnew, rfl⟩⟩ := enqueueOutboundDelivery_eq_ok h
  · exact .refl
  · exact .enqueue hvalid hpending hsession (find_key_eq_none_iff_notMem.mp hnew) (le_max_left _ _)

end Deliveries

/-! ## Recording, claiming and completing -/

/-- An event is a duplicate of a ledger record with the same message, or enters the ledger. -/
theorem recordInboundEventAt_eq_ok {event : Event} {status : InboundEventRecordStatus}
    (h : recordInboundEventAt event time state = .ok status state') :
    ∃ queued, state.queuedMessageForEvent event time = .ok queued ∧
      (status = .duplicate ∧ state' = state ∧
          (∃ existing, state.inboundEvent event.id = some existing ∧
            existing.receivedAtUnix = event.receivedAtUnix) ∧
          (state.messageRecordForEvent event.id).map (·.identity) = queued.map (·.identity) ∨
        status = .recorded ∧ state.inboundEvent event.id = none ∧
          ∃ record, InboundEventRecord.fromEvent event time = .ok record ∧
            state' = pushInboundEvent record queued state) := by
  simp only [recordInboundEventAt, estate_bind_eq_ok, estate_get_eq_ok, question_eq_ok] at h
  obtain ⟨_, _, ⟨rfl, rfl⟩, queued, _, ⟨hqueued, rfl⟩, h⟩ := h
  refine ⟨queued, hqueued, ?_⟩
  cases hfind : state.inboundEvent event.id with
  | some existing =>
    simp only [hfind, estate_bind_eq_ok, question_eq_ok, estate_pure_eq_ok, validateDuplicateEvent,
      except_bind_unit_eq_ok, rejectIf_eq_ok, not_not] at h
    obtain ⟨_, _, ⟨⟨hreceived, hmessage⟩, rfl⟩, rfl, rfl⟩ := h
    refine .inl ⟨rfl, rfl, ⟨existing, rfl, hreceived⟩, ?_⟩
    cases hexisting : state.messageRecordForEvent event.id <;> cases queued <;>
      simp_all [QueuedMessage.hasSameIdentity_iff]
  | none =>
    simp only [hfind, estate_bind_eq_ok, question_eq_ok, estate_modify_eq_ok,
      estate_pure_eq_ok] at h
    obtain ⟨record, _, ⟨hrecord, rfl⟩, _, _, rfl, rfl, rfl⟩ := h
    exact .inr ⟨rfl, rfl, record, hrecord, rfl⟩

theorem SnapshotChange.of_recordInboundEvent {event : Event} {status : InboundEventRecordStatus}
    (h : recordInboundEvent event time state = .ok status state') : SnapshotChange state state' := by
  obtain ⟨queued, hqueued, ⟨-, rfl, -⟩ | ⟨-, hnew, record, hrecord, rfl⟩⟩ :=
    recordInboundEventAt_eq_ok h
  · exact .refl
  · exact .recordEvent hqueued hnew hrecord

/-- A claim waits, or moves the head of the queue of an idle session into a new run. -/
theorem claimMessageBatch_eq_ok {runId : RunId} {policy : MessageQueuePolicy}
    {outcome : MessageBatchClaimOutcome}
    (h : claimMessageBatch runId policy time now state = .ok outcome state') :
    (∃ next, outcome = .waiting next ∧ state' = state) ∨
      ∃ run input, outcome = .claimed run input ∧ run = .new runId input.sessionId time ∧
        input.Valid ∧ input.runId = runId ∧ input.claimedAtUnix = time ∧
        input.messages <+: state.queuedMessages.filter (·.sessionId = input.sessionId) ∧
        (run.sessionId ∈ state.sessions.map (·.id) ∧ run.id ∉ state.runs.map (·.id) ∧
          ∀ other ∈ state.runs, NotBothActive other run) ∧
        state' = touchAt (max (max run.updatedAtUnix now) input.claimedAtUnix) { state with
          runs := state.runs ++ [run]
          queuedMessages := state.queuedMessages.filter
            (·.eventId ∉ input.messages.map (·.eventId))
          runInputs := state.runInputs ++ [input] } := by
  simp only [claimMessageBatch, estate_bind_eq_ok, estate_get_eq_ok] at h
  obtain ⟨_, _, ⟨rfl, rfl⟩, h⟩ := h
  cases hpoll : policy.pollWhere state.queuedMessages time
      (· ∉ (state.runs.filter (·.isTerminal = false)).map (·.sessionId)) with
  | waiting next =>
    simp only [hpoll, estate_pure_eq_ok] at h
    exact .inl ⟨next, h.1.symm, h.2.symm⟩
  | ready batch =>
    simp only [hpoll, estate_bind_eq_ok, question_eq_ok, addRun_eq_ok, estate_modify_eq_ok,
      estate_pure_eq_ok] at h
    obtain ⟨input, _, ⟨hbatch, rfl⟩, _, _, ⟨hguards, rfl⟩, _, _, rfl, rfl, rfl⟩ := h
    obtain ⟨hinput, hrunId, hsession, hmessages, hclaimed⟩ := RunInputRecord.fromBatch_eq_ok hbatch
    obtain ⟨-, hprefix⟩ := policy.pollWhere_ready hpoll
    refine .inr ⟨_, input, rfl, by rw [hsession], hinput, hrunId, hclaimed, ?_, hguards, ?_⟩
    · rwa [hmessages, hsession]
    · simp only [touchAt, max_assoc]

theorem Change.of_claimMessageBatch {runId : RunId} {policy : MessageQueuePolicy}
    {outcome : MessageBatchClaimOutcome}
    (h : claimMessageBatch runId policy time now state = .ok outcome state') :
    Change state state' := by
  rcases claimMessageBatch_eq_ok h with ⟨_, -, rfl⟩ | ⟨run, input, -, rfl, hinput, hrunId, hclaimed,
    hprefix, ⟨hsession, hid, hactive⟩, rfl⟩
  · exact .snapshot .refl
  · exact .claim (RunRecord.valid_new _ _ _) rfl hsession hid hactive hinput hrunId rfl hclaimed
      hprefix ((le_max_left _ _).trans (le_max_left _ _)) (le_max_right _ _)

/-- What the delivery loop of a completion checks. -/
theorem validateOutputDeliveries_eq_ok {run : RunRecord} {finishedAtUnix : U64}
    {deliveries : List OutboundDeliveryRecord} {ids : List OutboundDeliveryId} :
    deliveries.foldlM (state.validateOutputDelivery run finishedAtUnix) [] = .ok ids ↔
      ((∀ delivery ∈ deliveries, (delivery.Valid ∧
          delivery.sessionId ∈ state.sessions.map (·.id) ∧ delivery.status = .pending ∧
          delivery.sessionId = run.sessionId ∧ delivery.message.author = .agent ∧
          delivery.createdAtUnix = finishedAtUnix) ∧
          delivery.id ∉ state.outboundDeliveries.map (·.id)) ∧
        (deliveries.map (·.id)).Nodup) ∧ deliveries.map (·.id) = ids := by
  refine (foldlM_eq_ok_iff
    (fun done : List OutboundDeliveryRecord ↦ done.map (·.id))
    (fun done delivery ↦ ((delivery.Valid ∧
      delivery.sessionId ∈ state.sessions.map (·.id) ∧ delivery.status = .pending ∧
      delivery.sessionId = run.sessionId ∧ delivery.message.author = .agent ∧
      delivery.createdAtUnix = finishedAtUnix) ∧
      delivery.id ∉ state.outboundDeliveries.map (·.id)) ∧ delivery.id ∉ done.map (·.id))
    (fun done delivery _ ids' ↦ ?_) ids).trans (and_congr_left' ?_)
  · have hsome : ¬(state.outboundDelivery delivery.id).isSome = true ↔
        delivery.id ∉ state.outboundDeliveries.map (·.id) := not_congr find_key_isSome
    simp only [validateOutputDelivery, except_bind_unit_eq_ok,
      OutboundDeliveryRecord.validate_eq_ok, validateOutboundDeliverySession_eq_ok,
      rejectIf_eq_ok, not_not, hsome, except_pure_eq_ok, List.map_append, List.map_cons,
      List.map_nil]
    tauto
  · rw [EachAfter.and, EachAfter.const, EachAfter.nodup]

/-- A completion replaces the running run by the completed one and adds its deliveries. -/
theorem completeRunWithOutputDeliveries_eq_ok {id : RunId} {finishedAtUnix : U64}
    {deliveries deliveries' : List OutboundDeliveryRecord}
    (h : completeRunWithOutputDeliveries id deliveries finishedAtUnix now state =
      .ok deliveries' state') :
    deliveries' = deliveries ∧ deliveries ≠ [] ∧ ∃ before run run' after,
      state.runs = before ++ run :: after ∧ state.run id = some run ∧ run.status = .running ∧
      state' = touchAt (max finishedAtUnix now) { state with
        runs := before ++ run' :: after
        outboundDeliveries := state.outboundDeliveries ++ deliveries } ∧
      run.Advances finishedAtUnix run' ∧ run'.status = .completed ∧
      run'.finishedAtUnix = some finishedAtUnix ∧
      run'.outputDeliveryIds = deliveries.map (·.id) ∧
      (∀ delivery ∈ deliveries, (delivery.Valid ∧
          delivery.sessionId ∈ state.sessions.map (·.id) ∧ delivery.status = .pending ∧
          delivery.sessionId = run.sessionId ∧ delivery.message.author = .agent ∧
          delivery.createdAtUnix = finishedAtUnix) ∧
          delivery.id ∉ state.outboundDeliveries.map (·.id)) ∧
      (deliveries.map (·.id)).Nodup := by
  simp only [completeRunWithOutputDeliveries, estate_bind_eq_ok, estate_get_eq_ok, question_eq_ok,
    rejectIf_eq_ok, okOr_eq_ok, validateOutputDeliveries_eq_ok, estate_modify_eq_ok,
    estate_pure_eq_ok] at h
  obtain ⟨_, _, ⟨rfl, rfl⟩, _, _, ⟨hnonempty, rfl⟩, run, _, ⟨hrun, rfl⟩, _, _, ⟨-, rfl⟩,
    _, _, ⟨-, rfl⟩, _, _, ⟨⟨⟨hdeliveries, hids⟩, -⟩, rfl⟩, _, _, hcomplete, _, _, rfl, rfl, rfl⟩ := h
  obtain ⟨before, run₁, run', after, hruns, rfl, hrun₁, hcomplete⟩ := runMut_eq_ok hcomplete
  obtain rfl := Option.some.inj (hrun.symm.trans hrun₁)
  obtain ⟨hadvances, hrunning, hcompleted, hfinished, houtputs⟩ :=
    RunRecord.completeWithOutputDeliveries_eq_ok hcomplete
  exact ⟨rfl, hnonempty, before, run, run', after, hruns, hrun, hrunning, rfl, hadvances,
    hcompleted, hfinished, houtputs, hdeliveries, hids⟩

/-- The deliveries that the caller passes are fresh from their constructor, so that they were last
updated when they were created. -/
theorem Change.of_completeRunWithOutputDeliveries {id : RunId} {finishedAtUnix : U64}
    {deliveries deliveries' : List OutboundDeliveryRecord}
    (hfresh : ∀ delivery ∈ deliveries, delivery.updatedAtUnix = delivery.createdAtUnix)
    (h : completeRunWithOutputDeliveries id deliveries finishedAtUnix now state =
      .ok deliveries' state') : Change state state' := by
  obtain ⟨rfl, -, before, run, run', after, hruns, -, -, rfl, hadvances, hcompleted, hfinished,
    houtputs, hdeliveries, hids⟩ := completeRunWithOutputDeliveries_eq_ok h
  refine .complete hruns hadvances hcompleted hfinished houtputs (fun delivery hdelivery ↦ ?_) hids
    (fun delivery hdelivery ↦ (hdeliveries delivery hdelivery).2) (le_max_left _ _)
  obtain ⟨⟨hvalid, -, hpending, hsession, hauthor, hcreated⟩, -⟩ := hdeliveries delivery hdelivery
  refine ⟨hvalid, hpending, hsession, hauthor, hcreated, ?_⟩
  rw [hfresh delivery hdelivery, hcreated]
  exact le_max_left _ _

end RuntimeState

end FerrisBridge
