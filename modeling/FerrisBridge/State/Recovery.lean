import FerrisBridge.State.Change

/-!
# Startup recovery

The exact results of the two recovery passes. The loops of the source have fallible transitions in
their bodies; on a valid state none of them is refused, whatever the clock reads, so a pass is a fold
for the report and a map over the records.
-/

open Foundations

namespace FerrisBridge

/-! ## Transitions that recovery makes -/

theorem RunRecord.interrupt_eq {run : RunRecord} {time : U64} (hrun : run.Valid)
    (hactive : run.status = .pending ∨ run.status = .running) (htime : run.updatedAtUnix ≤ time) :
    RunRecord.interrupt time run = .ok () (touchAt time { run with status := .interrupted }) := by
  have hcreated : ¬time < run.createdAtUnix := not_lt.mpr (hrun.created_le.trans htime)
  have hstarted : ¬run.startedAtUnix.any (fun start ↦ decide (time < start)) = true := by
    simp only [Option.any_eq_true, decide_eq_true_eq, not_exists, not_and, not_lt]
    exact fun start hstart ↦ (hrun.started start hstart).2.trans htime
  have hstatus : ¬(run.status ≠ .pending ∧ run.status ≠ .running) := by
    rcases hactive with h | h <;> simp [h]
  simp only [interrupt, estate_bind_eq_ok, estate_get_eq_ok, question_eq_ok, rejectIf_eq_ok,
    estate_modify_eq_ok]
  exact ⟨_, _, ⟨rfl, rfl⟩, (), _, ⟨hstatus, rfl⟩, (), _, ⟨hcreated, rfl⟩, (), _, ⟨hstarted, rfl⟩, rfl⟩

theorem OutboundDeliveryRecord.markUnsuccessful_eq (status : OutboundDeliveryStatus)
    (action errorLabel : String) {record : OutboundDeliveryRecord} {time : U64} {error : String}
    (hrecord : record.Valid) (hdelivering : record.status = .delivering)
    (htime : record.updatedAtUnix ≤ time) (herror : isBlank error = false) :
    markUnsuccessful status time error action errorLabel record =
      .ok () (touchAt time { record with
        status
        deliveredAtUnix := none
        lastError := some error }) := by
  have hcreated : ¬time < record.createdAtUnix := not_lt.mpr (hrecord.created_le.trans htime)
  simp only [markUnsuccessful, estate_bind_eq_ok, estate_get_eq_ok, question_eq_ok, rejectIf_eq_ok,
    estate_modify_eq_ok, not_not]
  exact ⟨_, _, ⟨rfl, rfl⟩, (), _, ⟨hdelivering, rfl⟩, (), _, ⟨hcreated, rfl⟩, (), _,
    ⟨not_lt.mpr htime, rfl⟩, (), _, ⟨by simp [herror], rfl⟩, rfl⟩

namespace RuntimeState

variable {state : RuntimeState}

/-! ## Runs -/

/-- A run that was running, or that is pending with nothing to resume it from. -/
def NeedsInterrupt (runInputIds : List RunId) (run : RunRecord) : Prop :=
  run.status = .running ∨ run.status = .pending ∧ run.id ∉ runInputIds

instance (runInputIds : List RunId) (run : RunRecord) : Decidable (NeedsInterrupt runInputIds run) :=
  inferInstanceAs (Decidable (_ ∨ _))

/-- The run after the pass. -/
def recoveredRun (runInputIds : List RunId) (time : U64) (run : RunRecord) : RunRecord :=
  if NeedsInterrupt runInputIds run then
    { run with status := .interrupted, updatedAtUnix := max run.updatedAtUnix time }
  else run

/-- What the pass reports about the runs that it has seen. -/
def runReport (runInputIds : List RunId) (runs : List RunRecord) : RunStartupRecoveryReport where
  resumablePendingRunIds :=
    (runs.filter fun run ↦ run.status = .pending ∧ run.id ∈ runInputIds).map (·.id)
  interruptedRunIds :=
    (runs.filter fun run ↦ run.status = .interrupted ∨ NeedsInterrupt runInputIds run).map (·.id)
  failedRunIds := (runs.filter (·.status = .failed)).map (·.id)

/-- The accumulators after one more run. -/
def RunRecovery.next (runInputIds : List RunId) (time : U64) (loop : RunRecovery) (run : RunRecord) :
    RunRecovery where
  report := {
    resumablePendingRunIds := loop.report.resumablePendingRunIds ++
      (runReport runInputIds [run]).resumablePendingRunIds
    interruptedRunIds := loop.report.interruptedRunIds ++
      (runReport runInputIds [run]).interruptedRunIds
    failedRunIds := loop.report.failedRunIds ++ (runReport runInputIds [run]).failedRunIds }
  changed := loop.changed || NeedsInterrupt runInputIds run
  latestInterruptedAt :=
    if NeedsInterrupt runInputIds run then
      some (max (loop.latestInterruptedAt.getD (max time run.updatedAtUnix))
        (max time run.updatedAtUnix))
    else loop.latestInterruptedAt

/-- One iteration never fails on a valid run. -/
theorem recoverRun_eq (runInputIds : List RunId) (time : U64) {run : RunRecord} (hrun : run.Valid)
    (loop : RunRecovery) :
    recoverRun runInputIds time loop run =
      .ok (loop.next runInputIds time run) (recoveredRun runInputIds time run) := by
  have hinterrupt : run.status = .pending ∨ run.status = .running →
      RunRecord.interrupt (max time run.updatedAtUnix) run =
        .ok () { run with status := .interrupted, updatedAtUnix := max run.updatedAtUnix time } := by
    intro hactive
    rw [RunRecord.interrupt_eq hrun hactive (le_max_right _ _)]
    simp only [RunRecord.touchAt, max_comm time, ← max_assoc, max_self]
  refine (estate_ok_bind (x := get) rfl).trans ?_
  cases hstatus : run.status with
  | pending =>
    by_cases hinput : run.id ∈ runInputIds
    · simp [hinput, hstatus, RunRecovery.next, runReport, recoveredRun, NeedsInterrupt]
    · simp only [hinput, if_false]
      refine (estate_ok_bind (hinterrupt (.inl hstatus))).trans ?_
      simp [hinput, hstatus, RunRecovery.next, runReport, recoveredRun, NeedsInterrupt]
  | running =>
    refine (estate_ok_bind (hinterrupt (.inr hstatus))).trans ?_
    simp [hstatus, RunRecovery.next, runReport, recoveredRun, NeedsInterrupt]
  | interrupted | failed | completed | cancelled =>
    simp [hstatus, RunRecovery.next, runReport, recoveredRun, NeedsInterrupt]

/-- The accumulators after a list of runs. -/
theorem foldl_runRecovery (runInputIds : List RunId) (time : U64) (runs : List RunRecord)
    (loop : RunRecovery) :
    let after := runs.foldl (RunRecovery.next runInputIds time) loop
    after.report = {
        resumablePendingRunIds := loop.report.resumablePendingRunIds ++
          (runReport runInputIds runs).resumablePendingRunIds
        interruptedRunIds := loop.report.interruptedRunIds ++
          (runReport runInputIds runs).interruptedRunIds
        failedRunIds := loop.report.failedRunIds ++ (runReport runInputIds runs).failedRunIds } ∧
      after.changed = (loop.changed || runs.any (NeedsInterrupt runInputIds ·)) ∧
      ((∀ run ∈ runs, ¬NeedsInterrupt runInputIds run) →
        after.latestInterruptedAt = loop.latestInterruptedAt) := by
  induction runs generalizing loop with
  | nil => simp [runReport]
  | cons run rest ih =>
    obtain ⟨hreport, hchanged, hlatest⟩ := ih (loop.next runInputIds time run)
    refine ⟨?_, ?_, fun hnone ↦ ?_⟩
    · rw [List.foldl_cons, hreport]
      simp only [RunRecovery.next, runReport, List.append_assoc, ← List.map_append,
        ← List.filter_append, List.singleton_append]
    · rw [List.foldl_cons, hchanged, List.any_cons, RunRecovery.next, Bool.or_assoc]
    · obtain ⟨hrun, hrest⟩ := List.forall_mem_cons.mp hnone
      rw [List.foldl_cons, hlatest hrest]
      exact if_neg hrun

theorem recoveredRun_of_not {runInputIds : List RunId} {time : U64} {run : RunRecord}
    (h : ¬NeedsInterrupt runInputIds run) : recoveredRun runInputIds time run = run := if_neg h

/-- What recovery leaves behind needs no interruption. -/
theorem not_needsInterrupt_recoveredRun (runInputIds : List RunId) (time : U64) (run : RunRecord) :
    ¬NeedsInterrupt runInputIds (recoveredRun runInputIds time run) := by
  by_cases h : NeedsInterrupt runInputIds run
  · rw [recoveredRun, if_pos h]
    simp [NeedsInterrupt]
  · rwa [recoveredRun_of_not h]

/-- The report is the same before and after recovery. -/
theorem runReport_recovered (runInputIds : List RunId) (time : U64) (runs : List RunRecord) :
    runReport runInputIds (runs.map (recoveredRun runInputIds time)) = runReport runInputIds runs := by
  induction runs with
  | nil => rfl
  | cons run rest ih =>
    have hcons (run : RunRecord) (rest : List RunRecord) : runReport runInputIds (run :: rest) = {
        resumablePendingRunIds := (runReport runInputIds [run]).resumablePendingRunIds ++
          (runReport runInputIds rest).resumablePendingRunIds
        interruptedRunIds := (runReport runInputIds [run]).interruptedRunIds ++
          (runReport runInputIds rest).interruptedRunIds
        failedRunIds := (runReport runInputIds [run]).failedRunIds ++
          (runReport runInputIds rest).failedRunIds } := by
      simp only [runReport, ← List.map_append, ← List.filter_append, List.singleton_append]
    have hrun : runReport runInputIds [recoveredRun runInputIds time run] =
        runReport runInputIds [run] := by
      by_cases h : NeedsInterrupt runInputIds run
      · rw [recoveredRun, if_pos h]
        rcases h with h | ⟨h, hinput⟩
        · simp [runReport, NeedsInterrupt, h]
        · simp [runReport, NeedsInterrupt, h, hinput]
      · rw [recoveredRun_of_not h]
    rw [List.map_cons, hcons, hcons run, hrun, ih]

/-- The run pass never fails on a valid state. -/
theorem reconcileRunsAtStartup_eq (hstate : state.Valid) (time : U64) :
    ∃ updatedAtUnix, state.updatedAtUnix ≤ updatedAtUnix ∧
      ((∀ run ∈ state.runs, ¬NeedsInterrupt (state.runInputs.map (·.runId)) run) →
        updatedAtUnix = state.updatedAtUnix) ∧
      reconcileRunsAtStartup time state =
        .ok (runReport (state.runInputs.map (·.runId)) state.runs,
            state.runs.any (NeedsInterrupt (state.runInputs.map (·.runId)) ·))
          { state with
            runs := state.runs.map (recoveredRun (state.runInputs.map (·.runId)) time)
            updatedAtUnix } := by
  have hbody (loop : RunRecovery) (run : RunRecord) (hrun : run ∈ state.runs) :=
    recoverRun_eq (state.runInputs.map (·.runId)) time (hstate.runs run hrun) loop
  have hloop := forEachMut_eq _ _ hbody ⟨⟨[], [], []⟩, false, none⟩
  obtain ⟨hreport, hchanged, hlatest⟩ := foldl_runRecovery (state.runInputs.map (·.runId)) time
    state.runs ⟨⟨[], [], []⟩, false, none⟩
  obtain ⟨updatedAtUnix, htouch, hle, -⟩ := touchLatest_eq
    (state.runs.foldl (RunRecovery.next (state.runInputs.map (·.runId)) time)
      ⟨⟨[], [], []⟩, false, none⟩).latestInterruptedAt
    { state with runs := state.runs.map (recoveredRun (state.runInputs.map (·.runId)) time) }
  refine ⟨updatedAtUnix, hle, fun hnone ↦ ?_, ?_⟩
  · rw [hlatest hnone] at htouch
    exact congrArg RuntimeState.updatedAtUnix htouch.symm
  · simp only [reconcileRunsAtStartup, estate_bind_eq_ok, estate_get_eq_ok, estate_modify_eq_ok,
      estate_pure_eq_ok, zoom_eq_ok]
    refine ⟨_, _, ⟨rfl, rfl⟩, _, _, ⟨_, hloop, rfl⟩, (), _, htouch, ?_, rfl⟩
    rw [hreport, hchanged]
    simp

/-! ## Deliveries -/

/-- The delivery after the pass: the outcome of an attempt in flight is unknown. -/
def recoveredDelivery (time : U64) (delivery : OutboundDeliveryRecord) : OutboundDeliveryRecord :=
  if delivery.status = .delivering then
    { delivery with
      status := .uncertain
      updatedAtUnix := max delivery.updatedAtUnix time
      deliveredAtUnix := none
      lastError := some startupRecoveryDiagnostic }
  else delivery

/-- What the pass reports about the deliveries that it has seen. -/
def deliveryReport (deliveries : List OutboundDeliveryRecord) : List OutboundDeliveryId :=
  (deliveries.filter fun delivery ↦
    delivery.status = .delivering ∨ delivery.status = .uncertain).map (·.id)

/-- The accumulators after one more delivery. -/
def OutboundRecovery.next (time : U64) (loop : OutboundRecovery) (delivery : OutboundDeliveryRecord) :
    OutboundRecovery where
  reconciliationRequiredDeliveryIds :=
    loop.reconciliationRequiredDeliveryIds ++ deliveryReport [delivery]
  changed := loop.changed || delivery.status = .delivering
  latestRecoveredAt :=
    if delivery.status = .delivering then
      some (max (loop.latestRecoveredAt.getD (max time delivery.updatedAtUnix))
        (max time delivery.updatedAtUnix))
    else loop.latestRecoveredAt

theorem isBlank_startupRecoveryDiagnostic : isBlank startupRecoveryDiagnostic = false := rfl

/-- One iteration never fails on a valid delivery. -/
theorem recoverOutboundDelivery_eq (time : U64) {delivery : OutboundDeliveryRecord}
    (hdelivery : delivery.Valid) (loop : OutboundRecovery) :
    recoverOutboundDelivery time loop delivery =
      .ok (loop.next time delivery) (recoveredDelivery time delivery) := by
  refine (estate_ok_bind (x := get) rfl).trans ?_
  cases hstatus : delivery.status with
  | delivering =>
    have hmark := OutboundDeliveryRecord.markUnsuccessful_eq .uncertain "become uncertain"
      "uncertain outcome" hdelivery hstatus (le_max_right time _) isBlank_startupRecoveryDiagnostic
    refine (estate_ok_bind hmark).trans ?_
    simp [hstatus, OutboundRecovery.next, deliveryReport, recoveredDelivery,
      OutboundDeliveryRecord.touchAt, max_comm time, ← max_assoc]
  | pending | delivered | failed | uncertain =>
    simp [hstatus, OutboundRecovery.next, deliveryReport, recoveredDelivery]

/-- The accumulators after a list of deliveries. -/
theorem foldl_outboundRecovery (time : U64) (deliveries : List OutboundDeliveryRecord)
    (loop : OutboundRecovery) :
    let after := deliveries.foldl (OutboundRecovery.next time) loop
    after.reconciliationRequiredDeliveryIds =
        loop.reconciliationRequiredDeliveryIds ++ deliveryReport deliveries ∧
      after.changed = (loop.changed || deliveries.any (·.status = .delivering)) ∧
      ((∀ delivery ∈ deliveries, delivery.status ≠ .delivering) →
        after.latestRecoveredAt = loop.latestRecoveredAt) := by
  induction deliveries generalizing loop with
  | nil => simp [deliveryReport]
  | cons delivery rest ih =>
    obtain ⟨hreport, hchanged, hlatest⟩ := ih (loop.next time delivery)
    refine ⟨?_, ?_, fun hnone ↦ ?_⟩
    · rw [List.foldl_cons, hreport]
      simp only [OutboundRecovery.next, deliveryReport, List.append_assoc, ← List.map_append,
        ← List.filter_append, List.singleton_append]
    · rw [List.foldl_cons, hchanged, List.any_cons, OutboundRecovery.next, Bool.or_assoc]
    · obtain ⟨hdelivery, hrest⟩ := List.forall_mem_cons.mp hnone
      rw [List.foldl_cons, hlatest hrest]
      exact if_neg hdelivery

theorem not_delivering_recoveredDelivery (time : U64) (delivery : OutboundDeliveryRecord) :
    (recoveredDelivery time delivery).status ≠ .delivering := by
  by_cases h : delivery.status = .delivering
  · rw [recoveredDelivery, if_pos h]
    exact fun h ↦ by cases h
  · rwa [recoveredDelivery, if_neg h]

/-- The report is the same before and after recovery. -/
theorem deliveryReport_recovered (time : U64) (deliveries : List OutboundDeliveryRecord) :
    deliveryReport (deliveries.map (recoveredDelivery time)) = deliveryReport deliveries := by
  induction deliveries with
  | nil => rfl
  | cons delivery rest ih =>
    have hcons (delivery : OutboundDeliveryRecord) (rest : List OutboundDeliveryRecord) :
        deliveryReport (delivery :: rest) = deliveryReport [delivery] ++ deliveryReport rest := by
      simp only [deliveryReport, ← List.map_append, ← List.filter_append, List.singleton_append]
    have hdelivery : deliveryReport [recoveredDelivery time delivery] = deliveryReport [delivery] := by
      by_cases h : delivery.status = .delivering
      · simp [deliveryReport, recoveredDelivery, h]
      · rw [recoveredDelivery, if_neg h]
    rw [List.map_cons, hcons, hcons delivery, hdelivery, ih]

/-- The outbound pass never fails on a valid state. -/
theorem reconcileOutboundDeliveriesAtStartup_eq (hstate : state.Valid) (time : U64) :
    ∃ updatedAtUnix, state.updatedAtUnix ≤ updatedAtUnix ∧
      ((∀ delivery ∈ state.outboundDeliveries, delivery.status ≠ .delivering) →
        updatedAtUnix = state.updatedAtUnix) ∧
      reconcileOutboundDeliveriesAtStartup time state =
        .ok (⟨deliveryReport state.outboundDeliveries⟩,
            state.outboundDeliveries.any (·.status = .delivering))
          { state with
            outboundDeliveries := state.outboundDeliveries.map (recoveredDelivery time)
            updatedAtUnix } := by
  have hbody (loop : OutboundRecovery) (delivery : OutboundDeliveryRecord)
      (hdelivery : delivery ∈ state.outboundDeliveries) :=
    recoverOutboundDelivery_eq time (hstate.deliveries delivery hdelivery) loop
  have hloop := forEachMut_eq _ _ hbody ⟨[], false, none⟩
  obtain ⟨hreport, hchanged, hlatest⟩ :=
    foldl_outboundRecovery time state.outboundDeliveries ⟨[], false, none⟩
  obtain ⟨updatedAtUnix, htouch, hle, -⟩ := touchLatest_eq
    (state.outboundDeliveries.foldl (OutboundRecovery.next time) ⟨[], false, none⟩).latestRecoveredAt
    { state with outboundDeliveries := state.outboundDeliveries.map (recoveredDelivery time) }
  refine ⟨updatedAtUnix, hle, fun hnone ↦ ?_, ?_⟩
  · rw [hlatest hnone] at htouch
    exact congrArg RuntimeState.updatedAtUnix htouch.symm
  · simp only [reconcileOutboundDeliveriesAtStartup, estate_bind_eq_ok, estate_modify_eq_ok,
      estate_pure_eq_ok, zoom_eq_ok]
    refine ⟨_, _, ⟨_, hloop, rfl⟩, (), _, htouch, ?_, rfl⟩
    rw [hreport, hchanged]
    simp

end RuntimeState

end FerrisBridge
