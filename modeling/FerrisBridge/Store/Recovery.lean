import FerrisBridge.State.Recovery
import FerrisBridge.Store.Agreement

/-!
# Startup recovery of the store

What the recovery methods leave in the file when the file system does not fail. They are run again
after an ambiguous write, so that what a second pass reports has to be what the first one did.
-/

open Foundations

namespace FerrisBridge

open RuntimeState

/-- No access to the file fails. -/
structure Io.Faultless (io : Io) : Prop where
  read : io.read = none
  readForMerge : io.readForMerge = none
  write : io.write = .replaced
  confirm : io.confirm = none

theorem Io.faultless_untroubled : Io.untroubled.Faultless := ⟨rfl, rfl, rfl, rfl⟩

namespace StateStore

variable {io : Io} {disk : Disk} {state written : RuntimeState}

/-- Without a failure a method commits what its work has computed. -/
theorem transact_eq_ok {α : Type} (self : StateStore) {transaction : U64 → Transaction (α × Commit)}
    {reply : α} {commit : Commit} (hio : io.Faultless) (hdisk : disk.Valid)
    (hwork : transaction io.now (io.loaded disk.visible) = .ok (reply, commit) written)
    (hwritten : written.Valid) (hcommit : commit ≠ .save) :
    self.transact io transaction disk = .ok reply (commit.result written disk) := by
  rw [self.transact_eq hio.read (Disk.valid_iff.mp hdisk) hwork]
  cases commit with
  | nothing => rfl
  | confirm => exact estate_ok_bind (confirmDurable_eq_ok hio.confirm)
  | write =>
    exact estate_ok_bind
      (self.writeUnlocked_eq_ok disk hio.write (validate_eq_ok.mpr hwritten))
  | save => exact absurd rfl hcommit

theorem call_method_eq_ok (self : StateStore) {method : Method} {reply : Reply} {commit : Commit}
    (hio : io.Faultless) (hdisk : disk.Valid)
    (hwork : method.work io.now (io.loaded disk.visible) = .ok (reply, commit) written)
    (hcommit : commit ≠ .save) :
    self.call io (.method method) disk = .ok reply (commit.result written disk) :=
  self.transact_eq_ok hio hdisk hwork ((Method.change (hdisk.loaded io) hwork).1.valid
    (hdisk.loaded io)) hcommit

/-- A recovery pass that writes when it has changed something, and only then, leaves the recovered
state visible and durable. -/
theorem call_recovery (self : StateStore) {method : Method} {reply : Reply} {changed : Bool}
    (hio : io.Faultless) (hstate : state.Valid) (hdisk : disk.visible = some state)
    (hwork : method.work io.now state =
      .ok (reply, if changed then .write else .confirm) written)
    (hunchanged : changed = false → written = state) :
    self.call io (.method method) disk = .ok reply ⟨some written, some written⟩ := by
  have hvalid : disk.Valid := fun visible hvisible ↦ by
    obtain rfl := Option.some.inj (hdisk.symm.trans hvisible)
    exact hstate
  have hloaded : io.loaded disk.visible = state := by
    rw [hdisk]
    rfl
  rw [← hloaded] at hwork
  cases changed with
  | true => exact self.call_method_eq_ok hio hvalid hwork (fun h ↦ by cases h)
  | false =>
    have hcall := self.call_method_eq_ok hio hvalid hwork (fun h ↦ by cases h)
    obtain rfl := hunchanged rfl
    obtain ⟨visible, durable⟩ := disk
    cases hdisk
    exact hcall

/-! ## The work of the recovery methods -/

theorem reconcileRuns_work (now : U64) (hstate : state.Valid) (time : U64) :
    ∃ updatedAtUnix, state.updatedAtUnix ≤ updatedAtUnix ∧
      ((∀ run ∈ state.runs, ¬NeedsInterrupt (state.runInputs.map (·.runId)) run) →
        updatedAtUnix = state.updatedAtUnix) ∧
      (Method.reconcileRunsAtStartup time).work now state =
        .ok (.runsRecovered (runReport (state.runInputs.map (·.runId)) state.runs),
            if state.runs.any (NeedsInterrupt (state.runInputs.map (·.runId)) ·) then .write
            else .confirm)
          { state with
            runs := state.runs.map (recoveredRun (state.runInputs.map (·.runId)) time)
            updatedAtUnix } := by
  obtain ⟨updatedAtUnix, hle, hunchanged, hreconcile⟩ := reconcileRunsAtStartup_eq hstate time
  refine ⟨updatedAtUnix, hle, hunchanged, replying_eq_ok.mpr ⟨_, ?_, rfl⟩⟩
  exact (estate_ok_bind hreconcile).trans rfl

theorem reconcileOutboundDeliveries_work (now : U64) (hstate : state.Valid) (time : U64) :
    ∃ updatedAtUnix, state.updatedAtUnix ≤ updatedAtUnix ∧
      ((∀ delivery ∈ state.outboundDeliveries, delivery.status ≠ .delivering) →
        updatedAtUnix = state.updatedAtUnix) ∧
      (Method.reconcileOutboundDeliveriesAtStartup time).work now state =
        .ok (.deliveriesRecovered ⟨deliveryReport state.outboundDeliveries⟩,
            if state.outboundDeliveries.any (·.status = .delivering) then .write else .confirm)
          { state with
            outboundDeliveries := state.outboundDeliveries.map (recoveredDelivery time)
            updatedAtUnix } := by
  obtain ⟨updatedAtUnix, hle, hunchanged, hreconcile⟩ :=
    reconcileOutboundDeliveriesAtStartup_eq hstate time
  refine ⟨updatedAtUnix, hle, hunchanged, replying_eq_ok.mpr ⟨_, ?_, rfl⟩⟩
  exact (estate_ok_bind hreconcile).trans rfl

/-! ## Passes over the file -/

/-- The run pass on a file without anything to recover. -/
theorem call_reconcileRuns_settled (self : StateStore) (hio : io.Faultless) (hstate : state.Valid)
    (hsettled : ∀ run ∈ state.runs, ¬NeedsInterrupt (state.runInputs.map (·.runId)) run)
    (time : U64) :
    self.call io (.method (.reconcileRunsAtStartup time)) ⟨some state, some state⟩ =
      .ok (.runsRecovered (runReport (state.runInputs.map (·.runId)) state.runs))
        ⟨some state, some state⟩ := by
  obtain ⟨updatedAtUnix, -, hunchanged, hwork⟩ := reconcileRuns_work io.now hstate time
  have hmap : state.runs.map (recoveredRun (state.runInputs.map (·.runId)) time) = state.runs := by
    conv_rhs => rw [← List.map_id state.runs]
    exact List.map_congr_left fun run hrun ↦ recoveredRun_of_not (hsettled run hrun)
  rw [hmap, hunchanged hsettled] at hwork
  exact self.call_recovery hio hstate rfl hwork fun _ ↦ rfl

/-- The outbound pass on a file without anything to recover. -/
theorem call_reconcileOutboundDeliveries_settled (self : StateStore) (hio : io.Faultless)
    (hstate : state.Valid)
    (hsettled : ∀ delivery ∈ state.outboundDeliveries, delivery.status ≠ .delivering)
    (time : U64) :
    self.call io (.method (.reconcileOutboundDeliveriesAtStartup time))
        ⟨some state, some state⟩ =
      .ok (.deliveriesRecovered ⟨deliveryReport state.outboundDeliveries⟩)
        ⟨some state, some state⟩ := by
  obtain ⟨updatedAtUnix, -, hunchanged, hwork⟩ := reconcileOutboundDeliveries_work io.now hstate time
  have hmap : state.outboundDeliveries.map (recoveredDelivery time) = state.outboundDeliveries := by
    conv_rhs => rw [← List.map_id state.outboundDeliveries]
    exact List.map_congr_left fun delivery hdelivery ↦ if_neg (hsettled delivery hdelivery)
  rw [hmap, hunchanged hsettled] at hwork
  exact self.call_recovery hio hstate rfl hwork fun _ ↦ rfl

end StateStore

/-! ## Recovery -/

/-- What the run pass has left in the file: the running runs and the pending ones without a durable
input are interrupted, no earlier than they were updated, and all else is as it was. -/
structure RunsRecovered (state : RuntimeState) (time : U64) (written : RuntimeState) : Prop where
  valid : written.validate = .ok ()
  runs : written.runs = state.runs.map fun run ↦
    if run.status = .running ∨ run.status = .pending ∧ run.id ∉ state.runInputs.map (·.runId) then
      { run with status := .interrupted, updatedAtUnix := max run.updatedAtUnix time }
    else run
  others : written =
    { state with runs := written.runs, updatedAtUnix := written.updatedAtUnix }
  updated_le : state.updatedAtUnix ≤ written.updatedAtUnix

/-- What the outbound pass has left in the file: the deliveries in flight are uncertain, no earlier
than they were updated and with their attempts, and all else is as it was. -/
structure DeliveriesRecovered (state : RuntimeState) (time : U64) (written : RuntimeState) : Prop where
  valid : written.validate = .ok ()
  deliveries : written.outboundDeliveries = state.outboundDeliveries.map fun delivery ↦
    if delivery.status = .delivering then
      { delivery with
        status := .uncertain
        updatedAtUnix := max delivery.updatedAtUnix time
        deliveredAtUnix := none
        lastError := some startupRecoveryDiagnostic }
    else delivery
  others : written =
    { state with
      outboundDeliveries := written.outboundDeliveries
      updatedAtUnix := written.updatedAtUnix }
  updated_le : state.updatedAtUnix ≤ written.updatedAtUnix

/-- Startup recovery is total, exact and idempotent: on a file with a valid state, at any time, each
pass succeeds, changes exactly what it has to and reports in the order of the records what has to be
resumed or resolved; a second pass at any time reports the same and changes nothing. -/
theorem StateStore.startup_recovery_exact (self : StateStore) {state : RuntimeState}
    (hstate : state.validate = .ok ()) {disk : Disk} (hdisk : disk.visible = some state)
    {io : Io} (hio : io.Faultless) (time : U64) :
    (∃ written, RunsRecovered state time written ∧ ∃ report : RunStartupRecoveryReport,
      report.resumablePendingRunIds = (written.runs.filter fun run ↦
          run.status = .pending ∧ run.id ∈ state.runInputs.map (·.runId)).map (·.id) ∧
      report.interruptedRunIds = (written.runs.filter (·.status = .interrupted)).map (·.id) ∧
      report.failedRunIds = (written.runs.filter (·.status = .failed)).map (·.id) ∧
      self.call io (.method (.reconcileRunsAtStartup time)) disk =
        .ok (.runsRecovered report) ⟨some written, some written⟩ ∧
      ∀ again : Io, again.Faultless → ∀ later,
        self.call again (.method (.reconcileRunsAtStartup later)) ⟨some written, some written⟩ =
          .ok (.runsRecovered report) ⟨some written, some written⟩) ∧
      ∃ written, DeliveriesRecovered state time written ∧
        ∃ report : OutboundDeliveryStartupRecoveryReport,
        report.reconciliationRequiredDeliveryIds =
          (written.outboundDeliveries.filter (·.status = .uncertain)).map (·.id) ∧
        self.call io (.method (.reconcileOutboundDeliveriesAtStartup time)) disk =
          .ok (.deliveriesRecovered report) ⟨some written, some written⟩ ∧
        ∀ again : Io, again.Faultless → ∀ later,
          self.call again (.method (.reconcileOutboundDeliveriesAtStartup later))
              ⟨some written, some written⟩ =
            .ok (.deliveriesRecovered report) ⟨some written, some written⟩ := by
  rw [validate_eq_ok] at hstate
  constructor
  · obtain ⟨updatedAtUnix, hle, hunchanged, hwork⟩ := reconcileRuns_work io.now hstate time
    have hwritten := (Method.change hstate hwork).1.valid hstate
    have hsettled : ∀ run ∈ state.runs.map (recoveredRun (state.runInputs.map (·.runId)) time),
        ¬NeedsInterrupt (state.runInputs.map (·.runId)) run :=
      List.forall_mem_map.mpr fun run _ ↦ not_needsInterrupt_recoveredRun _ time run
    have hreport := runReport_recovered (state.runInputs.map (·.runId)) time state.runs
    refine ⟨_, ⟨validate_eq_ok.mpr hwritten, rfl, rfl, hle⟩, _, ?_, ?_, ?_,
      self.call_recovery hio hstate hdisk hwork fun hany ↦ ?_, fun again hagain later ↦ ?_⟩
    · rw [← hreport]
      rfl
    · rw [← hreport]
      simp only [runReport]
      congr 1
      refine List.filter_congr fun run hrun ↦ ?_
      simp [hsettled run hrun]
    · rw [← hreport]
      rfl
    · have hnone : ∀ run ∈ state.runs, ¬NeedsInterrupt (state.runInputs.map (·.runId)) run := by
        simpa using hany
      have hmap : state.runs.map (recoveredRun (state.runInputs.map (·.runId)) time) =
          state.runs := by
        conv_rhs => rw [← List.map_id state.runs]
        exact List.map_congr_left fun run hrun ↦ recoveredRun_of_not (hnone run hrun)
      rw [hmap, hunchanged hnone]
    · rw [← hreport]
      exact self.call_reconcileRuns_settled hagain hwritten hsettled later
  · obtain ⟨updatedAtUnix, hle, hunchanged, hwork⟩ :=
      reconcileOutboundDeliveries_work io.now hstate time
    have hwritten := (Method.change hstate hwork).1.valid hstate
    have hsettled : ∀ delivery ∈ state.outboundDeliveries.map (recoveredDelivery time),
        delivery.status ≠ .delivering :=
      List.forall_mem_map.mpr fun delivery _ ↦ not_delivering_recoveredDelivery time delivery
    have hreport := deliveryReport_recovered time state.outboundDeliveries
    refine ⟨_, ⟨validate_eq_ok.mpr hwritten, rfl, rfl, hle⟩, _, ?_,
      self.call_recovery hio hstate hdisk hwork fun hany ↦ ?_, fun again hagain later ↦ ?_⟩
    · rw [← hreport]
      simp only [deliveryReport]
      congr 1
      refine List.filter_congr fun delivery hdelivery ↦ ?_
      simp [hsettled delivery hdelivery]
    · have hnone : ∀ delivery ∈ state.outboundDeliveries, delivery.status ≠ .delivering := by
        simpa using hany
      have hmap : state.outboundDeliveries.map (recoveredDelivery time) =
          state.outboundDeliveries := by
        conv_rhs => rw [← List.map_id state.outboundDeliveries]
        exact List.map_congr_left fun delivery hdelivery ↦ if_neg (hnone delivery hdelivery)
      rw [hmap, hunchanged hnone]
    · rw [← hreport]
      exact self.call_reconcileOutboundDeliveries_settled hagain hwritten hsettled later

/-- The chat whose reply is in the hands of an adapter. -/
def sendingState : RuntimeState :=
  { chatState with outboundDeliveries := [{ pendingReply with
      status := .delivering
      deliveryAttempts := 1 }] }

/-- Recovery makes the outcome of the reply uncertain. -/
theorem StateStore.startup_recovery_exact_sending : ∃ written report,
    DeliveriesRecovered sendingState 0 written ∧
      (StateStore.mk "state.json").call .untroubled
        (.method (.reconcileOutboundDeliveriesAtStartup 0)) ⟨some sendingState, none⟩ =
          .ok (.deliveriesRecovered report) ⟨some written, some written⟩ := by
  have hstate : sendingState.validate = .ok () := rfl
  have hdisk : (Disk.mk (some sendingState) none).visible = some sendingState := rfl
  obtain ⟨-, written, hrecovered, report, -, hcall, -⟩ :=
    (StateStore.mk "state.json").startup_recovery_exact hstate hdisk Io.faultless_untroubled 0
  exact ⟨written, report, hrecovered, hcall⟩

end FerrisBridge
