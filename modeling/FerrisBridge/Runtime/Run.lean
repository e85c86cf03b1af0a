import FerrisBridge.Runtime.Outbox

/-!
# Agent runs

The durable record of one agent run. `isDescendantOf` is the source's own notion of a later version
of a record, which the snapshot merge uses; every transition produces a descendant, and being a
descendant is a strict order, so the history of a run only moves forward.
-/

open Foundations

namespace FerrisBridge

@[ext]
structure RunId where
  asStr : String
  valid : isValidId asStr = true
  deriving Repr

instance : DecidableEq RunId := fun _ _ ↦ decidable_of_iff _ RunId.ext_iff.symm

def RunId.new (value : String) : Except String RunId :=
  if h : isValidId value then .ok ⟨value, h⟩ else .error s!"invalid run id `{value}`"

instance : ToString RunId := ⟨RunId.asStr⟩

inductive RunStatus
  | pending
  | running
  | interrupted
  | completed
  | failed
  | cancelled
  deriving DecidableEq, Repr

namespace RunStatus

/-- The `Debug` rendering that the diagnostics use. -/
instance : ToString RunStatus where
  toString
    | .pending => "Pending"
    | .running => "Running"
    | .interrupted => "Interrupted"
    | .completed => "Completed"
    | .failed => "Failed"
    | .cancelled => "Cancelled"

def isTerminal : RunStatus → Bool
  | .completed | .failed | .cancelled => true
  | .pending | .running | .interrupted => false

end RunStatus

structure RunRecord where
  id : RunId
  sessionId : SessionId
  status : RunStatus
  createdAtUnix : U64
  updatedAtUnix : U64
  startedAtUnix : Option U64
  finishedAtUnix : Option U64
  outputDeliveryIds : List OutboundDeliveryId
  deriving DecidableEq, Repr

structure RunStartupRecoveryReport where
  resumablePendingRunIds : List RunId
  interruptedRunIds : List RunId
  failedRunIds : List RunId
  deriving DecidableEq, Repr

namespace RunRecord

variable {run run' : RunRecord}

def new (id : RunId) (sessionId : SessionId) (createdAtUnix : U64) : RunRecord :=
  { id, sessionId, createdAtUnix
    status := .pending
    updatedAtUnix := createdAtUnix
    startedAtUnix := none
    finishedAtUnix := none
    outputDeliveryIds := [] }

def isTerminal (run : RunRecord) : Bool := run.status.isTerminal

/-! ## Descendants -/

/-- The statuses a descendant of a run with a given status can have. -/
def statusDescends (status previous : RunStatus) : Bool :=
  match previous with
  | .pending => status ∈ [RunStatus.running, .interrupted, .completed, .failed, .cancelled]
  | .running => status ∈ [RunStatus.interrupted, .completed, .failed, .cancelled]
  | .interrupted => status ∈ [RunStatus.failed, .cancelled]
  | .completed | .failed | .cancelled => false

section StatusDescends

variable {first second third : RunStatus}

theorem previous_active_of_statusDescends (h : statusDescends second first = true) :
    first.isTerminal = false := by
  cases first <;> first | rfl | cases h

theorem ne_pending_of_statusDescends (h : statusDescends second first = true) :
    second ≠ .pending := by
  rintro rfl
  cases first <;> cases h

theorem statusDescends_irrefl : statusDescends first first = false := by
  cases first <;> rfl

theorem statusDescends_trans (h : statusDescends second first = true)
    (h' : statusDescends third second = true) : statusDescends third first = true := by
  revert h h'
  cases first <;> cases second <;> cases third <;> decide

end StatusDescends

def isDescendantOf (run previous : RunRecord) : Bool :=
  if run.id ≠ previous.id ∨ run.sessionId ≠ previous.sessionId ∨
      run.createdAtUnix ≠ previous.createdAtUnix ∨ run.updatedAtUnix < previous.updatedAtUnix ∨
      (run.status ≠ .completed ∧ run.outputDeliveryIds ≠ previous.outputDeliveryIds) then
    false
  else
    match previous.status with
    | .pending => statusDescends run.status .pending
    | .running =>
      statusDescends run.status .running ∧ run.startedAtUnix = previous.startedAtUnix
    | .interrupted =>
      statusDescends run.status .interrupted ∧ run.startedAtUnix = previous.startedAtUnix
    | .completed | .failed | .cancelled => false

/-- `isDescendantOf` as a conjunction. -/
structure Descends (run previous : RunRecord) : Prop where
  id_eq : run.id = previous.id
  sessionId_eq : run.sessionId = previous.sessionId
  createdAt_eq : run.createdAtUnix = previous.createdAtUnix
  updated_le : previous.updatedAtUnix ≤ run.updatedAtUnix
  outputs : run.status ≠ .completed → run.outputDeliveryIds = previous.outputDeliveryIds
  status : statusDescends run.status previous.status = true
  started : previous.status ≠ .pending → run.startedAtUnix = previous.startedAtUnix

theorem isDescendantOf_iff {previous : RunRecord} :
    run.isDescendantOf previous = true ↔ run.Descends previous := by
  unfold isDescendantOf
  constructor
  · intro h
    split at h
    · cases h
    rename_i hcommon
    simp only [not_or, not_and, not_not, not_lt] at hcommon
    obtain ⟨hid, hsession, hcreated, hupdated, houtputs⟩ := hcommon
    refine ⟨hid, hsession, hcreated, hupdated, houtputs, ?_, ?_⟩ <;>
      cases hprevious : previous.status <;> simp_all
  · intro h
    rw [if_neg]
    · have hstatus := h.status
      have hstarted := h.started
      cases hprevious : previous.status <;> simp_all [statusDescends]
    · simp only [not_or, not_and, not_not, not_lt]
      exact ⟨h.id_eq, h.sessionId_eq, h.createdAt_eq, h.updated_le, h.outputs⟩

namespace Descends

variable {previous : RunRecord}

theorem previous_active (h : run.Descends previous) : previous.isTerminal = false :=
  previous_active_of_statusDescends h.status

theorem not_pending (h : run.Descends previous) : run.status ≠ .pending :=
  ne_pending_of_statusDescends h.status

theorem irrefl : ¬run.Descends run :=
  fun h ↦ absurd h.status (by simp [statusDescends_irrefl])

theorem trans (h' : run'.Descends run) (h : run.Descends previous) : run'.Descends previous where
  id_eq := h'.id_eq.trans h.id_eq
  sessionId_eq := h'.sessionId_eq.trans h.sessionId_eq
  createdAt_eq := h'.createdAt_eq.trans h.createdAt_eq
  updated_le := h.updated_le.trans h'.updated_le
  outputs hrun' := by
    have hrun : run.status ≠ .completed := fun hrun ↦ by
      have := h'.previous_active
      simp [isTerminal, hrun, RunStatus.isTerminal] at this
    rw [h'.outputs hrun', h.outputs hrun]
  status := statusDescends_trans h.status h'.status
  started hprevious := by rw [h'.started h.not_pending, h.started hprevious]

/-- No two records descend from each other. -/
theorem asymm (h : run.Descends previous) : ¬previous.Descends run :=
  fun h' ↦ irrefl (h.trans h')

end Descends

/-- A record stays or is replaced by a descendant. -/
def Evolves (before after : RunRecord) : Prop := after = before ∨ after.Descends before

namespace Evolves

variable {run'' : RunRecord}

theorem refl (run : RunRecord) : run.Evolves run := .inl rfl

theorem trans (h : run.Evolves run') (h' : run'.Evolves run'') : run.Evolves run'' := by
  rcases h' with rfl | h'
  · exact h
  · rcases h with rfl | h
    · exact .inr h'
    · exact .inr (h'.trans h)

theorem id_eq (h : run.Evolves run') : run'.id = run.id := by
  rcases h with rfl | h
  · rfl
  · exact h.id_eq

theorem sessionId_eq (h : run.Evolves run') : run'.sessionId = run.sessionId := by
  rcases h with rfl | h
  · rfl
  · exact h.sessionId_eq

theorem createdAt_eq (h : run.Evolves run') : run'.createdAtUnix = run.createdAtUnix := by
  rcases h with rfl | h
  · rfl
  · exact h.createdAt_eq

theorem updated_le (h : run.Evolves run') : run.updatedAtUnix ≤ run'.updatedAtUnix := by
  rcases h with rfl | h
  · exact le_rfl
  · exact h.updated_le

/-- A terminal record never changes. -/
theorem eq_of_terminal (h : run.Evolves run') (hrun : run.isTerminal = true) : run' = run := by
  rcases h with rfl | h
  · rfl
  · exact absurd hrun (by simp [h.previous_active])

theorem active (h : run.Evolves run') (hrun' : run'.isTerminal = false) :
    run.isTerminal = false := by
  rcases h with rfl | h
  · exact hrun'
  · exact h.previous_active

/-- A run that has left `Pending` never returns there. -/
theorem not_pending (h : run.Evolves run') (hrun : run.status ≠ .pending) :
    run'.status ≠ .pending := by
  rcases h with rfl | h
  · exact hrun
  · exact h.not_pending

end Evolves

/-! ## Validation -/

/-- The loop that collects the output delivery ids into a set. -/
def validateOutputDeliveryIds (id : RunId) (outputDeliveryIds : List OutboundDeliveryId) :
    Except String (List OutboundDeliveryId) :=
  outputDeliveryIds.foldlM (fun uniqueIds deliveryId ↦
    if deliveryId ∈ uniqueIds then
      .error s!"run {id} contains duplicate output delivery id {deliveryId}"
    else .ok (uniqueIds ++ [deliveryId])) []

/-- The checks of the start time, when there is one. -/
def validateStartedAt (run : RunRecord) : Except String Unit :=
  match run.startedAtUnix with
  | none => .ok ()
  | some startedAtUnix => do
    rejectIf (startedAtUnix < run.createdAtUnix)
      s!"run {run.id} has started_at_unix before created_at_unix"
    rejectIf (run.updatedAtUnix < startedAtUnix)
      s!"run {run.id} has updated_at_unix before started_at_unix"

/-- The checks of the finish time, when there is one. -/
def validateFinishedAt (run : RunRecord) : Except String Unit :=
  match run.finishedAtUnix with
  | none => .ok ()
  | some finishedAtUnix => do
    rejectIf (finishedAtUnix < run.createdAtUnix)
      s!"run {run.id} has finished_at_unix before created_at_unix"
    rejectIf (run.startedAtUnix.any fun startedAtUnix ↦ finishedAtUnix < startedAtUnix)
      s!"run {run.id} has finished_at_unix before started_at_unix"
    rejectIf (run.updatedAtUnix < finishedAtUnix)
      s!"run {run.id} has updated_at_unix before finished_at_unix"

/-- The timestamps each status requires. -/
def validateStatus (run : RunRecord) : Except String Unit :=
  match run.status with
  | .pending =>
    rejectIf (run.startedAtUnix.isSome ∨ run.finishedAtUnix.isSome)
      s!"pending run {run.id} must not have start or finish timestamps"
  | .running => do
    rejectIf run.startedAtUnix.isNone s!"running run {run.id} must have started_at_unix"
    rejectIf run.finishedAtUnix.isSome s!"running run {run.id} must not have finished_at_unix"
  | .interrupted =>
    rejectIf run.finishedAtUnix.isSome s!"interrupted run {run.id} must not have finished_at_unix"
  | .completed =>
    rejectIf (run.startedAtUnix.isNone ∨ run.finishedAtUnix.isNone)
      s!"completed run {run.id} must have start and finish timestamps"
  | .failed | .cancelled =>
    rejectIf run.finishedAtUnix.isNone s!"{run.status} run {run.id} must have finished_at_unix"

def validate (run : RunRecord) : Except String Unit := do
  let _ ← validateOutputDeliveryIds run.id run.outputDeliveryIds
  rejectIf (run.status ≠ .completed ∧ run.outputDeliveryIds ≠ [])
    s!"{run.status} run {run.id} must not reference output deliveries"
  rejectIf (run.updatedAtUnix < run.createdAtUnix)
    s!"run {run.id} has updated_at_unix before created_at_unix"
  run.validateStartedAt
  run.validateFinishedAt
  run.validateStatus

/-- What the status of a run says about its timestamps. -/
def StatusShape (run : RunRecord) : Prop :=
  match run.status with
  | .pending => run.startedAtUnix = none ∧ run.finishedAtUnix = none
  | .running => run.startedAtUnix.isSome ∧ run.finishedAtUnix = none
  | .interrupted => run.finishedAtUnix = none
  | .completed => run.startedAtUnix.isSome ∧ run.finishedAtUnix.isSome
  | .failed | .cancelled => run.finishedAtUnix.isSome

/-- What `validate` accepts. -/
structure Valid (run : RunRecord) : Prop where
  outputs_nodup : run.outputDeliveryIds.Nodup
  outputs_completed : run.status ≠ .completed → run.outputDeliveryIds = []
  created_le : run.createdAtUnix ≤ run.updatedAtUnix
  started : ∀ time, run.startedAtUnix = some time →
    run.createdAtUnix ≤ time ∧ time ≤ run.updatedAtUnix
  finished : ∀ time, run.finishedAtUnix = some time → run.createdAtUnix ≤ time ∧
    (∀ start, run.startedAtUnix = some start → start ≤ time) ∧ time ≤ run.updatedAtUnix
  shape : run.StatusShape

theorem validateOutputDeliveryIds_eq_ok {id : RunId} {ids seen : List OutboundDeliveryId} :
    validateOutputDeliveryIds id ids = .ok seen ↔ ids.Nodup ∧ ids = seen := by
  refine (foldlM_eq_ok_iff (fun done ↦ done) (fun done deliveryId ↦ deliveryId ∉ done)
    (fun done deliveryId _ seen' ↦ ?_) seen).trans (and_congr_left' ?_)
  · by_cases h : deliveryId ∈ done <;> simp [h]
  · simpa using EachAfter.nodup fun deliveryId : OutboundDeliveryId ↦ deliveryId

theorem validateStartedAt_eq_ok {u : Unit} : run.validateStartedAt = .ok u ↔
    ∀ time, run.startedAtUnix = some time →
      run.createdAtUnix ≤ time ∧ time ≤ run.updatedAtUnix := by
  unfold validateStartedAt
  cases run.startedAtUnix <;> simp [except_bind_unit_eq_ok]

theorem validateFinishedAt_eq_ok {u : Unit} : run.validateFinishedAt = .ok u ↔
    ∀ time, run.finishedAtUnix = some time → run.createdAtUnix ≤ time ∧
      (∀ start, run.startedAtUnix = some start → start ≤ time) ∧ time ≤ run.updatedAtUnix := by
  unfold validateFinishedAt
  cases run.finishedAtUnix <;> cases run.startedAtUnix <;> simp [except_bind_unit_eq_ok]

theorem validateStatus_eq_ok {u : Unit} : run.validateStatus = .ok u ↔ run.StatusShape := by
  unfold validateStatus StatusShape
  cases run.status <;>
    simp [except_bind_unit_eq_ok, not_or, Option.isSome_iff_ne_none]

theorem validate_eq_ok {u : Unit} : run.validate = .ok u ↔ run.Valid := by
  simp only [validate, except_bind_eq_ok, validateOutputDeliveryIds_eq_ok, rejectIf_eq_ok,
    validateStartedAt_eq_ok, validateFinishedAt_eq_ok, validateStatus_eq_ok, not_and, not_not,
    not_lt]
  constructor
  · rintro ⟨_, ⟨hnodup, rfl⟩, _, hcompleted, _, hcreated, _, hstarted, _, hfinished, hshape⟩
    exact ⟨hnodup, hcompleted, hcreated, hstarted, hfinished, hshape⟩
  · intro h
    exact ⟨_, ⟨h.outputs_nodup, rfl⟩, (), h.outputs_completed, (), h.created_le, (), h.started, (),
      h.finished, h.shape⟩

theorem valid_new (id : RunId) (sessionId : SessionId) (createdAtUnix : U64) :
    (new id sessionId createdAtUnix).Valid where
  outputs_nodup := List.nodup_nil
  outputs_completed _ := rfl
  created_le := le_rfl
  started := nofun
  finished := nofun
  shape := ⟨rfl, rfl⟩

/-! ## Transitions -/

def touchAt (updatedAtUnix : U64) (run : RunRecord) : RunRecord :=
  { run with updatedAtUnix := max run.updatedAtUnix updatedAtUnix }

def start (startedAtUnix : U64) : EStateM String RunRecord Unit := do
  let self ← get
  question <| rejectIf (self.status ≠ .pending) s!"run {self.id} cannot start from {self.status}"
  question <| rejectIf (startedAtUnix < self.createdAtUnix)
    s!"run {self.id} cannot start before created_at_unix"
  modify fun run ↦
    touchAt startedAtUnix { run with
      status := .running
      startedAtUnix := some startedAtUnix }

def interrupt (interruptedAtUnix : U64) : EStateM String RunRecord Unit := do
  let self ← get
  question <| rejectIf (self.status ≠ .pending ∧ self.status ≠ .running)
    s!"run {self.id} cannot interrupt from {self.status}"
  question <| rejectIf (interruptedAtUnix < self.createdAtUnix)
    s!"run {self.id} cannot interrupt before created_at_unix"
  question <| rejectIf (self.startedAtUnix.any fun startedAtUnix ↦ interruptedAtUnix < startedAtUnix)
    s!"run {self.id} cannot interrupt before started_at_unix"
  modify fun run ↦ touchAt interruptedAtUnix { run with status := .interrupted }

def finish (status : RunStatus) (finishedAtUnix : U64) : EStateM String RunRecord Unit := do
  let self ← get
  question <| rejectIf (finishedAtUnix < self.createdAtUnix)
    s!"run {self.id} cannot finish before created_at_unix"
  question <| rejectIf (self.startedAtUnix.any fun startedAtUnix ↦ finishedAtUnix < startedAtUnix)
    s!"run {self.id} cannot finish before started_at_unix"
  modify fun run ↦
    touchAt finishedAtUnix { run with
      status
      finishedAtUnix := some finishedAtUnix }

def completeWithOutputDeliveries (finishedAtUnix : U64)
    (outputDeliveryIds : List OutboundDeliveryId) : EStateM String RunRecord Unit := do
  let self ← get
  question <| rejectIf (self.status ≠ .running)
    s!"run {self.id} cannot complete from {self.status}"
  let _ ← question <| validateOutputDeliveryIds self.id outputDeliveryIds
  finish .completed finishedAtUnix
  modify fun run ↦ { run with outputDeliveryIds }

def complete (finishedAtUnix : U64) : EStateM String RunRecord Unit :=
  completeWithOutputDeliveries finishedAtUnix []

def fail (finishedAtUnix : U64) : EStateM String RunRecord Unit := do
  let self ← get
  question <| rejectIf self.status.isTerminal
    s!"run {self.id} cannot fail from terminal status {self.status}"
  finish .failed finishedAtUnix

def cancel (finishedAtUnix : U64) : EStateM String RunRecord Unit := do
  let self ← get
  question <| rejectIf self.status.isTerminal
    s!"run {self.id} cannot cancel from terminal status {self.status}"
  finish .cancelled finishedAtUnix

/-! ## What the transitions do -/

/-- What a transition at a given time does to a record. -/
structure Advances (time : U64) (before after : RunRecord) : Prop where
  descends : after.Descends before
  updated_eq : after.updatedAtUnix = max before.updatedAtUnix time
  valid : before.Valid → after.Valid

theorem Valid.outputs_of_active (h : run.Valid) (hrun : run.isTerminal = false) :
    run.outputDeliveryIds = [] :=
  h.outputs_completed fun hstatus ↦ by simp [isTerminal, hstatus, RunStatus.isTerminal] at hrun

section Transitions

variable {time : U64} {status : RunStatus} {ids : List OutboundDeliveryId} {u : Unit}

theorem start_eq_ok (h : start time run = .ok u run') :
    run.Advances time run' ∧ run.status = .pending ∧ run'.status = .running ∧
      run'.outputDeliveryIds = run.outputDeliveryIds := by
  simp only [start, estate_bind_eq_ok, question_eq_ok, rejectIf_eq_ok, not_not, not_lt,
    estate_get_eq_ok, estate_modify_eq_ok] at h
  obtain ⟨_, _, ⟨rfl, rfl⟩, _, _, ⟨hstatus, rfl⟩, _, _, ⟨htime, rfl⟩, rfl⟩ := h
  refine ⟨⟨?_, rfl, fun hvalid ↦ ?_⟩, hstatus, rfl, rfl⟩
  · exact ⟨rfl, rfl, rfl, le_max_left _ _, fun _ ↦ rfl, by rw [hstatus]; rfl,
      fun h ↦ absurd hstatus h⟩
  · have hshape := hvalid.shape
    rw [StatusShape, hstatus] at hshape
    refine ⟨hvalid.outputs_nodup, fun _ ↦ hvalid.outputs_completed (by simp [hstatus]),
      hvalid.created_le.trans (le_max_left _ _), ?_, ?_, rfl, hshape.2⟩
    · rintro _ ⟨⟩
      exact ⟨htime, le_max_right _ _⟩
    · intro finish hfinish
      cases hshape.2.symm.trans hfinish

theorem interrupt_eq_ok (h : interrupt time run = .ok u run') :
    run.Advances time run' ∧ (run.status = .pending ∨ run.status = .running) ∧
      run'.status = .interrupted ∧ run'.outputDeliveryIds = run.outputDeliveryIds := by
  simp only [interrupt, estate_bind_eq_ok, question_eq_ok, rejectIf_eq_ok, not_and_or, not_not,
    not_lt, estate_get_eq_ok, estate_modify_eq_ok] at h
  obtain ⟨_, _, ⟨rfl, rfl⟩, _, _, ⟨hstatus, rfl⟩, _, _, ⟨-, rfl⟩, _, _, ⟨-, rfl⟩, rfl⟩ := h
  refine ⟨⟨?_, rfl, fun hvalid ↦ ?_⟩, hstatus, rfl, rfl⟩
  · refine ⟨rfl, rfl, rfl, le_max_left _ _, fun _ ↦ rfl, ?_, fun _ ↦ rfl⟩
    rcases hstatus with hstatus | hstatus <;> rw [hstatus] <;> rfl
  · have hfinish : run.finishedAtUnix = none := by
      have hshape := hvalid.shape
      rcases hstatus with hstatus | hstatus <;> rw [StatusShape, hstatus] at hshape <;>
        exact hshape.2
    refine ⟨hvalid.outputs_nodup, fun _ ↦ ?_, hvalid.created_le.trans (le_max_left _ _), ?_, ?_,
      hfinish⟩
    · exact hvalid.outputs_completed (by rcases hstatus with h | h <;> simp [h])
    · exact fun start hstart ↦ ⟨(hvalid.started start hstart).1,
        (hvalid.started start hstart).2.trans (le_max_left _ _)⟩
    · intro finish h
      cases hfinish.symm.trans h

theorem finish_eq_ok (h : finish status time run = .ok u run') :
    run.createdAtUnix ≤ time ∧ (∀ start, run.startedAtUnix = some start → start ≤ time) ∧
      run' = touchAt time { run with status, finishedAtUnix := some time } := by
  simp only [finish, estate_bind_eq_ok, question_eq_ok, rejectIf_eq_ok, not_lt, Bool.not_eq_true,
    Option.any_eq_false, decide_eq_false_iff_not, estate_get_eq_ok, estate_modify_eq_ok] at h
  obtain ⟨_, _, ⟨rfl, rfl⟩, _, _, ⟨htime, rfl⟩, _, _, ⟨hstart, rfl⟩, rfl⟩ := h
  exact ⟨htime, hstart, rfl⟩

/-- Finishing an active run, with the outputs of a completed one. -/
theorem advances_of_finish (ids : List OutboundDeliveryId) (h : finish status time run = .ok u run')
    (hstatus : statusDescends status run.status = true) (hterminal : status.isTerminal = true)
    (hcompleted : status = .completed → run.status = .running ∧ ids.Nodup)
    (hother : status ≠ .completed → ids = run.outputDeliveryIds) :
    run.Advances time { run' with outputDeliveryIds := ids } := by
  obtain ⟨htime, hstart, rfl⟩ := finish_eq_ok h
  refine ⟨⟨rfl, rfl, rfl, le_max_left _ _, hother, hstatus, fun _ ↦ rfl⟩, rfl, fun hvalid ↦ ?_⟩
  have houtputs := hvalid.outputs_of_active (previous_active_of_statusDescends hstatus)
  refine ⟨?_, fun hne ↦ (hother hne).trans houtputs, hvalid.created_le.trans (le_max_left _ _),
    ?_, ?_, ?_⟩
  · by_cases heq : status = .completed
    · exact (hcompleted heq).2
    · rw [hother heq]
      exact hvalid.outputs_nodup
  · exact fun start hstart ↦ ⟨(hvalid.started start hstart).1,
      (hvalid.started start hstart).2.trans (le_max_left _ _)⟩
  · rintro _ ⟨⟩
    exact ⟨htime, hstart, le_max_right _ _⟩
  · have hshape := hvalid.shape
    cases status with
    | pending | running | interrupted => cases hterminal
    | completed =>
      rw [StatusShape, (hcompleted rfl).1] at hshape
      exact ⟨hshape.1, rfl⟩
    | failed | cancelled => exact rfl

theorem completeWithOutputDeliveries_eq_ok
    (h : completeWithOutputDeliveries time ids run = .ok u run') :
    run.Advances time run' ∧ run.status = .running ∧ run'.status = .completed ∧
      run'.finishedAtUnix = some time ∧ run'.outputDeliveryIds = ids := by
  simp only [completeWithOutputDeliveries, estate_bind_eq_ok, question_eq_ok, rejectIf_eq_ok,
    not_not, validateOutputDeliveryIds_eq_ok, estate_get_eq_ok, estate_modify_eq_ok] at h
  obtain ⟨_, _, ⟨rfl, rfl⟩, _, _, ⟨hstatus, rfl⟩, _, _, ⟨⟨hnodup, -⟩, rfl⟩, _, _, hfinish, rfl⟩ := h
  obtain ⟨-, -, rfl⟩ := finish_eq_ok hfinish
  refine ⟨advances_of_finish ids hfinish (by rw [hstatus]; rfl) rfl (fun _ ↦ ⟨hstatus, hnodup⟩) ?_,
    hstatus, rfl, rfl, rfl⟩
  exact fun h ↦ absurd rfl h

theorem complete_eq_ok (h : complete time run = .ok u run') :
    run.Advances time run' ∧ run.status = .running ∧ run'.status = .completed ∧
      run'.outputDeliveryIds = [] := by
  obtain ⟨hadvances, hrunning, hcompleted, -, houtputs⟩ := completeWithOutputDeliveries_eq_ok h
  exact ⟨hadvances, hrunning, hcompleted, houtputs⟩

theorem fail_eq_ok (h : fail time run = .ok u run') :
    run.Advances time run' ∧ run'.status = .failed ∧ run'.outputDeliveryIds = run.outputDeliveryIds := by
  simp only [fail, estate_bind_eq_ok, question_eq_ok, rejectIf_eq_ok, Bool.not_eq_true,
    estate_get_eq_ok] at h
  obtain ⟨_, _, ⟨rfl, rfl⟩, _, _, ⟨hactive, rfl⟩, hfinish⟩ := h
  have hstatus : statusDescends .failed run.status = true := by
    cases hrun : run.status <;> simp_all [RunStatus.isTerminal, statusDescends]
  have hadvances := advances_of_finish run.outputDeliveryIds hfinish hstatus rfl
    (fun h ↦ by cases h) fun _ ↦ rfl
  obtain ⟨-, -, rfl⟩ := finish_eq_ok hfinish
  exact ⟨hadvances, rfl, rfl⟩

theorem cancel_eq_ok (h : cancel time run = .ok u run') :
    run.Advances time run' ∧ run'.status = .cancelled ∧
      run'.outputDeliveryIds = run.outputDeliveryIds := by
  simp only [cancel, estate_bind_eq_ok, question_eq_ok, rejectIf_eq_ok, Bool.not_eq_true,
    estate_get_eq_ok] at h
  obtain ⟨_, _, ⟨rfl, rfl⟩, _, _, ⟨hactive, rfl⟩, hfinish⟩ := h
  have hstatus : statusDescends .cancelled run.status = true := by
    cases hrun : run.status <;> simp_all [RunStatus.isTerminal, statusDescends]
  have hadvances := advances_of_finish run.outputDeliveryIds hfinish hstatus rfl
    (fun h ↦ by cases h) fun _ ↦ rfl
  obtain ⟨-, -, rfl⟩ := finish_eq_ok hfinish
  exact ⟨hadvances, rfl, rfl⟩

end Transitions

end RunRecord

end FerrisBridge
