import FerrisBridge.Bridge.OutboxWorker

/-!
# Ownership of outbound deliveries

The workers have no lock between their calls of the store: a worker owns a delivery from its claim to
its record because the record of the delivery is `Delivering`, and only the owner moves it on. Every
step keeps this, as long as startup reconciliation, which takes such records away, runs while no
worker owns one.
-/

open Foundations

namespace FerrisBridge

/-! ## Ownership -/

/-- The attempt that a worker has claimed and not yet recorded. -/
def WorkerPhase.attempt : WorkerPhase → Option OutboundDeliveryAttempt
  | .idle => none
  | .claimed attempt _ => some attempt
  | .calling attempt _ => some attempt
  | .returned attempt _ _ => some attempt

/-- Every worker owns the delivery of its attempt, alone. -/
structure Workers.Exclusive (maxAttempts : U32) (workers : Workers) : Prop where
  valid : workers.disk.Valid
  held : ∀ worker attempt, (workers.phase worker).attempt = some attempt →
    ∃ record, workers.disk.delivery attempt.deliveryId = some record ∧
      record.status = .delivering ∧ record.deliveryAttempts = attempt.attemptNumber ∧
      attempt.attemptNumber ≤ maxAttempts
  unique : ∀ worker worker' attempt attempt', (workers.phase worker).attempt = some attempt →
    (workers.phase worker').attempt = some attempt' → attempt.deliveryId = attempt'.deliveryId →
      worker = worker'

theorem Disk.delivery_id {disk : Disk} {id : OutboundDeliveryId} {record : OutboundDeliveryRecord}
    (h : disk.delivery id = some record) : record.id = id := by
  obtain ⟨state, -, hfound⟩ := Option.bind_eq_some_iff.mp h
  exact (find_key_eq_some hfound).2

theorem Disk.Valid.delivery {disk : Disk} (hdisk : disk.Valid) {id : OutboundDeliveryId}
    {record : OutboundDeliveryRecord} (h : disk.delivery id = some record) : record.Valid := by
  obtain ⟨state, hstate, hfound⟩ := Option.bind_eq_some_iff.mp h
  exact (hdisk state hstate).deliveries record (find_key_eq_some hfound).1

/-- A call of `reconcile_outbound_deliveries_at_startup`. -/
def Request.reconciles : Request → Bool
  | .method (.reconcileOutboundDeliveriesAtStartup _) => true
  | _ => false

/-- A record in delivery stays unless the call marks it, or reconciles. -/
theorem DeliveryStep.eq_of_delivering {request : Request} {record : OutboundDeliveryRecord}
    {after : Option OutboundDeliveryRecord} (h : DeliveryStep request (some record) after)
    (hdelivering : record.status = .delivering) (hreconciles : request.reconciles = false)
    (hmarks : ∀ method target, request = .method method →
      method.transition ≠ some (record.id, .delivering, target)) : after = some record := by
  cases h with
  | stays => rfl
  | moved hrequest hadvances hmoves =>
    subst hrequest
    cases hmoves with
    | claim hdue =>
      have hnot := OutboundRetryPolicy.attempts_of_isDue _ hdue
      rw [hdelivering] at hnot
      simp at hnot
    | transition htransition =>
      rw [hdelivering] at htransition
      exact absurd htransition (hmarks _ _ rfl)
    | recovery => cases hreconciles

namespace Workers

variable {maxAttempts : U32} {workers : Workers} {worker : ℕ} {phase : WorkerPhase} {disk : Disk}
  {attempt : OutboundDeliveryAttempt}

namespace Exclusive

/-- Workers keep what they own while the file keeps their records. -/
theorem withDisk (h : workers.Exclusive maxAttempts) (hdisk : disk.Valid)
    (hkept : ∀ worker attempt, (workers.phase worker).attempt = some attempt →
      disk.delivery attempt.deliveryId = workers.disk.delivery attempt.deliveryId) :
    (workers.withDisk disk).Exclusive maxAttempts where
  valid := hdisk
  held worker attempt hattempt := by
    obtain ⟨record, hrecord, hspec⟩ := h.held worker attempt hattempt
    exact ⟨record, (hkept worker attempt hattempt).trans hrecord, hspec⟩
  unique := h.unique

/-- A worker may give up what it owns, or keep it in its next phase. -/
theorem enter (h : workers.Exclusive maxAttempts)
    (hphase : ∀ attempt, phase.attempt = some attempt →
      (workers.phase worker).attempt = some attempt) :
    (workers.enter worker phase).Exclusive maxAttempts := by
  have hold : ∀ other attempt, ((workers.enter worker phase).phase other).attempt = some attempt →
      (workers.phase other).attempt = some attempt := by
    intro other attempt hattempt
    rcases Workers.of_enter (·.attempt = some attempt) hattempt with hkept | ⟨rfl, hentered⟩
    · exact hkept
    · exact hphase attempt hentered
  exact {
    valid := h.valid
    held := fun other attempt hattempt ↦ h.held other attempt (hold other attempt hattempt)
    unique := fun other other' attempt attempt' hattempt hattempt' ↦
      h.unique other other' attempt attempt' (hold other attempt hattempt)
        (hold other' attempt' hattempt') }

/-- A worker may take a record in delivery that nobody owns. -/
theorem acquire (h : workers.Exclusive maxAttempts) {record : OutboundDeliveryRecord}
    (hphase : phase.attempt = some attempt)
    (hrecord : workers.disk.delivery attempt.deliveryId = some record)
    (hdelivering : record.status = .delivering)
    (hnumber : record.deliveryAttempts = attempt.attemptNumber)
    (hbound : attempt.attemptNumber ≤ maxAttempts)
    (hfree : ∀ other attempt', (workers.phase other).attempt = some attempt' →
      attempt'.deliveryId ≠ attempt.deliveryId) :
    (workers.enter worker phase).Exclusive maxAttempts := by
  have hcases : ∀ other attempt', ((workers.enter worker phase).phase other).attempt = some attempt' →
      other = worker ∧ attempt' = attempt ∨
        (workers.phase other).attempt = some attempt' ∧ attempt'.deliveryId ≠ attempt.deliveryId := by
    intro other attempt' hattempt'
    rcases Workers.of_enter (·.attempt = some attempt') hattempt' with hkept | ⟨rfl, hentered⟩
    · exact .inr ⟨hkept, hfree other attempt' hkept⟩
    · rw [hphase] at hentered
      exact .inl ⟨rfl, (Option.some.inj hentered).symm⟩
  refine ⟨h.valid, fun other attempt' hattempt' ↦ ?_,
    fun other other' first second hfirst hsecond hid ↦ ?_⟩
  · rcases hcases other attempt' hattempt' with ⟨-, rfl⟩ | ⟨hheld, -⟩
    · exact ⟨record, hrecord, hdelivering, hnumber, hbound⟩
    · exact h.held other attempt' hheld
  · rcases hcases other first hfirst with ⟨rfl, rfl⟩ | ⟨hheld, hne⟩ <;>
      rcases hcases other' second hsecond with ⟨rfl, rfl⟩ | ⟨hheld', hne'⟩
    · rfl
    · exact absurd hid.symm hne'
    · exact absurd hid hne
    · exact h.unique other other' first second hheld hheld' hid

end Exclusive

end Workers

/-! ## Steps -/

/-- A step that reconciles outbound deliveries. -/
def WorkerAction.reconciles : WorkerAction → Bool
  | .call made _ => made.request.reconciles
  | _ => false

/-- A reconciliation runs only while no worker is in a busy phase. -/
def ReconcilesOutside (busy : WorkerPhase → Bool) (e : WorkerEntry) : Prop :=
  e.input.reconciles = true → ∀ worker, busy (e.before.phase worker) = false

def WorkerPhase.isCalling : WorkerPhase → Bool
  | .calling _ _ => true
  | _ => false

/-- The adapter has not answered an attempt that the worker has claimed. -/
def WorkerPhase.isUnanswered : WorkerPhase → Bool
  | .claimed _ _ | .calling _ _ => true
  | _ => false

/-- A worker owns a delivery from its claim until its record. -/
def WorkerPhase.isOwner (phase : WorkerPhase) : Bool := phase.attempt.isSome

namespace OutboxWorker

variable {self : OutboxWorker} {workers : Workers} {action : WorkerAction} {e : WorkerEntry}
  {actions : List WorkerAction} {disk : Disk}

/-- The method that records an outcome makes a transition of the delivery from `Delivering`. -/
theorem transition_outcomeMethod (attempt : OutboundDeliveryAttempt) (time : U64)
    (adapterResult : AdapterResult) : ∃ target, target ≠ .delivering ∧
      (outcomeMethod attempt time adapterResult).transition =
        some (attempt.deliveryId, .delivering, target) ∧
      (Request.method (outcomeMethod attempt time adapterResult)).reconciles = false := by
  match adapterResult with
  | .ok _ => exact ⟨.delivered, nofun, rfl, rfl⟩
  | .error ⟨.retryable, _⟩ => exact ⟨.failed, nofun, rfl, rfl⟩
  | .error ⟨.uncertain, _⟩ => exact ⟨.uncertain, nofun, rfl, rfl⟩

/-- A call by someone else makes no transition from `Delivering`. -/
theorem transition_of_others {method : Method} (h : (Request.method method).byWorkers = false)
    (id : OutboundDeliveryId) (target : OutboundDeliveryStatus) :
    method.transition ≠ some (id, .delivering, target) := by
  cases method <;> simp_all [Request.byWorkers, Method.transition]

/-- A worker that claims a delivery takes one that nobody owns. -/
theorem exclusive_claim {worker : ℕ} {io : Io} {startedAtUnix : U64}
    (h : workers.Exclusive self.retryPolicy.maxAttempts) (hphase : workers.phase worker = .idle) :
    (self.step (.claim worker io startedAtUnix) workers).2.Exclusive
      self.retryPolicy.maxAttempts := by
  simp only [step, hphase]
  have hcall := self.stateStore.call_effect io
    (.method (.claimNextOutboundDeliveryAttempt startedAtUnix self.retryPolicy)) workers.disk
  have hvalid := (hcall.evolves h.valid).1
  have hstep := self.stateStore.call_delivery io
    (.method (.claimNextOutboundDeliveryAttempt startedAtUnix self.retryPolicy)) h.valid
  rw [← claim_disk] at hvalid hstep
  have hkept := h.withDisk hvalid fun other attempt hattempt ↦ by
    obtain ⟨record, hrecord, hdelivering, -⟩ := h.held other attempt hattempt
    have := hstep attempt.deliveryId
    rw [hrecord] at this ⊢
    refine this.eq_of_delivering hdelivering rfl ?_
    rintro _ target ⟨⟩
    intro h
    cases h
  cases hclaim : outcome (self.claim io startedAtUnix workers.disk) with
  | error err => exact hkept.enter fun _ h ↦ by cases h
  | ok claimed =>
    cases claimed with
    | none => exact hkept.enter fun _ h ↦ by cases h
    | some attempt =>
      obtain ⟨before, after, hbefore, hafter, hdue, hadvances, hdelivering, hnumber⟩ :=
        StateStore.claim_eq_ok h.valid (claim_eq_ok hclaim)
      have hbound := OutboundRetryPolicy.attempts_le (h.valid.delivery hbefore) hdue hadvances
        hdelivering
      refine hkept.acquire rfl hafter hdelivering hnumber (hnumber ▸ hbound)
        fun other attempt' hattempt' hid ↦ ?_
      obtain ⟨record, hrecord, hdelivering', -⟩ := h.held other attempt' hattempt'
      rw [hid, hbefore] at hrecord
      obtain rfl := Option.some.inj hrecord
      have hnot := self.retryPolicy.attempts_of_isDue hdue
      rw [hdelivering'] at hnot
      simp at hnot

/-- A worker that records an outcome gives up its own delivery, and leaves those of the others. -/
theorem exclusive_record {worker : ℕ} {io : Io} {nowUnix startedAtUnix : U64}
    {attempt : OutboundDeliveryAttempt} {adapterResult : AdapterResult}
    (h : workers.Exclusive self.retryPolicy.maxAttempts)
    (hphase : workers.phase worker = .returned attempt startedAtUnix adapterResult) :
    (self.step (.record worker io nowUnix) workers).2.Exclusive self.retryPolicy.maxAttempts := by
  simp only [step, hphase]
  have hheld : (workers.phase worker).attempt = some attempt := by rw [hphase]; rfl
  have hcall := self.stateStore.call_effect io (.method
    (outcomeMethod attempt (max nowUnix startedAtUnix) adapterResult)) workers.disk
  have hvalid := (hcall.evolves h.valid).1
  have hstep := self.stateStore.call_delivery io (.method
    (outcomeMethod attempt (max nowUnix startedAtUnix) adapterResult)) h.valid
  rw [← self.record_disk] at hvalid hstep
  obtain ⟨target, -, htransition, hreconciles⟩ :=
    transition_outcomeMethod attempt (max nowUnix startedAtUnix) adapterResult
  have hreleased : (workers.enter worker .idle).Exclusive self.retryPolicy.maxAttempts :=
    h.enter fun _ h ↦ by cases h
  refine hreleased.withDisk hvalid fun other attempt' hattempt' ↦ ?_
  obtain ⟨record, hrecord, hdelivering, -⟩ := hreleased.held other attempt' hattempt'
  have hother : other ≠ worker := by
    rintro rfl
    rw [Workers.enter_phase_self] at hattempt'
    cases hattempt'
  rw [Workers.enter_phase_of_ne hother] at hattempt'
  change _ = workers.disk.delivery _
  change workers.disk.delivery _ = _ at hrecord
  have := hstep attempt'.deliveryId
  rw [hrecord] at this ⊢
  refine this.eq_of_delivering hdelivering hreconciles ?_
  rintro _ target' ⟨⟩ htransition'
  rw [htransition, Disk.delivery_id hrecord] at htransition'
  simp only [Option.some.injEq, Prod.mk.injEq] at htransition'
  exact hother (h.unique other worker attempt' attempt hattempt' hheld htransition'.1.symm)

/-- Every step keeps the deliveries exclusive, if no delivery is reconciled while a worker owns
one. -/
theorem exclusive_step (h : workers.Exclusive self.retryPolicy.maxAttempts)
    (hreconciles : ReconcilesOutside WorkerPhase.isOwner (stepEntry self.step workers action)) :
    (self.step action workers).2.Exclusive self.retryPolicy.maxAttempts := by
  cases action with
  | claim worker io startedAtUnix =>
    cases hphase : workers.phase worker with
    | claimed | calling | returned => simpa only [step, hphase] using h
    | idle => exact exclusive_claim h hphase
  | handOver worker =>
    cases hphase : workers.phase worker with
    | claimed attempt startedAtUnix =>
      simp only [step, hphase]
      exact h.enter fun _ hattempt ↦ hphase ▸ hattempt
    | idle | calling | returned => simpa only [step, hphase] using h
  | answer worker deliverOutboundMessage =>
    cases hphase : workers.phase worker with
    | calling attempt startedAtUnix =>
      simp only [step, hphase]
      exact h.enter fun _ hattempt ↦ hphase ▸ hattempt
    | idle | claimed | returned => simpa only [step, hphase] using h
  | record worker io nowUnix =>
    cases hphase : workers.phase worker with
    | idle | claimed | calling => simpa only [step, hphase] using h
    | returned attempt startedAtUnix adapterResult => exact exclusive_record h hphase
  | call call others =>
    have hcall := self.stateStore.call_effect call.io call.request workers.disk
    refine h.withDisk (hcall.evolves h.valid).1 fun worker attempt hattempt ↦ ?_
    obtain ⟨record, hrecord, hdelivering, -⟩ := h.held worker attempt hattempt
    have hstep := self.stateStore.call_delivery call.io call.request h.valid attempt.deliveryId
    rw [hrecord] at hstep ⊢
    refine hstep.eq_of_delivering hdelivering ?_ fun method target hrequest ↦ ?_
    · by_contra hrec
      have hfree : (workers.phase worker).attempt.isSome = false :=
        hreconciles (eq_true_of_ne_false hrec) worker
      rw [hattempt] at hfree
      cases hfree
    · rw [hrequest] at others
      exact transition_of_others others _ _

/-- A step lets the visible state evolve. -/
theorem step_evolves (h : workers.disk.Valid) : (self.step action workers).2.disk.Valid ∧
    workers.disk.Evolves (self.step action workers).2.disk := by
  rw [self.step_disk]
  cases self.storeCall action workers with
  | none => exact ⟨h, .refl _⟩
  | some call => exact StateStore.step_evolves call h

/-- What a step does to the record of a delivery. -/
theorem step_delivery (self : OutboxWorker) (action : WorkerAction) (h : workers.disk.Valid)
    (id : OutboundDeliveryId) :
    workers.disk.delivery id = (self.step action workers).2.disk.delivery id ∨
      ∃ call, self.storeCall action workers = some call ∧
        DeliveryStep call.request (workers.disk.delivery id)
          ((self.step action workers).2.disk.delivery id) := by
  rw [self.step_disk]
  cases hcall : self.storeCall action workers with
  | none => exact .inl rfl
  | some call => exact .inr ⟨call, rfl, self.stateStore.call_delivery call.io call.request h id⟩

/-- A worker that has claimed an attempt had already claimed it, or claims it in this step. -/
theorem claim_of_claimed {worker : ℕ} {attempt : OutboundDeliveryAttempt} {time : U64}
    (h : (self.step action workers).2.phase worker = .claimed attempt time) :
    workers.phase worker = .claimed attempt time ∨ ∃ io, action = .claim worker io time ∧
      outcome (self.claim io time workers.disk) = .ok (some attempt) ∧
      (self.step action workers).2.disk = finalState (self.claim io time workers.disk) := by
  have hentered : ∀ {other : ℕ} {phase : WorkerPhase} {disk : Disk},
      ((workers.withDisk disk).enter other phase).phase worker = .claimed attempt time →
        workers.phase worker = .claimed attempt time ∨
          worker = other ∧ phase = .claimed attempt time :=
    Workers.of_enter (· = .claimed attempt time)
  cases action with
  | claim other io startedAtUnix =>
    cases hphase : workers.phase other with
    | claimed | calling | returned =>
      simp only [step, hphase] at h
      exact .inl h
    | idle =>
      simp only [step, hphase] at h ⊢
      refine (hentered h).imp_right ?_
      rintro ⟨rfl, hclaimed⟩
      unfold phaseOfClaim at hclaimed
      split at hclaimed
      · rename_i hclaim
        obtain ⟨rfl, rfl⟩ := WorkerPhase.claimed.inj hclaimed
        exact ⟨io, rfl, hclaim, rfl⟩
      · cases hclaimed
  | handOver other =>
    cases hphase : workers.phase other with
    | idle | calling | returned =>
      simp only [step, hphase] at h
      exact .inl h
    | claimed =>
      simp only [step, hphase] at h
      exact (hentered h).imp_right fun hclaimed ↦ by cases hclaimed.2
  | answer other deliverOutboundMessage =>
    cases hphase : workers.phase other with
    | idle | claimed | returned =>
      simp only [step, hphase] at h
      exact .inl h
    | calling =>
      simp only [step, hphase] at h
      exact (hentered h).imp_right fun hclaimed ↦ by cases hclaimed.2
  | record other io nowUnix =>
    cases hphase : workers.phase other with
    | idle | claimed | calling =>
      simp only [step, hphase] at h
      exact .inl h
    | returned =>
      simp only [step, hphase] at h
      exact (hentered h).imp_right fun hclaimed ↦ by cases hclaimed.2
  | call made others => exact .inl h

end OutboxWorker

end FerrisBridge
