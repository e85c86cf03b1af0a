import FerrisBridge.Bridge.Exclusion

/-!
# Outbound handoff

Workers that share a store and a retry policy never have two adapter calls for one delivery in
flight, and between two attempts of a delivery its record has failed. For this, outbound deliveries
must be reconciled only while no worker owns one; that no adapter call is in flight is not enough.
-/

open Foundations

namespace FerrisBridge

/-! ## What moves a delivery -/

/-- A step that records a retryable failure of a delivery, or resolves it as failed. -/
def FailsDelivery (id : OutboundDeliveryId) (e : WorkerEntry) : Prop :=
  (∃ worker io nowUnix attempt startedAtUnix error, e.input = .record worker io nowUnix ∧
    e.before.phase worker = .returned attempt startedAtUnix (.error ⟨.retryable, error⟩) ∧
    attempt.deliveryId = id) ∨
  ∃ made others resolvedAtUnix reason, e.input = .call made others ∧
    made.request = .method (.resolveOutboundDeliveryAsFailed id resolvedAtUnix reason)

/-- A step that resolves a delivery. -/
def ResolvesDelivery (id : OutboundDeliveryId) (e : WorkerEntry) : Prop :=
  ∃ made others, e.input = .call made others ∧
    ((∃ resolvedAtUnix,
        made.request = .method (.resolveOutboundDeliveryAsDelivered id resolvedAtUnix)) ∨
      ∃ resolvedAtUnix reason,
        made.request = .method (.resolveOutboundDeliveryAsFailed id resolvedAtUnix reason))

namespace OutboxWorker

variable {self : OutboxWorker} {workers : Workers} {action : WorkerAction} {call : Call}
  {method : Method} {id : OutboundDeliveryId} {source target : OutboundDeliveryStatus}

/-- The step behind a transition to `Failed`. -/
theorem failsDelivery_of_transition (hcall : self.storeCall action workers = some call)
    (hrequest : call.request = .method method)
    (htransition : method.transition = some (id, source, .failed)) :
    FailsDelivery id (stepEntry self.step workers action) := by
  cases action with
  | claim worker io startedAtUnix =>
    cases hphase : workers.phase worker <;> simp only [storeCall, hphase, reduceCtorEq] at hcall
    obtain rfl := Option.some.inj hcall
    obtain rfl := Request.method.inj hrequest
    cases htransition
  | handOver | answer => cases hcall
  | record worker io nowUnix =>
    cases hphase : workers.phase worker <;> simp only [storeCall, hphase, reduceCtorEq] at hcall
    rename_i attempt startedAtUnix adapterResult
    obtain rfl := Option.some.inj hcall
    obtain rfl := Request.method.inj hrequest
    cases adapterResult with
    | ok => cases htransition
    | error failure =>
      obtain ⟨_ | _, error⟩ := failure
      · simp only [outcomeMethod, Method.transition, Option.some.injEq, Prod.mk.injEq] at htransition
        exact .inl ⟨worker, io, nowUnix, attempt, startedAtUnix, error, rfl, hphase, htransition.1⟩
      · cases htransition
  | call made others =>
    obtain rfl := Option.some.inj hcall
    rw [hrequest] at others
    cases method with
    | resolveOutboundDeliveryAsFailed id' resolvedAtUnix reason =>
      simp only [Method.transition, Option.some.injEq, Prod.mk.injEq] at htransition
      obtain ⟨rfl, -, -⟩ := htransition
      exact .inr ⟨made, _, resolvedAtUnix, reason, rfl, hrequest⟩
    | markOutboundDeliveryFailed => cases others
    | _ => cases htransition

/-- The step behind a transition from `Uncertain`. -/
theorem resolvesDelivery_of_transition (hcall : self.storeCall action workers = some call)
    (hrequest : call.request = .method method)
    (htransition : method.transition = some (id, .uncertain, target)) :
    ResolvesDelivery id (stepEntry self.step workers action) := by
  cases action with
  | claim worker io startedAtUnix =>
    cases hphase : workers.phase worker <;> simp only [storeCall, hphase, reduceCtorEq] at hcall
    obtain rfl := Option.some.inj hcall
    obtain rfl := Request.method.inj hrequest
    cases htransition
  | handOver | answer => cases hcall
  | record worker io nowUnix =>
    cases hphase : workers.phase worker <;> simp only [storeCall, hphase, reduceCtorEq] at hcall
    rename_i attempt startedAtUnix adapterResult
    obtain rfl := Option.some.inj hcall
    obtain rfl := Request.method.inj hrequest
    obtain ⟨_, -, hdelivering, -⟩ :=
      transition_outcomeMethod attempt (max nowUnix startedAtUnix) adapterResult
    cases hdelivering.symm.trans htransition
  | call made others =>
    obtain rfl := Option.some.inj hcall
    cases method with
    | resolveOutboundDeliveryAsDelivered id' resolvedAtUnix =>
      simp only [Method.transition, Option.some.injEq, Prod.mk.injEq] at htransition
      obtain ⟨rfl, -, -⟩ := htransition
      exact ⟨made, others, rfl, .inl ⟨resolvedAtUnix, hrequest⟩⟩
    | resolveOutboundDeliveryAsFailed id' resolvedAtUnix reason =>
      simp only [Method.transition, Option.some.injEq, Prod.mk.injEq] at htransition
      obtain ⟨rfl, -, -⟩ := htransition
      exact ⟨made, others, rfl, .inr ⟨resolvedAtUnix, reason, hrequest⟩⟩
    | _ => cases htransition

/-- A record becomes `Failed` through a retryable failure or a resolution. -/
theorem failsDelivery_of_failed (h : workers.disk.Valid)
    (hbefore : ¬∃ record, workers.disk.delivery id = some record ∧ record.status = .failed)
    (hafter : ∃ record, (self.step action workers).2.disk.delivery id = some record ∧
      record.status = .failed) : FailsDelivery id (stepEntry self.step workers action) := by
  obtain ⟨record, hrecord, hfailed⟩ := hafter
  rcases self.step_delivery action h id with hkept | ⟨call, hcall, hstep⟩
  · exact absurd ⟨record, hkept.trans hrecord, hfailed⟩ hbefore
  rw [hrecord] at hstep
  generalize hprevious : workers.disk.delivery id = previous at hstep hbefore
  cases hstep with
  | stays => exact absurd ⟨record, rfl, hfailed⟩ hbefore
  | added hpending => cases hpending.symm.trans hfailed
  | moved hrequest hadvances hmoves =>
    cases hmoves with
    | claim _ hdelivering => cases hdelivering.symm.trans hfailed
    | recovery _ huncertain => cases huncertain.symm.trans hfailed
    | transition htransition =>
      rw [Disk.delivery_id hprevious, hfailed] at htransition
      exact failsDelivery_of_transition hcall hrequest htransition

/-- A record that is `Uncertain` stays so, or is resolved. -/
theorem resolvesDelivery_of_uncertain (h : workers.disk.Valid) {record : OutboundDeliveryRecord}
    (hrecord : workers.disk.delivery id = some record) (huncertain : record.status = .uncertain) :
    (self.step action workers).2.disk.delivery id = some record ∨
      ResolvesDelivery id (stepEntry self.step workers action) := by
  rcases self.step_delivery action h id with hkept | ⟨call, hcall, hstep⟩
  · exact .inl (hkept.symm.trans hrecord)
  rw [hrecord] at hstep
  cases hafter : (self.step action workers).2.disk.delivery id with
  | none =>
    rw [hafter] at hstep
    cases hstep
  | some after =>
    rw [hafter] at hstep
    cases hstep with
    | stays => exact .inl rfl
    | moved hrequest hadvances hmoves =>
      refine .inr ?_
      cases hmoves with
      | claim hdue =>
        have hnot := OutboundRetryPolicy.attempts_of_isDue _ hdue
        rw [huncertain] at hnot
        simp at hnot
      | recovery hdelivering => cases hdelivering.symm.trans huncertain
      | transition htransition =>
        rw [Disk.delivery_id hrecord, huncertain] at htransition
        exact resolvesDelivery_of_transition hcall hrequest htransition

end OutboxWorker

/-! ## Safety -/

/-- The attempt that a step hands to an adapter. -/
def handedOut (e : WorkerEntry) : Option OutboundDeliveryAttempt :=
  match e.output with
  | .handedOver attempt => some attempt
  | _ => none

/-- Records stay; their time and attempts never decrease, and a delivered one never changes. -/
def Disk.MovesForward (before after : Disk) : Prop :=
  ∀ id record, before.delivery id = some record → ∃ record', after.delivery id = some record' ∧
    record.updatedAtUnix ≤ record'.updatedAtUnix ∧
    record.deliveryAttempts ≤ record'.deliveryAttempts ∧
    (record.status = .delivered → record' = record)

/-- Safe handoff of outbound deliveries throughout a run. -/
structure HandoffSafe (maxAttempts : U32) (entries : List WorkerEntry) : Prop where
  one_call : ∀ e ∈ entries, ∀ worker worker' attempt attempt' startedAtUnix startedAtUnix',
    e.after.phase worker = .calling attempt startedAtUnix →
    e.after.phase worker' = .calling attempt' startedAtUnix' →
    attempt.deliveryId = attempt'.deliveryId → worker = worker'
  bounded : ∀ e ∈ entries, ∀ attempt ∈ handedOut e, attempt.attemptNumber ≤ maxAttempts
  increasing : ∀ front e middle later back, entries = front ++ e :: (middle ++ later :: back) →
    ∀ attempt ∈ handedOut e, ∀ attempt' ∈ handedOut later,
      attempt.deliveryId = attempt'.deliveryId →
        attempt.attemptNumber < attempt'.attemptNumber ∧
        ∃ failing ∈ middle, FailsDelivery attempt.deliveryId failing ∧
          ∃ record, failing.after.disk.delivery attempt.deliveryId = some record ∧
            record.status = .failed
  uncertain : ∀ e ∈ entries, ∀ id record, e.before.disk.delivery id = some record →
    record.status = .uncertain → e.after.disk.delivery id = some record ∨ ResolvesDelivery id e
  forward : ∀ e ∈ entries, e.before.disk.MovesForward e.after.disk
  forward_run : entries.Pairwise fun e later ↦ e.before.disk.MovesForward later.after.disk

theorem Disk.Evolves.movesForward {before after : Disk} (h : before.Evolves after) :
    before.MovesForward after := by
  intro id record hrecord
  obtain ⟨record', hrecord', hevolves⟩ := h.delivery hrecord
  exact ⟨record', hrecord', hevolves.updated_le, hevolves.attempts_le, hevolves.eq_of_delivered⟩

namespace OutboxWorker

variable {self : OutboxWorker} {disk : Disk} {actions : List WorkerAction} {e : WorkerEntry}
  {attempt : OutboundDeliveryAttempt}

/-- Deliveries are exclusive throughout a run. -/
theorem run_exclusive (hdisk : disk.Valid)
    (hreconciles : ∀ e ∈ self.run disk actions, ReconcilesOutside WorkerPhase.isOwner e) :
    ∀ e ∈ self.run disk actions, e.before.Exclusive self.retryPolicy.maxAttempts ∧
      e.after.Exclusive self.retryPolicy.maxAttempts := by
  have hstarting : (Workers.starting disk).Exclusive self.retryPolicy.maxAttempts :=
    ⟨hdisk, nofun, nofun⟩
  exact (trace_invariant _ _ hstarting (fun _ _ h hallowed ↦ exclusive_step h hallowed) hreconciles).1

/-- The visible state is valid throughout a run. -/
theorem trace_valid {workers : Workers} (h : workers.disk.Valid) :
    ∀ e ∈ trace self.step workers actions, e.before.disk.Valid ∧ e.after.disk.Valid :=
  (trace_invariant (fun workers : Workers ↦ workers.disk.Valid) (fun _ ↦ True) h
    (fun _ _ h _ ↦ (step_evolves h).1) fun _ _ ↦ trivial).1

/-- The visible state evolves from the start of a run to all of it. -/
theorem trace_evolves (self : OutboxWorker) (actions : List WorkerAction) {workers : Workers}
    (h : workers.disk.Valid) :
    workers.disk.Evolves (finalOf self.step workers actions).disk ∧
      ∀ e ∈ trace self.step workers actions, workers.disk.Evolves e.before.disk ∧
        e.after.disk.Evolves (finalOf self.step workers actions).disk :=
  trace_extends (fun workers : Workers ↦ workers.disk.Valid)
    (fun workers workers' ↦ workers.disk.Evolves workers'.disk) (fun _ ↦ True) h
    (fun workers ↦ .refl workers.disk) (fun _ _ _ ↦ .trans _ _ _) (fun _ _ h _ ↦ step_evolves h)
    fun _ _ ↦ trivial

/-- A step that hands an attempt out makes a call of a worker that has claimed it. -/
theorem handedOut_stepEntry {workers : Workers} {action : WorkerAction}
    (h : handedOut (stepEntry self.step workers action) = some attempt) :
    ∃ worker startedAtUnix, workers.phase worker = .claimed attempt startedAtUnix ∧
      (self.step action workers).2.phase worker = .calling attempt startedAtUnix := by
  cases action with
  | handOver worker =>
    cases hphase : workers.phase worker with
    | claimed attempt' startedAtUnix =>
      simp only [handedOut, stepEntry, step, hphase, Option.some.injEq] at h ⊢
      subst h
      exact ⟨worker, startedAtUnix, hphase, Workers.enter_phase_self⟩
    | idle | calling | returned =>
      simp only [handedOut, stepEntry, step, hphase, reduceCtorEq] at h
  | claim worker | answer worker | record worker =>
    cases hphase : workers.phase worker <;>
      simp only [handedOut, stepEntry, step, hphase, reduceCtorEq] at h
  | call => cases h

theorem handedOut_spec (he : e ∈ self.run disk actions) (h : handedOut e = some attempt) :
    ∃ worker startedAtUnix, e.before.phase worker = .claimed attempt startedAtUnix ∧
      e.after.phase worker = .calling attempt startedAtUnix := by
  obtain ⟨before, action, rfl⟩ := exists_eq_stepEntry he
  exact handedOut_stepEntry h

/-- A delivery that has been claimed before has failed when it is due again. -/
theorem failed_of_isDue {earlier before : OutboundDeliveryRecord} {policy : OutboundRetryPolicy}
    {time : U64} (hearlier : earlier.Valid) (hdelivering : earlier.status = .delivering)
    (hevolves : earlier.Evolves before) (hbefore : before.Valid)
    (hdue : policy.isDue before time = true) : before.status = .failed := by
  rcases policy.attempts_of_isDue hdue with hpending | ⟨hfailed, -⟩
  · have hshape := hbefore.shape
    have hshape' := hearlier.shape
    rw [OutboundDeliveryRecord.StatusShape, hpending] at hshape
    rw [OutboundDeliveryRecord.StatusShape, hdelivering] at hshape'
    have hle := Word.le_iff_toNat.mp hevolves.attempts_le
    rw [hshape.1] at hle
    exact absurd (Word.toNat_injective (Nat.le_zero.mp hle)) hshape'.1
  · exact hfailed

/-- When a delivery that a worker delivers is claimed again later, its record has failed before the
new claim, which has counted a further attempt. -/
theorem exists_failed_before_claim {workers : Workers} {maxAttempts : U32} {worker worker' : ℕ}
    {attempt' : OutboundDeliveryAttempt} {time time' : U64} {first last : OutboundDeliveryRecord}
    (hexclusive : workers.Exclusive maxAttempts)
    (hcalling : workers.phase worker = .calling attempt time)
    (hfirst : workers.disk.delivery attempt.deliveryId = some first)
    (hclaimed : (finalOf self.step workers actions).phase worker' = .claimed attempt' time')
    (hid : attempt'.deliveryId = attempt.deliveryId)
    (hlast : (finalOf self.step workers actions).disk.delivery attempt.deliveryId = some last) :
    first.deliveryAttempts < last.deliveryAttempts ∧ ∃ earlier rest, actions = earlier ++ rest ∧
      ∃ record, (finalOf self.step workers earlier).disk.delivery attempt.deliveryId = some record ∧
        record.status = .failed := by
  have hheld : (workers.phase worker).attempt = some attempt := by rw [hcalling]; rfl
  obtain ⟨_, hfirst', hdelivering, -⟩ := hexclusive.held worker attempt hheld
  obtain rfl := Option.some.inj (hfirst.symm.trans hfirst')
  -- the claim that comes first after the start, where nobody has claimed the delivery
  obtain ⟨claim, hclaim, hnot, again, attempt'', time'', hagain, hid'⟩ := exists_cause self.step _
    (fun workers : Workers ↦ ∃ worker again time,
      workers.phase worker = .claimed again time ∧ again.deliveryId = attempt.deliveryId)
    (by
      rintro ⟨other, again, time, hphase, hid'⟩
      have hother : (workers.phase other).attempt = some again := by rw [hphase]; rfl
      obtain rfl := hexclusive.unique other worker again attempt hother hheld hid'
      cases hphase.symm.trans hcalling)
    ⟨worker', attempt', time', hclaimed, hid⟩
  obtain ⟨hstart, hend⟩ := (self.trace_evolves actions hexclusive.valid).2 claim hclaim
  obtain ⟨hvalid, -⟩ := trace_valid hexclusive.valid claim hclaim
  obtain ⟨earlier, rest, hsplit, hbefore⟩ := exists_of_mem_trace hclaim
  have hstep := eq_stepEntry_of_mem hclaim
  rw [congrArg Entry.after hstep] at hagain hend
  rcases claim_of_claimed hagain with hkept | ⟨io, -, hok, hdisk⟩
  · exact absurd ⟨again, attempt'', time'', hkept, hid'⟩ hnot
  obtain ⟨before, after, hfound, hafter, hdue, hadvances, hdelivering', -⟩ :=
    StateStore.claim_eq_ok hvalid (claim_eq_ok hok)
  rw [hid'] at hfound hafter
  obtain ⟨_, hfound', hevolves⟩ := hstart.delivery hfirst
  obtain rfl := Option.some.inj (hfound.symm.trans hfound')
  obtain ⟨_, hlast', hevolves'⟩ :=
    hend.delivery ((congrArg (·.delivery attempt.deliveryId) hdisk).trans hafter)
  obtain rfl := Option.some.inj (hlast.symm.trans hlast')
  refine ⟨?_, earlier, _, hsplit, before, by rw [hbefore]; exact hfound, ?_⟩
  · have hattempts := hadvances.attempts
    rw [if_pos hdelivering'] at hattempts
    have hle := Word.le_iff_toNat.mp hevolves.attempts_le
    have hle' := Word.le_iff_toNat.mp hevolves'.attempts_le
    rw [Word.lt_iff_toNat]
    omega
  · exact failed_of_isDue (hexclusive.valid.delivery hfirst) hdelivering hevolves
      (hvalid.delivery hfound) hdue

/-- A record that fails in the course of a run does so in a step that fails the delivery. -/
theorem exists_failsDelivery {workers : Workers} {id : OutboundDeliveryId} (h : workers.disk.Valid)
    (hbefore : ¬∃ record, workers.disk.delivery id = some record ∧ record.status = .failed)
    (hafter : ∃ record, (finalOf self.step workers actions).disk.delivery id = some record ∧
      record.status = .failed) :
    ∃ failing ∈ trace self.step workers actions, FailsDelivery id failing ∧
      ∃ record, failing.after.disk.delivery id = some record ∧ record.status = .failed := by
  obtain ⟨failing, hfailing, hnot, hfailed⟩ := exists_cause self.step _
    (fun workers : Workers ↦ ∃ record, workers.disk.delivery id = some record ∧
      record.status = .failed) hbefore hafter
  obtain ⟨hvalid, -⟩ := trace_valid h failing hfailing
  refine ⟨failing, hfailing, ?_, hfailed⟩
  obtain ⟨before, action, rfl⟩ := exists_eq_stepEntry hfailing
  exact failsDelivery_of_failed hvalid hnot hfailed

/-- Between two attempts of a delivery its record has become `Failed`, and the later attempt has the
larger number. -/
theorem handedOut_increasing {front middle back : List WorkerEntry} {later : WorkerEntry}
    {attempt' : OutboundDeliveryAttempt} (hdisk : disk.Valid)
    (hreconciles : ∀ e ∈ self.run disk actions, ReconcilesOutside WorkerPhase.isOwner e)
    (hrun : self.run disk actions = front ++ e :: (middle ++ later :: back))
    (hout : handedOut e = some attempt) (hout' : handedOut later = some attempt')
    (hid : attempt.deliveryId = attempt'.deliveryId) :
    attempt.attemptNumber < attempt'.attemptNumber ∧
      ∃ failing ∈ middle, FailsDelivery attempt.deliveryId failing ∧
        ∃ record, failing.after.disk.delivery attempt.deliveryId = some record ∧
          record.status = .failed := by
  have hexclusive := run_exclusive hdisk hreconciles
  have he : e ∈ self.run disk actions := by simp [hrun]
  have hlater : later ∈ self.run disk actions := by simp [hrun]
  obtain ⟨between, rfl, hbetween⟩ := trace_between hrun
  obtain ⟨worker, time, -, hcalling⟩ := handedOut_spec he hout
  obtain ⟨worker', time', hclaimed, -⟩ := handedOut_spec hlater hout'
  obtain ⟨first, hfirst, hdelivering, hnumber, -⟩ :=
    (hexclusive e he).2.held worker attempt (by rw [hcalling]; rfl)
  obtain ⟨last, hlast, -, hnumber', -⟩ :=
    (hexclusive later hlater).1.held worker' attempt' (by rw [hclaimed]; rfl)
  rw [← hbetween] at hclaimed hlast
  rw [← hid] at hlast
  obtain ⟨hlt, earlier, rest, rfl, hfailed⟩ := exists_failed_before_claim (hexclusive e he).2 hcalling
    hfirst hclaimed hid.symm hlast
  refine ⟨hnumber ▸ hnumber' ▸ hlt, ?_⟩
  have hnot : ¬∃ record, e.after.disk.delivery attempt.deliveryId = some record ∧
      record.status = .failed := by
    rintro ⟨record, hrecord, hstatus⟩
    obtain rfl := Option.some.inj (hfirst.symm.trans hrecord)
    cases hdelivering.symm.trans hstatus
  obtain ⟨failing, hfailing, hspec⟩ :=
    exists_failsDelivery (hexclusive e he).2.valid hnot hfailed
  exact ⟨failing, by rw [trace_append]; exact List.mem_append_left _ hfailing, hspec⟩

/-- Handoff is safe in every run in which outbound deliveries are reconciled only while no worker
owns one. -/
theorem outbound_handoff_safe (self : OutboxWorker) (disk : Disk) (actions : List WorkerAction)
    (hdisk : disk.Valid)
    (hreconciles : ∀ e ∈ self.run disk actions, ReconcilesOutside WorkerPhase.isOwner e) :
    HandoffSafe self.retryPolicy.maxAttempts (self.run disk actions) := by
  have hexclusive := run_exclusive hdisk hreconciles
  have hforward : ∀ e ∈ self.run disk actions, e.before.disk.Evolves e.after.disk := by
    intro e he
    have hvalid := (hexclusive e he).1.valid
    obtain ⟨before, action, rfl⟩ := exists_eq_stepEntry he
    exact (step_evolves hvalid).2
  refine {
    one_call := fun e he worker worker' attempt attempt' _ _ hphase hphase' ↦
      (hexclusive e he).2.unique worker worker' attempt attempt' (by rw [hphase]; rfl)
        (by rw [hphase']; rfl)
    bounded := fun e he attempt hout ↦ ?_
    increasing := fun front e middle later back hrun attempt hout attempt' hout' ↦
      handedOut_increasing hdisk hreconciles hrun hout hout'
    uncertain := fun e he id record hrecord huncertain ↦ ?_
    forward := fun e he ↦ (hforward e he).movesForward
    forward_run := ?_ }
  · obtain ⟨worker, startedAtUnix, hclaimed, -⟩ := handedOut_spec he hout
    obtain ⟨-, -, -, -, hbound⟩ :=
      (hexclusive e he).1.held worker attempt (by rw [hclaimed]; rfl)
    exact hbound
  · have hvalid := (hexclusive e he).1.valid
    obtain ⟨before, action, rfl⟩ := exists_eq_stepEntry he
    exact resolvesDelivery_of_uncertain hvalid hrecord huncertain
  · have hpairwise : (self.run disk actions).Pairwise fun e later ↦
        e.after.disk.Evolves later.before.disk :=
      trace_pairwise (fun workers : Workers ↦ workers.disk.Valid)
        (fun workers workers' ↦ workers.disk.Evolves workers'.disk) (fun _ ↦ True) hdisk
        (fun workers ↦ .refl workers.disk) (fun _ _ _ ↦ .trans _ _ _)
        (fun _ _ h _ ↦ step_evolves h) fun _ _ ↦ trivial
    refine hpairwise.imp_of_mem fun {e later} he hlater hbetween ↦ ?_
    exact (((hforward e he).trans _ _ _ hbetween).trans _ _ _ (hforward later hlater)).movesForward

/-! ### Runs of two workers -/

def replyDisk : Disk := ⟨some replyState, some replyState⟩

theorem valid_replyDisk : replyDisk.Valid := by
  rintro _ ⟨⟩
  exact RuntimeState.validate_eq_ok (u := ()) |>.mp rfl

/-- Three attempts, with a delay of a second. -/
def replyWorker : OutboxWorker :=
  ⟨⟨"state.json"⟩, ⟨3, 1, 1, by decide, by decide, by decide⟩⟩

/-- The calls of the store that take the reply away from its worker. -/
def reconcileReply : WorkerAction :=
  .call ⟨.method (.reconcileOutboundDeliveriesAtStartup 2), .untroubled⟩ rfl

@[inherit_doc reconcileReply]
def resolveReply : WorkerAction :=
  .call ⟨.method (.resolveOutboundDeliveryAsFailed pendingReply.id 3 "not accepted"), .untroubled⟩ rfl

theorem outbound_handoff_safe_reply : HandoffSafe 3 (replyWorker.run replyDisk
    [reconcileReply, .claim 0 .untroubled 2, .handOver 0, .answer 0 fun _ ↦ .ok (),
      .record 0 .untroubled 3]) := by
  refine outbound_handoff_safe replyWorker replyDisk _ valid_replyDisk fun e he hreconcile ↦ ?_
  rcases List.mem_cons.mp he with rfl | he
  · exact fun _ ↦ rfl
  · have hinput := input_mem he
    simp only [List.mem_cons, List.not_mem_nil, or_false] at hinput
    rcases hinput with h | h | h | h <;> rw [h] at hreconcile <;> cases hreconcile

/-- The reply is taken from its worker between the claim and the call of the adapter. -/
def takenBeforeCall : List WorkerAction :=
  [.claim 0 .untroubled 1, reconcileReply, resolveReply, .claim 1 .untroubled 4, .handOver 1,
    .handOver 0]

/-- The reply is taken from its worker between the answer of the adapter and the record, which then
ends the attempt of the next worker. -/
def takenBeforeRecord : List WorkerAction :=
  [.claim 0 .untroubled 1, .handOver 0, .answer 0 fun _ ↦ .error ⟨.retryable, "timeout"⟩,
    reconcileReply, resolveReply, .claim 1 .untroubled 4, .handOver 1, .record 0 .untroubled 5,
    .claim 2 .untroubled 6, .handOver 2]

/-- It is not enough that no adapter call is in flight when deliveries are reconciled, not even that
no claimed attempt waits for its answer: two adapter calls for one delivery can be in flight. -/
theorem outbound_handoff_unsafe :
    (¬∀ (self : OutboxWorker) (disk : Disk) (actions : List WorkerAction), disk.Valid →
      (∀ e ∈ self.run disk actions, ReconcilesOutside WorkerPhase.isCalling e) →
        HandoffSafe self.retryPolicy.maxAttempts (self.run disk actions)) ∧
    ¬∀ (self : OutboxWorker) (disk : Disk) (actions : List WorkerAction), disk.Valid →
      (∀ e ∈ self.run disk actions, ReconcilesOutside WorkerPhase.isUnanswered e) →
        HandoffSafe self.retryPolicy.maxAttempts (self.run disk actions) := by
  refine ⟨fun h ↦ ?_, fun h ↦ ?_⟩
  · have hsafe := h replyWorker replyDisk takenBeforeCall valid_replyDisk fun e he ↦ by
      rcases List.mem_cons.mp he with rfl | he
      · nofun
      rcases List.mem_cons.mp he with rfl | he
      · intro _ worker
        by_cases hworker : worker = 0
        · subst hworker
          rfl
        · exact congrArg WorkerPhase.isCalling (Workers.enter_phase_of_ne hworker)
      · have hinput := input_mem he
        simp only [List.mem_cons, List.not_mem_nil, or_false] at hinput
        rcases hinput with hinput | hinput | hinput | hinput <;> intro hreconciles <;>
          rw [hinput] at hreconciles <;> cases hreconciles
    obtain ⟨e, he, hafter⟩ := exists_after_eq_finalOf replyWorker.step
      (.starting replyDisk) (List.cons_ne_nil _ _ : takenBeforeCall ≠ [])
    have hone := hsafe.one_call e he 0 1
    rw [hafter] at hone
    exact absurd (hone _ _ _ _ rfl rfl rfl) (by decide)
  · have hsafe := h replyWorker replyDisk takenBeforeRecord valid_replyDisk fun e he ↦ by
      rcases List.mem_cons.mp he with rfl | he
      · nofun
      rcases List.mem_cons.mp he with rfl | he
      · nofun
      rcases List.mem_cons.mp he with rfl | he
      · nofun
      rcases List.mem_cons.mp he with rfl | he
      · intro _ worker
        by_cases hworker : worker = 0
        · subst hworker
          rfl
        · exact congrArg WorkerPhase.isUnanswered <| (Workers.enter_phase_of_ne hworker).trans <|
            (Workers.enter_phase_of_ne hworker).trans (Workers.enter_phase_of_ne hworker)
      · have hinput := input_mem he
        simp only [List.mem_cons, List.not_mem_nil, or_false] at hinput
        rcases hinput with hinput | hinput | hinput | hinput | hinput | hinput <;>
          intro hreconciles <;> rw [hinput] at hreconciles <;> cases hreconciles
    obtain ⟨e, he, hafter⟩ := exists_after_eq_finalOf replyWorker.step
      (.starting replyDisk) (List.cons_ne_nil _ _ : takenBeforeRecord ≠ [])
    have hone := hsafe.one_call e he 1 2
    rw [hafter] at hone
    exact absurd (hone _ _ _ _ rfl rfl rfl) (by decide)

end OutboxWorker

end FerrisBridge
