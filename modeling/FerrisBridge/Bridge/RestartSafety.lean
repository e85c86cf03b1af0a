import FerrisBridge.Bridge.Restart

/-!
# Handoff across restarts

Handoff of outbound deliveries is safe across restarts as well, if deliveries are reconciled only
while no worker owns one. A crash can lose what is not durable, but never the record of an attempt
that a worker owns: the delivery is still in delivery when the workers start again, so that nobody
claims it until it has been reconciled and resolved.
-/

open Foundations

namespace FerrisBridge

/-! ## Ownership that is durable -/

/-- Every worker owns the delivery of its attempt alone, and its record is durable. -/
structure Workers.Owning (maxAttempts : U32) (workers : Workers) : Prop where
  exclusive : workers.Exclusive maxAttempts
  recoverable : workers.disk.Recoverable
  owned : ∀ worker attempt, (workers.phase worker).attempt = some attempt →
    workers.disk.durableDelivery attempt.deliveryId = workers.disk.delivery attempt.deliveryId

/-- Workers that start own nothing. -/
theorem Workers.owning_starting (maxAttempts : U32) {disk : Disk} (h : disk.Recoverable) :
    (Workers.starting disk).Owning maxAttempts where
  exclusive := { valid := h.valid
                 held := fun _ _ h ↦ by cases h
                 unique := fun _ _ _ _ h ↦ by cases h }
  recoverable := h
  owned _ _ h := by cases h

namespace Workers.Owning

variable {maxAttempts : U32} {workers : Workers} {worker : ℕ} {attempt : OutboundDeliveryAttempt}

/-- The durable record of a delivery that a worker owns. -/
theorem record (h : workers.Owning maxAttempts)
    (hattempt : (workers.phase worker).attempt = some attempt) :
    ∃ record, workers.disk.delivery attempt.deliveryId = some record ∧
      workers.disk.durableDelivery attempt.deliveryId = some record ∧
      record.status = .delivering ∧ record.deliveryAttempts = attempt.attemptNumber := by
  obtain ⟨record, hrecord, hdelivering, hnumber, -⟩ := h.exclusive.held worker attempt hattempt
  exact ⟨record, hrecord, (h.owned worker attempt hattempt).trans hrecord, hdelivering, hnumber⟩

/-- What is durable is kept while the attempt is owned. -/
theorem owned_of_persists {workers' : Workers} (h : workers.Owning maxAttempts)
    (hattempt : (workers.phase worker).attempt = some attempt)
    (hexclusive : workers'.Exclusive maxAttempts) (hrecoverable : workers'.disk.Recoverable)
    (hattempt' : (workers'.phase worker).attempt = some attempt)
    (hpersists : workers.disk.Persists workers'.disk) :
    workers'.disk.durableDelivery attempt.deliveryId =
      workers'.disk.delivery attempt.deliveryId := by
  obtain ⟨record, -, hdurable, -, hnumber⟩ := h.record hattempt
  obtain ⟨kept, hkept, hevolves⟩ := hpersists.durableDelivery hdurable
  obtain ⟨shown, hshown, hevolves'⟩ := hrecoverable.delivery hkept
  obtain ⟨_, hheld, hdelivering, hnumber', -⟩ := hexclusive.held worker attempt hattempt'
  obtain rfl := Option.some.inj (hshown.symm.trans hheld)
  have hattempts : shown.deliveryAttempts ≤ kept.deliveryAttempts := by
    rw [hnumber', ← hnumber]
    exact hevolves.attempts_le
  rw [hkept, hshown, hevolves'.eq_of_delivering hdelivering hattempts]

end Workers.Owning

/-! ## Delivered for good -/

/-- The record of a delivery is durably `Delivered`. -/
def Disk.DurablyDelivered (disk : Disk) (id : OutboundDeliveryId) : Prop :=
  ∃ record, disk.durableDelivery id = some record ∧ record.status = .delivered

theorem Disk.DurablyDelivered.persists {disk disk' : Disk} {id : OutboundDeliveryId}
    (h : disk.DurablyDelivered id) (hpersists : disk.Persists disk') :
    disk'.DurablyDelivered id := by
  obtain ⟨record, hrecord, hdelivered⟩ := h
  obtain ⟨record', hrecord', hevolves⟩ := hpersists.durableDelivery hrecord
  rw [hevolves.eq_of_delivered hdelivered] at hrecord'
  exact ⟨record, hrecord', hdelivered⟩

/-- What an update that delivers a delivery returns. -/
theorem RuntimeState.delivered_of_update {update : EStateM String OutboundDeliveryRecord Unit}
    {state state' : RuntimeState} {id : OutboundDeliveryId} {now : U64}
    {record : OutboundDeliveryRecord}
    (h : updateOutboundDelivery id now update state = .ok record state')
    (hupdate : ∀ previous, update previous = .ok () record →
      previous.Advances record ∧ record.status = .delivered) :
    record.id = id ∧ record.status = .delivered := by
  obtain ⟨_, previous, _, -, -, hfound, hprevious⟩ := RuntimeState.updateOutboundDelivery_eq_ok h
  obtain ⟨hadvances, hdelivered⟩ := hupdate previous hprevious
  exact ⟨hadvances.id_eq.trans (find_key_eq_some hfound).2, hdelivered⟩

namespace StateStore

variable {self : StateStore} {io : Io} {disk disk' : Disk} {id : OutboundDeliveryId} {time : U64}
  {reply : Reply}

/-- A record that a call returns as delivered is so durably. -/
theorem durablyDelivered_of_call {method : Method} {record : OutboundDeliveryRecord}
    (hdisk : disk.Valid) (hcall : self.call io (.method method) disk = .ok reply disk')
    (hreply : method.acknowledged reply = some (.delivery record))
    (hdelivered : record.status = .delivered) : disk'.DurablyDelivered record.id := by
  obtain ⟨state, hdurable, record', hrecord', hevolves⟩ := durable_of_call hdisk hcall hreply
  rw [hevolves.eq_of_delivered hdelivered] at hrecord'
  refine ⟨record, ?_, hdelivered⟩
  rw [Disk.durableDelivery, Disk.delivery, Disk.crash, Option.mem_def.mp hdurable]
  exact hrecord'

/-- A delivery that is marked delivered is so durably when the call returns. -/
theorem durablyDelivered_of_mark (hdisk : disk.Valid)
    (h : self.call io (.method (.markOutboundDeliveryDelivered id time)) disk = .ok reply disk') :
    disk'.DurablyDelivered id := by
  obtain ⟨commit, state, hreplying, -⟩ := self.method_eq_ok hdisk h
  obtain ⟨record, hwork, rfl⟩ := replying_eq_ok.mp hreplying
  obtain ⟨rfl, hdelivered⟩ := RuntimeState.delivered_of_update (writing_eq_ok hwork).1
    fun _ hprevious ↦
      (OutboundDeliveryRecord.advances_of_markDelivered hprevious).imp_right And.right
  exact durablyDelivered_of_call hdisk h rfl hdelivered

/-- A delivery that is resolved as delivered, or has been before, is so durably when the call returns. -/
theorem durablyDelivered_of_resolve (hdisk : disk.Valid)
    (h : self.call io (.method (.resolveOutboundDeliveryAsDelivered id time)) disk =
      .ok reply disk') : disk'.DurablyDelivered id := by
  obtain ⟨commit, state, hreplying, -⟩ := self.method_eq_ok hdisk h
  obtain ⟨record, hwork, rfl⟩ := replying_eq_ok.mp hreplying
  have hrecord : record.id = id ∧ record.status = .delivered := by
    rcases resolveOutboundDeliveryAsDelivered_eq_ok hwork with
      ⟨hresolve, -⟩ | ⟨-, -, hfound, hdelivered, -⟩
    · exact RuntimeState.delivered_of_update hresolve fun _ hprevious ↦
        (OutboundDeliveryRecord.advances_of_resolveUncertainAsDelivered hprevious).imp_right And.right
    · exact ⟨(find_key_eq_some hfound).2, hdelivered⟩
  obtain ⟨rfl, hdelivered⟩ := hrecord
  exact durablyDelivered_of_call hdisk h rfl hdelivered

end StateStore

namespace OutboxWorker

variable {self : OutboxWorker} {disk : Disk} {actions : List RestartAction} {e later : RestartEntry}
  {workers : Workers} {action : WorkerAction} {attempt attempt' : OutboundDeliveryAttempt}

/-- A worker that owns an attempt has owned it before, or claims it in this step. -/
theorem attempt_of_step {worker : ℕ} (h : workers.disk.Valid)
    (hattempt : ((self.step action workers).2.phase worker).attempt = some attempt) :
    (workers.phase worker).attempt = some attempt ∨
      Claims self.retryPolicy workers.disk (self.step action workers).2.disk attempt := by
  have hentered : ∀ {other : ℕ} {phase : WorkerPhase} (disk : Disk),
      (((workers.withDisk disk).enter other phase).phase worker).attempt = some attempt →
        (workers.phase worker).attempt = some attempt ∨
          worker = other ∧ phase.attempt = some attempt := fun _ ↦
    Workers.of_enter (·.attempt = some attempt)
  cases action with
  | claim other io startedAtUnix =>
    cases hphase : workers.phase other with
    | claimed | calling | returned =>
      simp only [step, hphase] at hattempt
      exact .inl hattempt
    | idle =>
      simp only [step, hphase] at hattempt ⊢
      refine (hentered _ hattempt).imp_right ?_
      rintro ⟨-, hclaimed⟩
      cases hresult : outcome (self.claim io startedAtUnix workers.disk) with
      | error err =>
        rw [hresult] at hclaimed
        cases hclaimed
      | ok claimed =>
        rw [hresult] at hclaimed
        cases claimed with
        | none => cases hclaimed
        | some attempt' =>
          obtain rfl := Option.some.inj hclaimed
          exact claims_of_claim h hresult
  | handOver other =>
    cases hphase : workers.phase other with
    | idle | calling | returned =>
      simp only [step, hphase] at hattempt
      exact .inl hattempt
    | claimed attempt' startedAtUnix =>
      simp only [step, hphase] at hattempt
      refine .inl ((hentered workers.disk hattempt).elim id ?_)
      rintro ⟨rfl, hphase'⟩
      rw [hphase]
      exact hphase'
  | answer other deliverOutboundMessage =>
    cases hphase : workers.phase other with
    | idle | claimed | returned =>
      simp only [step, hphase] at hattempt
      exact .inl hattempt
    | calling attempt' startedAtUnix =>
      simp only [step, hphase] at hattempt
      refine .inl ((hentered workers.disk hattempt).elim id ?_)
      rintro ⟨rfl, hphase'⟩
      rw [hphase]
      exact hphase'
  | record other io nowUnix =>
    cases hphase : workers.phase other with
    | idle | claimed | calling =>
      simp only [step, hphase] at hattempt
      exact .inl hattempt
    | returned =>
      simp only [step, hphase] at hattempt
      refine .inl ((hentered _ hattempt).elim id ?_)
      rintro ⟨-, hphase'⟩
      cases hphase'
  | call made others => exact .inl hattempt

/-! ## Steps -/

/-- A step of the workers keeps ownership, unless it reconciles deliveries that somebody owns. -/
theorem owning_step (h : workers.Owning self.retryPolicy.maxAttempts)
    (hreconciles : ReconcilesOutside WorkerPhase.isOwner (stepEntry self.step workers action)) :
    (self.step action workers).2.Owning self.retryPolicy.maxAttempts := by
  have hexclusive := exclusive_step h.exclusive hreconciles
  obtain ⟨hrecoverable, hpersists⟩ := self.step_recoverable action h.recoverable
  refine ⟨hexclusive, hrecoverable, fun worker attempt hattempt ↦ ?_⟩
  rcases attempt_of_step h.exclusive.valid hattempt with hkept | hclaims
  · exact h.owned_of_persists hkept hexclusive hrecoverable hattempt hpersists
  · rw [Disk.durableDelivery, Disk.delivery, Disk.crash, hclaims.durable]
    rfl

/-- Deliveries are reconciled only while no worker owns one. -/
def ReconcilesUnowned (e : RestartEntry) : Prop :=
  ∀ worked, Works e worked → ReconcilesOutside WorkerPhase.isOwner worked

theorem stepWithRestarts_owning {action : RestartAction}
    (h : workers.Owning self.retryPolicy.maxAttempts)
    (hreconciles : ReconcilesUnowned (stepEntry self.stepWithRestarts workers action)) :
    (self.stepWithRestarts action workers).2.Owning self.retryPolicy.maxAttempts := by
  cases action with
  | work work => exact owning_step h (hreconciles (stepEntry self.step workers work) rfl)
  | flush =>
    refine ⟨h.exclusive.withDisk h.recoverable.flush.1.valid fun _ _ _ ↦ rfl,
      h.recoverable.flush.1, fun _ _ _ ↦ rfl⟩
  | exit => exact Workers.owning_starting _ h.recoverable
  | crash => exact Workers.owning_starting _ h.recoverable.crash.1

theorem runWithRestarts_owning (hdisk : disk.Recoverable)
    (hreconciles : ∀ e ∈ self.runWithRestarts disk actions, ReconcilesUnowned e) :
    ∀ e ∈ self.runWithRestarts disk actions, e.before.Owning self.retryPolicy.maxAttempts ∧
      e.after.Owning self.retryPolicy.maxAttempts :=
  (trace_invariant _ _ (Workers.owning_starting _ hdisk)
    (fun _ _ h hallowed ↦ stepWithRestarts_owning h hallowed) hreconciles).1

/-- What a step makes durable had been visible, or is visible after it. -/
theorem step_durable (self : OutboxWorker) (action : WorkerAction) (workers : Workers) :
    (self.step action workers).2.disk.durable = workers.disk.durable ∨
      (self.step action workers).2.disk.durable = (self.step action workers).2.disk.visible := by
  rw [self.step_disk]
  cases self.storeCall action workers with
  | none => exact .inl rfl
  | some call =>
    have heffect := self.stateStore.call_effect call.io call.request workers.disk
    simp only [StateStore.step]
    generalize self.stateStore.call call.io call.request workers.disk = result at heffect
    cases heffect with
    | refused | answered | unconfirmed => exact .inl rfl
    | confirmed | written => exact .inr rfl

/-- A record of a delivery has failed, in the visible or in the durable content. -/
def HasFailed (id : OutboundDeliveryId) (workers : Workers) : Prop :=
  ∃ record, (workers.disk.delivery id = some record ∨
    workers.disk.durableDelivery id = some record) ∧ record.status = .failed

/-- A step in which the delivery fails: a worker records that its adapter has failed, or the delivery is
resolved as failed, and a record that had not failed has failed in the file from then on. -/
structure TurnsFailed (id : OutboundDeliveryId) (e : RestartEntry) : Prop where
  fails : ∃ worked, Works e worked ∧ FailsDelivery id worked
  before : ∀ record, e.before.disk.delivery id = some record → record.status ≠ .failed
  durable_before : ∀ record, e.before.disk.durableDelivery id = some record → record.status ≠ .failed
  after : ∃ record, e.after.disk.delivery id = some record ∧ record.status = .failed

/-- A record fails in a step of the workers that fails the delivery: nothing that stops the workers
makes a record fail. -/
theorem turnsFailed_of_failed {action : RestartAction} {id : OutboundDeliveryId}
    (h : workers.disk.Valid) (hbefore : ¬HasFailed id workers)
    (hafter : HasFailed id (self.stepWithRestarts action workers).2) :
    TurnsFailed id (stepEntry self.stepWithRestarts workers action) := by
  obtain ⟨record, hrecord, hfailed⟩ := hafter
  have hvisible : ∀ record, workers.disk.delivery id = some record → record.status ≠ .failed :=
    fun record hrecord hfailed ↦ hbefore ⟨record, .inl hrecord, hfailed⟩
  have hdurable : ∀ record, workers.disk.durableDelivery id = some record →
      record.status ≠ .failed := fun record hrecord hfailed ↦ hbefore ⟨record, .inr hrecord, hfailed⟩
  cases action with
  | flush => exact absurd ⟨record, hrecord.elim .inl .inl, hfailed⟩ hbefore
  | exit => exact absurd ⟨record, hrecord, hfailed⟩ hbefore
  | crash => exact absurd ⟨record, hrecord.elim .inr .inr, hfailed⟩ hbefore
  | work work =>
    have hshown : (self.step work workers).2.disk.delivery id = some record := by
      rcases hrecord with hrecord | hrecord
      · exact hrecord
      · rcases self.step_durable work workers with hkept | hwritten
        · refine absurd hfailed (hdurable record ?_)
          rw [← hrecord]
          exact congrArg (fun durable : Option RuntimeState ↦ durable.bind (·.outboundDelivery id))
            hkept.symm
        · rw [← hrecord]
          exact congrArg (fun durable : Option RuntimeState ↦ durable.bind (·.outboundDelivery id))
            hwritten.symm
    have hnone : ¬∃ record, workers.disk.delivery id = some record ∧ record.status = .failed := by
      rintro ⟨record, hrecord, hfailed⟩
      exact hvisible record hrecord hfailed
    exact {
      fails := ⟨stepEntry self.step workers work, rfl,
        failsDelivery_of_failed h hnone ⟨record, hshown, hfailed⟩⟩
      before := hvisible
      durable_before := hdurable
      after := ⟨record, hshown, hfailed⟩ }

/-- A worker that is about to call its adapter after a step had claimed the attempt before, or has
claimed it in this step. -/
theorem claimed_of_stepWithRestarts {action : RestartAction} {worker : ℕ} {time : U64}
    (h : workers.disk.Valid)
    (hclaimed : (self.stepWithRestarts action workers).2.phase worker = .claimed attempt time) :
    workers.phase worker = .claimed attempt time ∨
      Claims self.retryPolicy workers.disk (self.stepWithRestarts action workers).2.disk attempt := by
  cases action with
  | work work => exact (claimed_of_step h hclaimed).imp_right (·.1)
  | flush => exact .inl hclaimed
  | exit | crash => cases hclaimed

/-! ## Between two attempts -/

/-- The file is recoverable throughout a run. -/
theorem trace_recoverable (h : workers.disk.Recoverable) :
    ∀ e ∈ trace self.stepWithRestarts workers actions, e.before.disk.Recoverable := by
  intro e he
  exact ((trace_invariant (fun workers : Workers ↦ workers.disk.Recoverable) (fun _ ↦ True) h
    (fun _ action h _ ↦ (self.stepWithRestarts_recoverable action h).1) fun _ _ ↦ trivial).1
    e he).1

/-- What is durable stays so from the start of a run to all of it. -/
theorem trace_persists (h : workers.disk.Recoverable) :
    ∀ e ∈ trace self.stepWithRestarts workers actions, workers.disk.Persists e.before.disk ∧
      e.after.disk.Persists (finalOf self.stepWithRestarts workers actions).disk :=
  (trace_extends (fun workers : Workers ↦ workers.disk.Recoverable)
    (fun workers workers' : Workers ↦ workers.disk.Persists workers'.disk) (fun _ ↦ True) h
    (fun _ ↦ .refl _) (fun _ _ _ ↦ .trans _ _ _)
    (fun _ action h _ ↦ self.stepWithRestarts_recoverable action h) fun _ _ ↦ trivial).2

/-- The claim of an attempt that is handed out later: the delivery had failed, and the number of the
attempt is larger than what had been durable before. -/
theorem exists_claim {workers : Workers} {actions : List RestartAction} {worker worker' : ℕ}
    {time time' : U64} (h : workers.Owning self.retryPolicy.maxAttempts)
    (hcalling : workers.phase worker = .calling attempt time)
    (hclaimed : (finalOf self.stepWithRestarts workers actions).phase worker' =
      .claimed attempt' time')
    (hid : attempt'.deliveryId = attempt.deliveryId) :
    ∃ earlier rest, actions = earlier ++ rest ∧
      HasFailed attempt.deliveryId (finalOf self.stepWithRestarts workers earlier) ∧
      attempt.attemptNumber.toNat <
        durableAttempts (finalOf self.stepWithRestarts workers actions) attempt.deliveryId := by
  have hheld : (workers.phase worker).attempt = some attempt := by rw [hcalling]; rfl
  obtain ⟨first, -, hdurable, hdelivering, hnumber⟩ := h.record hheld
  -- the claim that comes first after the start, where nobody has claimed the delivery
  obtain ⟨claim, hclaim, hnot, other, again, time'', hagain, hid'⟩ := exists_cause
    self.stepWithRestarts _ (fun workers : Workers ↦ ∃ worker again time,
      workers.phase worker = .claimed again time ∧ again.deliveryId = attempt.deliveryId)
    (by
      rintro ⟨other, again, time, hphase, hid'⟩
      have hother : (workers.phase other).attempt = some again := by rw [hphase]; rfl
      obtain rfl := h.exclusive.unique other worker again attempt hother hheld hid'
      cases hphase.symm.trans hcalling)
    ⟨worker', attempt', time', hclaimed, hid⟩
  obtain ⟨hstart, hend⟩ := trace_persists h.recoverable claim hclaim
  have hbefore := trace_recoverable h.recoverable claim hclaim
  obtain ⟨earlier, rest, hsplit, hfinal⟩ := exists_of_mem_trace hclaim
  have hstep := eq_stepEntry_of_mem hclaim
  rw [congrArg Entry.after hstep] at hagain
  rcases claimed_of_stepWithRestarts hbefore.valid hagain with hkept | hclaims
  · exact absurd ⟨other, again, time'', hkept, hid'⟩ hnot
  have hafter : claim.after = (self.stepWithRestarts claim.input claim.before).2 :=
    congrArg Entry.after hstep
  rw [← hafter] at hclaims
  have htakes := hclaims.takes (e := claim) hbefore
  obtain ⟨record, _, hrecord, hdue⟩ := hclaims.due
  rw [hid'] at htakes hrecord
  obtain ⟨_, hkept, hevolves⟩ := hstart.durableDelivery hdurable
  obtain ⟨_, hshown, hevolves'⟩ := hbefore.delivery hkept
  obtain rfl := Option.some.inj (hrecord.symm.trans hshown)
  refine ⟨earlier, _, hsplit, ⟨record, .inl (hfinal ▸ hrecord), ?_⟩, ?_⟩
  · have hfirst : workers.disk.crash.Valid := h.recoverable.durable
    exact failed_of_isDue (hfirst.delivery hdurable) hdelivering (hevolves.trans hevolves')
      (hbefore.valid.delivery hrecord) hdue
  · calc attempt.attemptNumber.toNat
        = durableAttempts workers attempt.deliveryId := by rw [durableAttempts_eq hdurable, hnumber]
      _ ≤ durableAttempts claim.before attempt.deliveryId := durableAttempts_le hstart _
      _ < again.attemptNumber.toNat := htakes.fresh
      _ ≤ durableAttempts claim.after attempt.deliveryId := htakes.counted
      _ ≤ _ := durableAttempts_le hend _

/-- Between two attempts of a delivery a step of the workers turns it failed, and the later attempt has
the larger number, however often the workers are restarted in between. -/
theorem attempts_increasing {front middle back : List RestartEntry} (hdisk : disk.Recoverable)
    (hreconciles : ∀ e ∈ self.runWithRestarts disk actions, ReconcilesUnowned e)
    (hrun : self.runWithRestarts disk actions = front ++ e :: (middle ++ later :: back))
    (hout : attemptOf e = some attempt) (hout' : attemptOf later = some attempt')
    (hid : attempt'.deliveryId = attempt.deliveryId) :
    attempt.attemptNumber < attempt'.attemptNumber ∧
      ∃ failing ∈ middle, TurnsFailed attempt.deliveryId failing := by
  have howning := runWithRestarts_owning hdisk hreconciles
  have he : e ∈ self.runWithRestarts disk actions := by simp [hrun]
  have hlater : later ∈ self.runWithRestarts disk actions := by simp [hrun]
  obtain ⟨between, rfl, hbetween⟩ := trace_between hrun
  have hafter := (howning e he).2
  obtain ⟨worker, time, hcalling⟩ : ∃ worker time, e.after.phase worker = .calling attempt time := by
    obtain ⟨before, action, rfl⟩ := exists_eq_stepEntry he
    obtain ⟨worker, time, -, hcalling⟩ := attemptOf_eq_some hout
    exact ⟨worker, time, hcalling⟩
  obtain ⟨worker', time', hclaimed⟩ :
      ∃ worker time, later.before.phase worker = .claimed attempt' time := by
    obtain ⟨before, action, rfl⟩ := exists_eq_stepEntry hlater
    obtain ⟨worker, time, hclaimed, -⟩ := attemptOf_eq_some hout'
    exact ⟨worker, time, hclaimed⟩
  have hheld' : (later.before.phase worker').attempt = some attempt' := by rw [hclaimed]; rfl
  obtain ⟨last, -, hlast, -, hnumber'⟩ := (howning later hlater).1.record hheld'
  rw [hid] at hlast
  rw [← hbetween] at hclaimed hlast
  obtain ⟨earlier, rest, rfl, hfailed, hlt⟩ := exists_claim hafter hcalling hclaimed hid
  refine ⟨?_, ?_⟩
  · rw [durableAttempts_eq hlast, hnumber'] at hlt
    exact hlt
  have hheld : (e.after.phase worker).attempt = some attempt := by rw [hcalling]; rfl
  obtain ⟨first, hvisible, hdurable, hdelivering, -⟩ := hafter.record hheld
  have hnot : ¬HasFailed attempt.deliveryId e.after := by
    rintro ⟨record, hrecord, hstatus⟩
    have hfirst : record = first := by
      rcases hrecord with hrecord | hrecord
      · exact Option.some.inj (hrecord.symm.trans hvisible)
      · exact Option.some.inj (hrecord.symm.trans hdurable)
    rw [hfirst, hdelivering] at hstatus
    cases hstatus
  obtain ⟨failing, hfailing, hnone, hsome⟩ :=
    exists_cause self.stepWithRestarts _ (HasFailed attempt.deliveryId) hnot hfailed
  have hvalid := (trace_recoverable hafter.recoverable failing hfailing).valid
  refine ⟨failing, by rw [trace_append]; exact List.mem_append_left _ hfailing, ?_⟩
  obtain ⟨before, action, rfl⟩ := exists_eq_stepEntry hfailing
  exact turnsFailed_of_failed hvalid hnone hsome

/-! ## Reports of deliveries -/

/-- A worker that reports a delivery as delivered has marked it so. -/
theorem mark_of_delivered {io : Io} {time : U64} {adapterResult : AdapterResult}
    {id : OutboundDeliveryId} {number : U32}
    (h : outcome (self.record io attempt time adapterResult disk) = .ok (.delivered id number)) :
    attempt.deliveryId = id ∧ ∃ reply, self.stateStore.call io
      (.method (.markOutboundDeliveryDelivered id time)) disk =
        .ok reply (finalState (self.record io attempt time adapterResult disk)) := by
  have hrecord := outcome_eq_ok.mp h
  generalize finalState (self.record io attempt time adapterResult disk) = disk' at hrecord
  match adapterResult with
  | .ok _ =>
    simp only [record, estate_bind_eq_ok, estate_pure_eq_ok, OutboxWorkerOutcome.delivered.injEq]
      at hrecord
    obtain ⟨delivery, _, hmark, ⟨rfl, -⟩, rfl⟩ := hrecord
    refine ⟨rfl, .delivery delivery, (self.stateStore.transact_replying io disk .delivery _).trans ?_⟩
    exact (estate_ok_bind (mapErr_eq_ok.mp hmark)).trans rfl
  | .error ⟨.retryable, _⟩ | .error ⟨.uncertain, _⟩ =>
    simp only [record, estate_bind_eq_ok, estate_pure_eq_ok, reduceCtorEq, false_and, and_false,
      exists_false] at hrecord

/-- The delivery that a worker has reported as delivered, or that a call has resolved as delivered for
its caller. -/
def reportedDelivered (e : RestartEntry) : Option OutboundDeliveryId :=
  match e.input, e.output with
  | _, .worked (.recorded (.ok (.delivered id _))) => some id
  | .work (.call ⟨.method (.resolveOutboundDeliveryAsDelivered id _), _⟩ _),
      .worked (.called (.ok _)) => some id
  | _, _ => none

theorem reportedDelivered_eq_some {id : OutboundDeliveryId} (h : reportedDelivered e = some id) :
    (∃ number, e.output = .worked (.recorded (.ok (.delivered id number)))) ∨
    ∃ time io others reply,
      e.input = .work (.call ⟨.method (.resolveOutboundDeliveryAsDelivered id time), io⟩ others) ∧
        e.output = .worked (.called (.ok reply)) := by
  unfold reportedDelivered at h
  split at h
  case h_1 houtput =>
    obtain rfl := Option.some.inj h
    exact .inl ⟨_, houtput⟩
  case h_2 hinput houtput =>
    obtain rfl := Option.some.inj h
    exact .inr ⟨_, _, _, _, hinput, houtput⟩
  case h_3 => cases h

/-- What a worker reports as delivered is durably delivered. -/
theorem durablyDelivered_of_recorded {id : OutboundDeliveryId} {number : U32}
    (h : workers.disk.Valid)
    (hrecorded : (self.step action workers).1 = .recorded (.ok (.delivered id number))) :
    (self.step action workers).2.disk.DurablyDelivered id := by
  cases action with
  | record worker io nowUnix =>
    cases hphase : workers.phase worker with
    | idle | claimed | calling => simp only [step, hphase, reduceCtorEq] at hrecorded
    | returned attempt startedAtUnix adapterResult =>
      simp only [step, hphase, WorkerEvent.recorded.injEq] at hrecorded ⊢
      obtain ⟨rfl, reply, hcall⟩ := mark_of_delivered hrecorded
      exact StateStore.durablyDelivered_of_mark h hcall
  | claim worker | handOver worker | answer worker =>
    cases hphase : workers.phase worker <;> simp only [step, hphase, reduceCtorEq] at hrecorded
  | call => cases hrecorded

/-- What is reported as delivered is durably delivered. -/
theorem durablyDelivered_of_report {action : RestartAction} {id : OutboundDeliveryId}
    (h : workers.disk.Valid)
    (hreport : reportedDelivered (stepEntry self.stepWithRestarts workers action) = some id) :
    (self.stepWithRestarts action workers).2.disk.DurablyDelivered id := by
  rcases reportedDelivered_eq_some hreport with
    ⟨number, houtput⟩ | ⟨time, io, others, reply, hinput, houtput⟩
  · cases action with
    | flush | exit | crash => cases houtput
    | work work => exact durablyDelivered_of_recorded h (RestartEvent.worked.inj houtput)
  · obtain rfl : action =
      .work (.call ⟨.method (.resolveOutboundDeliveryAsDelivered id time), io⟩ others) := hinput
    have hresult : outcome (self.stateStore.call io
        (.method (.resolveOutboundDeliveryAsDelivered id time)) workers.disk) = .ok reply :=
      WorkerEvent.called.inj (RestartEvent.worked.inj houtput)
    exact StateStore.durablyDelivered_of_resolve h (outcome_eq_ok.mp hresult)

/-! ## Safety -/

/-- Safe handoff of outbound deliveries throughout a run with restarts. -/
structure RestartSafe (entries : List RestartEntry) : Prop where
  one_call : ∀ e ∈ entries, ∀ worker worker' attempt attempt' startedAtUnix startedAtUnix',
    e.after.phase worker = .calling attempt startedAtUnix →
    e.after.phase worker' = .calling attempt' startedAtUnix' →
    attempt.deliveryId = attempt'.deliveryId → worker = worker'
  increasing : ∀ front e middle later back, entries = front ++ e :: (middle ++ later :: back) →
    ∀ attempt ∈ attemptOf e, ∀ attempt' ∈ attemptOf later,
      attempt'.deliveryId = attempt.deliveryId →
        attempt.attemptNumber < attempt'.attemptNumber ∧
        ∃ failing ∈ middle, TurnsFailed attempt.deliveryId failing
  in_doubt : ∀ e ∈ entries, ∀ worker attempt, (e.before.phase worker).attempt = some attempt →
    e.input = .exit ∨ e.input = .crash → ∃ record,
      e.after.disk.delivery attempt.deliveryId = some record ∧ record.status = .delivering ∧
        record.deliveryAttempts = attempt.attemptNumber
  delivered : entries.Pairwise fun e later ↦ ∀ id ∈ reportedDelivered e,
    ∀ attempt ∈ attemptOf later, attempt.deliveryId ≠ id

/-- Handoff is safe in every run with restarts in which outbound deliveries are reconciled only while
no worker owns one, as they are at startup: between two attempts of a delivery it has failed or been
resolved as failed, an attempt that is cut off leaves its delivery in delivery, and what has been
reported as delivered never reaches an adapter again. -/
theorem handoff_safe_across_restarts (self : OutboxWorker) (disk : Disk) (hdisk : disk.Recoverable)
    (actions : List RestartAction)
    (hreconciles : ∀ e ∈ self.runWithRestarts disk actions, ReconcilesUnowned e) :
    RestartSafe (self.runWithRestarts disk actions) := by
  have howning := runWithRestarts_owning hdisk hreconciles
  refine {
    one_call := fun e he worker worker' attempt attempt' _ _ hphase hphase' ↦
      (howning e he).2.exclusive.unique worker worker' attempt attempt' (by rw [hphase]; rfl)
        (by rw [hphase']; rfl)
    increasing := fun front e middle later back hrun attempt hout attempt' hout' hid ↦
      attempts_increasing hdisk hreconciles hrun hout hout' hid
    in_doubt := fun e he worker attempt hattempt hstopped ↦ ?_
    delivered := ?_ }
  · obtain ⟨record, hvisible, hdurable, hdelivering, hnumber⟩ := (howning e he).1.record hattempt
    obtain ⟨before, action, rfl⟩ := exists_eq_stepEntry he
    rcases hstopped with hexit | hcrash
    · obtain rfl : action = .exit := hexit
      exact ⟨record, hvisible, hdelivering, hnumber⟩
    · obtain rfl : action = .crash := hcrash
      exact ⟨record, hdurable, hdelivering, hnumber⟩
  · refine (runWithRestarts_persists hdisk).imp_of_mem ?_
    rintro e later he hlater hpersists id hreport attempt hattempt rfl
    have hafter : e.after.disk.DurablyDelivered attempt.deliveryId := by
      have hvalid := (howning e he).1.recoverable.valid
      obtain ⟨before, action, rfl⟩ := exists_eq_stepEntry he
      exact durablyDelivered_of_report hvalid hreport
    obtain ⟨record, hrecord, hdelivered⟩ := hafter.persists hpersists
    have hbefore := (howning later hlater).1
    obtain ⟨before, action, rfl⟩ := exists_eq_stepEntry hlater
    obtain ⟨worker, time, hclaimed, -⟩ := attemptOf_eq_some hattempt
    have hheld : (before.phase worker).attempt = some attempt := by rw [hclaimed]; rfl
    obtain ⟨held, -, hdurable, hdelivering, -⟩ := hbefore.record hheld
    obtain rfl := Option.some.inj (hrecord.symm.trans hdurable)
    cases hdelivered.symm.trans hdelivering

/-- The reply is cut off in its first attempt, reconciled and resolved, and attempted again. -/
theorem handoff_safe_across_restarts_reply :
    RestartSafe (replyWorker.runWithRestarts replyDisk crashedReply) := by
  refine handoff_safe_across_restarts replyWorker replyDisk recoverable_replyDisk crashedReply ?_
  have hsteps : ∀ e ∈ replyWorker.runWithRestarts replyDisk crashedReply,
      e.input = .work reconcileReply → ∀ worker, (e.before.phase worker).isOwner = false := by
    intro e he hinput
    rcases List.mem_cons.mp he with rfl | he
    · cases hinput
    rcases List.mem_cons.mp he with rfl | he
    · cases hinput
    rcases List.mem_cons.mp he with rfl | he
    · cases hinput
    rcases List.mem_cons.mp he with rfl | he
    · exact fun worker ↦ rfl
    · have hmem := input_mem he
      rw [hinput] at hmem
      simp only [List.mem_cons, List.not_mem_nil, or_false] at hmem
      rcases hmem with h | h | h <;> cases h
  intro e he worked hworked hreconcile worker
  have hinput : e.input = .work worked.input := congrArg Entry.input hworked
  have hmem := input_mem he
  rw [hinput] at hmem
  have hbefore : e.before = worked.before := congrArg Entry.before hworked
  rw [← hbefore]
  refine hsteps e he ?_ worker
  rw [hinput]
  simp only [crashedReply, List.mem_cons, RestartAction.work.injEq, reduceCtorEq, List.not_mem_nil,
    or_false, false_or] at hmem
  rcases hmem with h | h | h | h | h | h <;> rw [h] at hreconcile ⊢ <;> cases hreconcile

end OutboxWorker

end FerrisBridge
