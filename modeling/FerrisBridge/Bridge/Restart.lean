import FerrisBridge.Bridge.Handoff
import FerrisBridge.Store.Crashes

/-!
# Workers across restarts

The process of the workers may end at any step, and the machine may crash, which leaves the durable
content of the state file; in both cases the workers that come after it begin with nothing but the
file. A claim is durable before its attempt is handed to an adapter, so that an attempt number is
handed out at most once, whatever is lost and whenever deliveries are reconciled. When deliveries are
reconciled only while no worker owns one, as after a restart, handoff is as safe as without crashes.
-/

open Foundations

namespace FerrisBridge

/-! ## The machine -/

/-- What can happen to workers that may be stopped at any time. The operating system may make the
visible content of the file durable on its own. -/
inductive RestartAction
  | work (action : WorkerAction)
  | flush
  | exit
  | crash

inductive RestartEvent
  | worked (event : WorkerEvent)
  | passed

namespace OutboxWorker

def stepWithRestarts (self : OutboxWorker) (action : RestartAction) (workers : Workers) :
    RestartEvent × Workers :=
  match action with
  | .work action =>
    let result := self.step action workers
    (.worked result.1, result.2)
  | .flush => (.passed, workers.withDisk workers.disk.flush)
  | .exit => (.passed, .starting workers.disk)
  | .crash => (.passed, .starting workers.disk.crash)

end OutboxWorker

abbrev RestartEntry := Entry Workers RestartAction RestartEvent

/-- The steps of workers that start on a file, with everything that stops them. -/
def OutboxWorker.runWithRestarts (self : OutboxWorker) (disk : Disk) (actions : List RestartAction) :
    List RestartEntry :=
  trace self.stepWithRestarts (.starting disk) actions

/-- The entry is a step of the workers. -/
def Works (e : RestartEntry) (worked : WorkerEntry) : Prop :=
  e = ⟨worked.before, .work worked.input, .worked worked.output, worked.after⟩

/-- The attempt that a step hands to an adapter, between restarts as well. -/
def attemptOf (e : RestartEntry) : Option OutboundDeliveryAttempt :=
  match e.output with
  | .worked (.handedOver attempt) => some attempt
  | _ => none

/-- The record of a delivery that a crash leaves. -/
def Disk.durableDelivery (disk : Disk) (id : OutboundDeliveryId) : Option OutboundDeliveryRecord :=
  disk.crash.delivery id

/-- The durable record of its delivery has counted an attempt. -/
def Disk.Counts (disk : Disk) (attempt : OutboundDeliveryAttempt) : Prop :=
  ∃ record, disk.durableDelivery attempt.deliveryId = some record ∧
    attempt.attemptNumber ≤ record.deliveryAttempts

section Files

variable {disk disk' : Disk} {id : OutboundDeliveryId} {record : OutboundDeliveryRecord}

theorem Disk.Persists.durableDelivery (h : disk.Persists disk')
    (hrecord : disk.durableDelivery id = some record) :
    ∃ record', disk'.durableDelivery id = some record' ∧ record.Evolves record' := by
  have hevolves : disk.crash.Evolves disk'.crash := h
  exact hevolves.delivery hrecord

theorem Disk.Counts.persists {attempt : OutboundDeliveryAttempt} (h : disk.Counts attempt)
    (hpersists : disk.Persists disk') : disk'.Counts attempt := by
  obtain ⟨record, hrecord, hcounted⟩ := h
  obtain ⟨record', hrecord', hevolves⟩ := hpersists.durableDelivery hrecord
  exact ⟨record', hrecord', hcounted.trans hevolves.attempts_le⟩

/-- The visible record of a delivery is not behind the durable one. -/
theorem Disk.Recoverable.delivery (h : disk.Recoverable)
    (hrecord : disk.durableDelivery id = some record) :
    ∃ record', disk.delivery id = some record' ∧ record.Evolves record' := by
  have hevolves : disk.crash.Evolves disk := h.behind
  exact hevolves.delivery hrecord

/-- A record in delivery has not evolved from another one with as many attempts. -/
theorem OutboundDeliveryRecord.Evolves.eq_of_delivering {before after : OutboundDeliveryRecord}
    (h : before.Evolves after) (hafter : after.status = .delivering)
    (hattempts : after.deliveryAttempts ≤ before.deliveryAttempts) : after = before := by
  rcases Relation.ReflTransGen.cases_tail h with rfl | ⟨last, hlast, hadvances⟩
  · rfl
  · have hcounted := hadvances.attempts
    rw [if_pos hafter] at hcounted
    have hle := Word.le_iff_toNat.mp (OutboundDeliveryRecord.Evolves.attempts_le hlast)
    have hle' := Word.le_iff_toNat.mp hattempts
    omega

end Files

namespace StateStore

variable {self : StateStore} {io : Io} {disk disk' : Disk}

/-- A claim that hands out an attempt has been made durable. -/
theorem claim_durable {startedAtUnix : U64} {policy : OutboundRetryPolicy}
    {attempt : OutboundDeliveryAttempt} (hdisk : disk.Valid)
    (h : self.call io (.method (.claimNextOutboundDeliveryAttempt startedAtUnix policy)) disk =
      .ok (.attempt (some attempt)) disk') : disk'.durable = disk'.visible := by
  obtain ⟨commit, state, hreplying, rfl⟩ := self.method_eq_ok hdisk h
  obtain ⟨_, hwork, hreply⟩ := replying_eq_ok.mp hreplying
  obtain rfl := Reply.attempt.inj hreply
  obtain ⟨claimed, -, hcommit⟩ := claimNextOutboundDeliveryAttempt_eq_ok hwork
  cases claimed with
  | none => cases hcommit.1
  | some delivery =>
    obtain ⟨rfl, -⟩ := hcommit
    rfl

end StateStore

namespace OutboxWorker

variable {self : OutboxWorker} {disk : Disk} {actions : List RestartAction} {e later : RestartEntry}
  {worked : WorkerEntry} {workers : Workers} {action : WorkerAction}
  {attempt : OutboundDeliveryAttempt}

/-! ## Steps -/

/-- A step of the workers keeps the file recoverable and what is durable. -/
theorem step_recoverable (self : OutboxWorker) (action : WorkerAction)
    (h : workers.disk.Recoverable) : (self.step action workers).2.disk.Recoverable ∧
      workers.disk.Persists (self.step action workers).2.disk := by
  rw [self.step_disk]
  cases self.storeCall action workers with
  | none => exact ⟨h, .refl _⟩
  | some call => exact (self.stateStore.call_effect call.io call.request workers.disk).recoverable h

theorem stepWithRestarts_recoverable (self : OutboxWorker) (action : RestartAction)
    (h : workers.disk.Recoverable) : (self.stepWithRestarts action workers).2.disk.Recoverable ∧
      workers.disk.Persists (self.stepWithRestarts action workers).2.disk := by
  cases action with
  | work work => exact self.step_recoverable work h
  | flush => exact h.flush
  | exit => exact ⟨h, .refl _⟩
  | crash => exact h.crash

/-- What a claim of an attempt has done to the file. -/
structure Claims (policy : OutboundRetryPolicy) (before after : Disk)
    (attempt : OutboundDeliveryAttempt) : Prop where
  durable : after.durable = after.visible
  begun : ∃ record record', before.delivery attempt.deliveryId = some record ∧
    after.delivery attempt.deliveryId = some record' ∧ record.Advances record' ∧
    record'.status = .delivering ∧ record'.deliveryAttempts = attempt.attemptNumber
  due : ∃ record time, before.delivery attempt.deliveryId = some record ∧
    policy.isDue record time = true
  bound : attempt.attemptNumber ≤ policy.maxAttempts

theorem claims_of_claim {io : Io} {time : U64} (h : disk.Valid)
    (hclaim : outcome (self.claim io time disk) = .ok (some attempt)) :
    Claims self.retryPolicy disk (finalState (self.claim io time disk)) attempt := by
  have hcall := claim_eq_ok hclaim
  obtain ⟨before, after, hbefore, hafter, hdue, hadvances, hdelivering, hnumber⟩ :=
    StateStore.claim_eq_ok h hcall
  exact {
    durable := StateStore.claim_durable h hcall
    begun := ⟨before, after, hbefore, hafter, hadvances, hdelivering, hnumber⟩
    due := ⟨before, time, hbefore, hdue⟩
    bound := hnumber ▸ OutboundRetryPolicy.attempts_le (h.delivery hbefore) hdue hadvances
      hdelivering }

/-- A worker that has claimed an attempt had claimed it before, or claims it in this step, in which
the other workers claim nothing. -/
theorem claimed_of_step {worker : ℕ} {time : U64} (h : workers.disk.Valid)
    (hclaimed : (self.step action workers).2.phase worker = .claimed attempt time) :
    workers.phase worker = .claimed attempt time ∨
      Claims self.retryPolicy workers.disk (self.step action workers).2.disk attempt ∧
      ∀ other ≠ worker, ∀ attempt' time', (self.step action workers).2.phase other =
        .claimed attempt' time' → workers.phase other = .claimed attempt' time' := by
  rcases claim_of_claimed hclaimed with hkept | ⟨io, rfl, hclaim, hdisk⟩
  · exact .inl hkept
  · refine .inr ⟨hdisk ▸ claims_of_claim h hclaim, fun other hother attempt' time' hphase ↦ ?_⟩
    rcases claim_of_claimed hphase with hkept | ⟨_, haction, -⟩
    · exact hkept
    · exact absurd (WorkerAction.claim.inj haction).1.symm hother

/-! ## Attempt numbers -/

/-- The number of attempts of a delivery that are durable. -/
def durableAttempts (workers : Workers) (id : OutboundDeliveryId) : ℕ :=
  (workers.disk.durableDelivery id).elim 0 (·.deliveryAttempts.toNat)

/-- The number of an attempt of a delivery. -/
def ticketOf (attempt : OutboundDeliveryAttempt) : OutboundDeliveryId × ℕ :=
  (attempt.deliveryId, attempt.attemptNumber.toNat)

/-- The attempt that a worker is about to hand over. -/
def claimedTicket : WorkerPhase → Option (OutboundDeliveryId × ℕ)
  | .claimed attempt _ => some (ticketOf attempt)
  | _ => none

/-- Claims give out attempt numbers, which are durable; a worker uses one when it calls its
adapter. -/
def attemptTickets : Tickets Workers RestartAction RestartEvent OutboundDeliveryId ℕ where
  count := durableAttempts
  held workers worker := claimedTicket (workers.phase worker)
  used e := (attemptOf e).map ticketOf

theorem claimedTicket_eq_some {phase : WorkerPhase} {ticket : OutboundDeliveryId × ℕ} :
    claimedTicket phase = some ticket ↔
      ∃ attempt time, phase = .claimed attempt time ∧ ticketOf attempt = ticket := by
  cases phase with
  | claimed attempt time => simp [claimedTicket]
  | idle | calling | returned => simp [claimedTicket]

theorem durableAttempts_eq {id : OutboundDeliveryId} {record : OutboundDeliveryRecord}
    (h : workers.disk.durableDelivery id = some record) :
    durableAttempts workers id = record.deliveryAttempts.toNat := by
  rw [durableAttempts, h, Option.elim_some]

theorem durableAttempts_le {workers' : Workers} (h : workers.disk.Persists workers'.disk)
    (id : OutboundDeliveryId) : durableAttempts workers id ≤ durableAttempts workers' id := by
  cases hrecord : workers.disk.durableDelivery id with
  | none =>
    rw [durableAttempts, hrecord]
    exact Nat.zero_le _
  | some record =>
    obtain ⟨record', hrecord', hevolves⟩ := h.durableDelivery hrecord
    rw [durableAttempts_eq hrecord, durableAttempts_eq hrecord']
    exact Word.le_iff_toNat.mp hevolves.attempts_le

/-- The durable attempts of a delivery are at most the visible ones. -/
theorem durableAttempts_le_visible {id : OutboundDeliveryId} {record : OutboundDeliveryRecord}
    (h : workers.disk.Recoverable) (hrecord : workers.disk.delivery id = some record) :
    durableAttempts workers id ≤ record.deliveryAttempts.toNat := by
  cases hdurable : workers.disk.durableDelivery id with
  | none =>
    rw [durableAttempts, hdurable]
    exact Nat.zero_le _
  | some record' =>
    obtain ⟨_, hvisible, hevolves⟩ := h.delivery hdurable
    obtain rfl := Option.some.inj (hrecord.symm.trans hvisible)
    rw [durableAttempts_eq hdurable]
    exact Word.le_iff_toNat.mp hevolves.attempts_le

/-- A claim takes a fresh number. -/
theorem Claims.takes (h : Claims self.retryPolicy e.before.disk e.after.disk attempt)
    (hbefore : e.before.disk.Recoverable) :
    Takes durableAttempts e attempt.deliveryId attempt.attemptNumber.toNat := by
  obtain ⟨record, record', hrecord, hrecord', hadvances, hdelivering, hnumber⟩ := h.begun
  have hattempts := hadvances.attempts
  rw [if_pos hdelivering, hnumber] at hattempts
  refine ⟨?_, ?_⟩
  · have hle := durableAttempts_le_visible hbefore hrecord
    omega
  · have hdurable : e.after.disk.durableDelivery attempt.deliveryId = some record' := by
      rw [Disk.durableDelivery, Disk.delivery, Disk.crash, h.durable]
      exact hrecord'
    rw [durableAttempts_eq hdurable, hnumber]

theorem attemptOf_work (self : OutboxWorker) (work : WorkerAction) (workers : Workers) :
    attemptOf (stepEntry self.stepWithRestarts workers (.work work)) =
      handedOut (stepEntry self.step workers work) := by
  simp only [attemptOf, handedOut, stepEntry, stepWithRestarts]
  cases (self.step work workers).1 <;> rfl

/-- A step that calls an adapter is a step of a worker that has claimed the attempt. -/
theorem attemptOf_eq_some {action : RestartAction}
    (h : attemptOf (stepEntry self.stepWithRestarts workers action) = some attempt) :
    ∃ worker time, workers.phase worker = .claimed attempt time ∧
      (self.stepWithRestarts action workers).2.phase worker = .calling attempt time := by
  cases action with
  | work work =>
    rw [attemptOf_work] at h
    exact handedOut_stepEntry h
  | flush | exit | crash => cases h

theorem attemptTickets_fair (action : RestartAction) (h : workers.disk.Recoverable) :
    attemptTickets.Fair (stepEntry self.stepWithRestarts workers action) := by
  have hpersists := (self.stepWithRestarts_recoverable action h).2
  refine ⟨fun id ↦ durableAttempts_le hpersists id, fun worker ticket hheld ↦ ?_,
    fun ticket hused ↦ ?_⟩
  · obtain ⟨attempt, time, hphase, rfl⟩ := claimedTicket_eq_some.mp hheld
    cases action with
    | flush => exact .inl hheld
    | exit | crash => cases hphase
    | work work =>
      rcases claimed_of_step h.valid hphase with hkept | ⟨hclaims, hothers⟩
      · exact .inl (claimedTicket_eq_some.mpr ⟨attempt, time, hkept, rfl⟩)
      · refine .inr ⟨hclaims.takes h, fun other hother ticket' hheld' ↦ ?_⟩
        obtain ⟨attempt', time', hphase', rfl⟩ := claimedTicket_eq_some.mp hheld'
        exact claimedTicket_eq_some.mpr
          ⟨attempt', time', hothers other hother attempt' time' hphase', rfl⟩
  · obtain ⟨attempt, hattempt, rfl⟩ := Option.map_eq_some_iff.mp hused
    obtain ⟨worker, time, hbefore, hafter⟩ := attemptOf_eq_some hattempt
    refine ⟨worker, claimedTicket_eq_some.mpr ⟨attempt, time, hbefore, rfl⟩, fun hheld ↦ ?_⟩
    obtain ⟨_, _, hclaimed, -⟩ := claimedTicket_eq_some.mp hheld
    cases hclaimed.symm.trans hafter

/-- Attempts that wait for their adapter have numbers between one and the limit. -/
def NumbersInRange (maxAttempts : U32) (workers : Workers) : Prop :=
  ∀ worker attempt time, workers.phase worker = .claimed attempt time →
    1 ≤ attempt.attemptNumber.toNat ∧ attempt.attemptNumber ≤ maxAttempts

theorem numbersInRange_step (action : RestartAction) (hdisk : workers.disk.Recoverable)
    (h : NumbersInRange self.retryPolicy.maxAttempts workers) :
    NumbersInRange self.retryPolicy.maxAttempts (self.stepWithRestarts action workers).2 := by
  intro worker attempt time hphase
  cases action with
  | flush => exact h worker attempt time hphase
  | exit | crash => cases hphase
  | work work =>
    rcases claimed_of_step hdisk.valid hphase with hkept | ⟨hclaims, -⟩
    · exact h worker attempt time hkept
    · obtain ⟨record, record', -, -, hadvances, hdelivering, hnumber⟩ := hclaims.begun
      have hattempts := hadvances.attempts
      rw [if_pos hdelivering, hnumber] at hattempts
      exact ⟨by omega, hclaims.bound⟩

/-- Throughout a run the file is recoverable and the claimed numbers are in range. -/
theorem runWithRestarts_invariant (hdisk : disk.Recoverable) :
    ∀ e ∈ self.runWithRestarts disk actions,
      (e.before.disk.Recoverable ∧ NumbersInRange self.retryPolicy.maxAttempts e.before) ∧
      (e.after.disk.Recoverable ∧ NumbersInRange self.retryPolicy.maxAttempts e.after) := by
  have hinit : (Workers.starting disk).disk.Recoverable ∧
      NumbersInRange self.retryPolicy.maxAttempts (Workers.starting disk) :=
    ⟨hdisk, fun _ _ _ h ↦ by cases h⟩
  exact (trace_invariant (fun workers : Workers ↦ workers.disk.Recoverable ∧
    NumbersInRange self.retryPolicy.maxAttempts workers) (fun _ ↦ True) hinit
    (fun workers action h _ ↦ ⟨(self.stepWithRestarts_recoverable action h.1).1,
      numbersInRange_step action h.1 h.2⟩) fun _ _ ↦ trivial).1

theorem attemptTickets_sound (disk : Disk) : attemptTickets.Sound (Workers.starting disk) where
  counted _ _ h := by cases h
  unique _ _ _ h := by cases h

theorem persists_of_mem (hdisk : disk.Recoverable) (he : e ∈ self.runWithRestarts disk actions) :
    e.before.disk.Persists e.after.disk := by
  have hbefore := (runWithRestarts_invariant hdisk e he).1.1
  obtain ⟨before, action, rfl⟩ := exists_eq_stepEntry he
  exact (self.stepWithRestarts_recoverable action hbefore).2

/-- What is durable after a step of a run is durable before all later ones. -/
theorem runWithRestarts_persists (hdisk : disk.Recoverable) :
    (self.runWithRestarts disk actions).Pairwise fun e later ↦
      e.after.disk.Persists later.before.disk := by
  have hinit : (Workers.starting disk).disk.Recoverable := hdisk
  exact trace_pairwise (fun workers : Workers ↦ workers.disk.Recoverable)
    (fun workers workers' : Workers ↦ workers.disk.Persists workers'.disk) (fun _ ↦ True) hinit
    (fun _ ↦ .refl _) (fun _ _ _ ↦ .trans _ _ _)
    (fun _ action h _ ↦ self.stepWithRestarts_recoverable action h) fun _ _ ↦ trivial

theorem attemptTickets_step (workers : Workers) (action : RestartAction)
    (h : workers.disk.Recoverable) :
    (self.stepWithRestarts action workers).2.disk.Recoverable ∧
      attemptTickets.Fair (stepEntry self.stepWithRestarts workers action) :=
  ⟨(self.stepWithRestarts_recoverable action h).1, attemptTickets_fair action h⟩

/-- The number of an attempt that is handed out is between one and the limit. -/
theorem attempt_in_range (hdisk : disk.Recoverable) (he : e ∈ self.runWithRestarts disk actions)
    (hattempt : attempt ∈ attemptOf e) :
    1 ≤ attempt.attemptNumber.toNat ∧ attempt.attemptNumber ≤ self.retryPolicy.maxAttempts := by
  have hbefore := (runWithRestarts_invariant hdisk e he).1.2
  obtain ⟨before, action, rfl⟩ := exists_eq_stepEntry he
  obtain ⟨worker, time, hclaimed, -⟩ := attemptOf_eq_some hattempt
  exact hbefore worker attempt time hclaimed

/-- An attempt that is handed out is counted durably before the step. -/
theorem attempt_counted (hdisk : disk.Recoverable) (he : e ∈ self.runWithRestarts disk actions)
    (hattempt : attempt ∈ attemptOf e) : e.before.disk.Counts attempt := by
  obtain ⟨hsound, hfair⟩ :=
    attemptTickets.trace_sound _ hdisk (attemptTickets_sound disk) attemptTickets_step e he
  obtain ⟨worker, hheld, -⟩ :=
    hfair.spent (ticketOf attempt) (Option.map_eq_some_iff.mpr ⟨attempt, hattempt, rfl⟩)
  have hcounted : attempt.attemptNumber.toNat ≤ durableAttempts e.before attempt.deliveryId :=
    hsound.counted worker _ hheld
  have hpositive := (attempt_in_range hdisk he hattempt).1
  cases hrecord : e.before.disk.durableDelivery attempt.deliveryId with
  | none =>
    rw [durableAttempts, hrecord, Option.elim_none] at hcounted
    omega
  | some record =>
    rw [durableAttempts_eq hrecord] at hcounted
    exact ⟨record, hrecord, hcounted⟩

/-- An attempt is handed out at most once, whatever stops the workers, whatever a crash loses and
whenever deliveries are reconciled: its number is durable from before the adapter is called, so that
a delivery reaches an adapter no more often than the policy allows, all restarts taken together. -/
theorem attempts_handed_out_once (self : OutboxWorker) (disk : Disk) (hdisk : disk.Recoverable)
    (actions : List RestartAction) :
    (((self.runWithRestarts disk actions).filterMap attemptOf).map ticketOf).Nodup ∧
    (∀ e ∈ self.runWithRestarts disk actions, ∀ attempt ∈ attemptOf e,
      1 ≤ attempt.attemptNumber.toNat ∧ attempt.attemptNumber ≤ self.retryPolicy.maxAttempts) ∧
    (∀ id, (((self.runWithRestarts disk actions).filterMap attemptOf).filter
      (·.deliveryId = id)).length ≤ self.retryPolicy.maxAttempts.toNat) ∧
    (∀ e ∈ self.runWithRestarts disk actions, ∀ attempt ∈ attemptOf e,
      e.before.disk.Counts attempt ∧ e.after.disk.Counts attempt) ∧
    (self.runWithRestarts disk actions).Pairwise fun e later ↦ ∀ attempt ∈ attemptOf e,
      later.before.disk.Counts attempt ∧ later.after.disk.Counts attempt := by
  have hnodup : (((self.runWithRestarts disk actions).filterMap attemptOf).map ticketOf).Nodup := by
    rw [List.map_filterMap]
    exact attemptTickets.used_nodup _ hdisk (attemptTickets_sound disk) attemptTickets_step
  refine ⟨hnodup, fun e he _ ↦ attempt_in_range hdisk he, fun id ↦ ?_, fun e he attempt hattempt ↦ ?_, ?_⟩
  · have hmapped : ∀ attempts : List OutboundDeliveryAttempt,
        (attempts.filter (·.deliveryId = id)).length =
          ((attempts.map ticketOf).filter (·.1 = id)).length := by
      intro attempts
      rw [List.filter_map, List.length_map]
      rfl
    rw [hmapped]
    apply length_le_of_nodup hnodup
    intro ticket hticket _
    obtain ⟨attempt, hattempt, rfl⟩ := List.mem_map.mp hticket
    obtain ⟨e, he, hattempt⟩ := List.mem_filterMap.mp hattempt
    exact attempt_in_range hdisk he hattempt
  · have hbefore := attempt_counted hdisk he hattempt
    exact ⟨hbefore, hbefore.persists (persists_of_mem hdisk he)⟩
  · refine (runWithRestarts_persists hdisk).imp_of_mem ?_
    intro e later he hlater hbetween attempt hattempt
    have hafter := (attempt_counted hdisk he hattempt).persists (persists_of_mem hdisk he)
    exact ⟨hafter.persists hbetween, (hafter.persists hbetween).persists (persists_of_mem hdisk hlater)⟩

theorem recoverable_replyDisk : replyDisk.Recoverable :=
  ⟨valid_replyDisk, valid_replyDisk, Disk.Evolves.refl replyDisk⟩

/-- The machine crashes while the adapter is called; the reply is then reconciled and resolved as
failed, and claimed again. -/
def crashedReply : List RestartAction :=
  [.work (.claim 0 .untroubled 1), .work (.handOver 0), .crash, .work reconcileReply,
    .work resolveReply, .work (.claim 0 .untroubled 4), .work (.handOver 0)]

theorem attempts_handed_out_once_reply :
    (((replyWorker.runWithRestarts replyDisk crashedReply).filterMap attemptOf).map ticketOf).Nodup :=
  (attempts_handed_out_once replyWorker replyDisk recoverable_replyDisk crashedReply).1

end OutboxWorker

end FerrisBridge
