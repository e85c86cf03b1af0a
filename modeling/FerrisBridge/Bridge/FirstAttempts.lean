import FerrisBridge.Bridge.Handoff
import FerrisBridge.Store.OutboxOrder

/-!
# First attempts in order

Workers, enqueues, completions, saves and resolutions interleave in any way, and the clocks say what
they like. Still no adapter gets the first attempt of a delivery while an earlier delivery of the
outbox, enqueued no later, has none: the claim behind it would have taken the earlier one.
-/

open Foundations

namespace FerrisBridge

/-! ## Workers with their own retry policies -/

/-- The worker of a step. -/
def WorkerAction.worker : WorkerAction → ℕ
  | .claim worker _ _ => worker
  | .handOver worker => worker
  | .answer worker _ => worker
  | .record worker _ _ => worker
  | .call _ _ => 0

/-- Outbox workers on one store, each with its own retry policy. -/
structure OutboxWorkers where
  stateStore : StateStore
  retryPolicy : ℕ → OutboundRetryPolicy

namespace OutboxWorkers

def worker (self : OutboxWorkers) (index : ℕ) : OutboxWorker :=
  ⟨self.stateStore, self.retryPolicy index⟩

def step (self : OutboxWorkers) (action : WorkerAction) (workers : Workers) :
    WorkerEvent × Workers :=
  (self.worker action.worker).step action workers

/-- The steps of workers that start on a file. -/
def run (self : OutboxWorkers) (disk : Disk) (actions : List WorkerAction) : List WorkerEntry :=
  trace self.step (.starting disk) actions

variable {self : OutboxWorkers} {actions : List WorkerAction}

/-- The visible state is valid throughout a run. -/
theorem trace_valid (workers : Workers) (h : workers.disk.Valid) :
    ∀ e ∈ trace self.step workers actions, e.before.disk.Valid ∧ e.after.disk.Valid :=
  (trace_invariant (fun workers : Workers ↦ workers.disk.Valid) (fun _ ↦ True) h
    (fun _ _ h _ ↦ (OutboxWorker.step_evolves h).1) fun _ _ ↦ trivial).1

/-- The visible state evolves from the start of a run to all of it. -/
theorem trace_evolves (self : OutboxWorkers) (actions : List WorkerAction) (workers : Workers)
    (h : workers.disk.Valid) :
    workers.disk.Evolves (finalOf self.step workers actions).disk ∧
      ∀ e ∈ trace self.step workers actions, workers.disk.Evolves e.before.disk ∧
        e.after.disk.Evolves (finalOf self.step workers actions).disk :=
  trace_extends (fun workers : Workers ↦ workers.disk.Valid)
    (fun workers workers' ↦ workers.disk.Evolves workers'.disk) (fun _ ↦ True) h
    (fun workers ↦ .refl workers.disk) (fun _ _ _ ↦ .trans _ _ _)
    (fun _ _ h _ ↦ OutboxWorker.step_evolves h) fun _ _ ↦ trivial

end OutboxWorkers

/-! ## Order -/

/-- The delivery has been attempted. -/
def Disk.Attempted (disk : Disk) (id : OutboundDeliveryId) : Prop :=
  ∃ record, disk.delivery id = some record ∧ record.deliveryAttempts ≠ 0

/-- The files that a run shows, from the one that it starts with. -/
def files (disk : Disk) (entries : List WorkerEntry) : List Disk :=
  disk :: entries.map (·.after.disk)

/-- The record that a delivery was enqueued with: the first one that the files show. -/
def enqueued (disk : Disk) (entries : List WorkerEntry) (id : OutboundDeliveryId) :
    Option OutboundDeliveryRecord :=
  (files disk entries).findSome? (·.delivery id)

/-- First attempts never overtake: when an attempt of a delivery is handed to an adapter, which is the
first one or belongs to a delivery that was enqueued as pending, each delivery in front of it that was
enqueued no later has been attempted. When an output of a run is handed to an adapter, so have been
the outputs before it, if the run has got them since the start. -/
structure FirstAttemptsInOrder (disk : Disk) (entries : List WorkerEntry) : Prop where
  deliveries : ∀ e ∈ entries, ∀ attempt ∈ handedOut e, ∀ id first second,
    Precedes e.before.disk.outbox id attempt.deliveryId →
    enqueued disk entries id = some first →
    enqueued disk entries attempt.deliveryId = some second →
    first.updatedAtUnix ≤ second.updatedAtUnix →
    attempt.attemptNumber = 1 ∨ second.status = .pending → e.before.disk.Attempted id
  outputs : ∀ e ∈ entries, ∀ attempt ∈ handedOut e, ∀ runId id, disk.outputs runId = [] →
    Precedes (e.before.disk.outputs runId) id attempt.deliveryId → e.before.disk.Attempted id

section Records

variable {disk disk' : Disk} {id : OutboundDeliveryId} {record : OutboundDeliveryRecord}

theorem Disk.Attempted.evolves (h : disk.Attempted id) (hevolves : disk.Evolves disk') :
    disk'.Attempted id := by
  obtain ⟨record, hrecord, hne⟩ := h
  obtain ⟨record', hrecord', hlater⟩ := hevolves.delivery hrecord
  refine ⟨record', hrecord', fun hzero ↦ hne ?_⟩
  have hle := Word.le_iff_toNat.mp hlater.attempts_le
  rw [hzero] at hle
  exact Word.toNat_injective (Nat.le_zero.mp hle)

/-- A visible delivery has been attempted unless it is pending. -/
theorem Disk.Valid.attempted_iff (hdisk : disk.Valid) (hrecord : disk.delivery id = some record) :
    disk.Attempted id ↔ record.status ≠ .pending := by
  rw [Ne, (hdisk.delivery hrecord).pending_iff]
  constructor
  · rintro ⟨_, hrecord', hne⟩
    exact Option.some.inj (hrecord.symm.trans hrecord') ▸ hne
  · exact fun hne ↦ ⟨record, hrecord, hne⟩

end Records

/-! ## Steps -/

namespace OutboxWorker

variable {self : OutboxWorker} {workers : Workers} {action : WorkerAction} {id id' : OutboundDeliveryId}

/-- A step leaves what the file shows, or replaces it by what a call of the store has computed. -/
theorem step_visible (self : OutboxWorker) (action : WorkerAction) (workers : Workers) :
    (self.step action workers).2.disk.visible = workers.disk.visible ∨ ∃ io request reply state,
      Computes io workers.disk.visible request reply state ∧ state.Valid ∧
        (self.step action workers).2.disk.visible = some state := by
  rw [self.step_disk]
  cases self.storeCall action workers with
  | none => exact .inl rfl
  | some call =>
    refine (self.stateStore.call_effect call.io call.request workers.disk).visible.imp_right ?_
    rintro ⟨reply, state, h⟩
    exact ⟨call.io, call.request, reply, state, h⟩

/-- A step that attempts a delivery for the first time, while a delivery in front of it waits for its
first attempt: the latter was enqueued later. -/
theorem step_overtakes (hdisk : workers.disk.Valid) (hnot : ¬workers.disk.Attempted id')
    (hattempted : (self.step action workers).2.disk.Attempted id')
    {later : Disk} (hlater : (self.step action workers).2.disk.Evolves later) (hvalid : later.Valid)
    (hprecedes : Precedes later.outbox id id') (hwaiting : ¬later.Attempted id) :
    ∃ first second, workers.disk.delivery id = some first ∧ later.delivery id = some first ∧
      workers.disk.delivery id' = some second ∧ first.status = .pending ∧
      second.status = .pending ∧ second.updatedAtUnix < first.updatedAtUnix := by
  obtain ⟨hvalid', hevolves⟩ : (self.step action workers).2.disk.Valid ∧
      workers.disk.Evolves (self.step action workers).2.disk := self.step_evolves hdisk
  have hforward := hevolves.trans _ _ _ hlater
  rcases self.step_visible action workers with hsame |
    ⟨io, request, reply, state, hcomputes, hstate, hvisible⟩
  · unfold Disk.Attempted Disk.delivery at hattempted hnot
    rw [hsame] at hattempted
    exact absurd hattempted hnot
  obtain ⟨after, hafter, hne⟩ := hattempted
  have hmoved : after.status ≠ .pending := fun h ↦ hne ((hvalid'.delivery hafter).pending_iff.mp h)
  rw [Disk.delivery, hvisible, Option.bind_some] at hafter
  have hstep := hcomputes.deliveryStep hdisk id'
  rw [hafter] at hstep
  cases hsecond : workers.disk.delivery id' with
  | none =>
    rw [hsecond] at hstep
    cases hstep with
    | added hpending => exact absurd hpending hmoved
  | some second =>
    have hpending : second.status = .pending :=
      by_contra fun h ↦ hnot ((hdisk.attempted_iff hsecond).mpr h)
    have hmem : id' ∈ workers.disk.outbox := Disk.mem_outbox.mpr (by rw [hsecond]; rfl)
    have hearly := hprecedes.of_initial hvalid.outbox_nodup hforward.outbox hmem
    obtain ⟨first, hfirst⟩ := Option.isSome_iff_exists.mp (Disk.mem_outbox.mp hearly.mem_left)
    obtain ⟨last, hlast, hrecords⟩ := hforward.delivery hfirst
    have hwaits : last.status = .pending :=
      by_contra fun h ↦ hwaiting ((hvalid.attempted_iff hlast).mpr h)
    obtain rfl := hrecords.eq_of_pending hwaits
    exact ⟨last, second, hfirst, hlast, rfl, hwaits, hpending, hcomputes.first_attempt hdisk hstate
      hsecond hpending hafter hmoved hearly hfirst hwaits⟩

end OutboxWorker

namespace OutboxWorkers

variable {self : OutboxWorkers} {disk : Disk} {actions : List WorkerAction} {e : WorkerEntry}
  {id id' : OutboundDeliveryId} {attempt : OutboundDeliveryAttempt} {record : OutboundDeliveryRecord}

/-! ## What the files show -/

theorem files_pairwise (self : OutboxWorkers) (actions : List WorkerAction) (hdisk : disk.Valid) :
    (files disk (self.run disk actions)).Pairwise Disk.Evolves := by
  have hforward : ∀ e ∈ self.run disk actions, e.before.disk.Evolves e.after.disk := by
    intro e he
    obtain ⟨hvalid, -⟩ := trace_valid (.starting disk) hdisk e he
    obtain ⟨before, action, rfl⟩ := exists_eq_stepEntry he
    exact (OutboxWorker.step_evolves hvalid).2
  refine .cons (fun shown hshown ↦ ?_) (List.pairwise_map.mpr ?_)
  · obtain ⟨e, he, rfl⟩ := List.mem_map.mp hshown
    have hbefore := ((self.trace_evolves actions (.starting disk) hdisk).2 e he).1
    exact hbefore.trans _ _ _ (hforward e he)
  · have hpairwise : (self.run disk actions).Pairwise fun e later ↦
        e.after.disk.Evolves later.before.disk :=
      trace_pairwise (fun workers : Workers ↦ workers.disk.Valid)
        (fun workers workers' ↦ workers.disk.Evolves workers'.disk) (fun _ ↦ True) hdisk
        (fun workers ↦ .refl workers.disk) (fun _ _ _ ↦ .trans _ _ _)
        (fun _ _ h _ ↦ OutboxWorker.step_evolves h) fun _ _ ↦ trivial
    exact hpairwise.imp_of_mem fun _ hlater h ↦ h.trans _ _ _ (hforward _ hlater)

theorem before_mem_files (he : e ∈ self.run disk actions) :
    e.before.disk ∈ files disk (self.run disk actions) := by
  obtain ⟨earlier, later, hsplit, hbefore⟩ := exists_of_mem_trace he
  by_cases hearlier : earlier = []
  · subst hearlier
    rw [← hbefore]
    exact List.mem_cons_self
  · obtain ⟨e', he', hafter⟩ := exists_after_eq_finalOf self.step (.starting disk) hearlier
    rw [← hbefore, ← hafter, run, hsplit, trace_append]
    exact List.mem_cons_of_mem _ (List.mem_map_of_mem (List.mem_append_left _ he'))

/-- A delivery that is pending in some file was enqueued as it is. -/
theorem enqueued_of_pending (hdisk : disk.Valid) {shown : Disk}
    (hshown : shown ∈ files disk (self.run disk actions)) (hrecord : shown.delivery id = some record)
    (hpending : record.status = .pending) :
    enqueued disk (self.run disk actions) id = some record := by
  have hpairwise := self.files_pairwise actions hdisk
  unfold enqueued
  generalize files disk (self.run disk actions) = shownFiles at hshown hpairwise
  induction hpairwise with
  | nil => cases hshown
  | @cons first rest hfirst _ ih =>
    cases hfound : first.delivery id with
    | none =>
      rw [List.findSome?_cons, hfound]
      refine ih ((List.mem_cons.mp hshown).resolve_left ?_)
      rintro rfl
      cases hfound.symm.trans hrecord
    | some record' =>
      rw [List.findSome?_cons, hfound]
      rcases List.mem_cons.mp hshown with rfl | hshown
      · exact hfound.symm.trans hrecord
      · obtain ⟨_, hlater, hevolves⟩ := (hfirst shown hshown).delivery hfound
        obtain rfl := Option.some.inj (hrecord.symm.trans hlater)
        rw [hevolves.eq_of_pending hpending]

/-- The outputs stay in order throughout a run. -/
theorem outputs_in_order (hdisk : disk.Valid) (he : e ∈ self.run disk actions) :
    OutputsInOrder disk e.before.disk := by
  refine ((trace_invariant (s := Workers.starting disk) (fun workers : Workers ↦
      workers.disk.Valid ∧ disk.Evolves workers.disk ∧ OutputsInOrder disk workers.disk)
    (fun _ ↦ True) ⟨hdisk, .refl disk, .refl disk⟩ (fun workers action h _ ↦ ?_)
    fun _ _ ↦ trivial).1 e he).1.2.2
  obtain ⟨hvalid, hstart, horder⟩ := h
  obtain ⟨hvalid', hevolves⟩ : (self.step action workers).2.disk.Valid ∧
      workers.disk.Evolves (self.step action workers).2.disk := OutboxWorker.step_evolves hvalid
  refine ⟨hvalid', hstart.trans _ _ _ hevolves, ?_⟩
  rw [step, OutboxWorker.step_disk]
  cases (self.worker action.worker).storeCall action workers with
  | none => exact horder
  | some call => exact horder.step hstart hvalid self.stateStore call

/-! ## First attempts -/

/-- A delivery that has been attempted in the course of a run, while one in front of it waits: the
latter was enqueued later. -/
theorem exists_overtaken (hdisk : disk.Valid) (he : e ∈ self.run disk actions)
    (hnot : ¬disk.Attempted id') (hattempted : e.before.disk.Attempted id')
    (hprecedes : Precedes e.before.disk.outbox id id') (hwaiting : ¬e.before.disk.Attempted id) :
    ∃ shown ∈ files disk (self.run disk actions), shown.Valid ∧ shown.Evolves e.before.disk ∧
      ∃ first second, shown.delivery id = some first ∧ e.before.disk.delivery id = some first ∧
        shown.delivery id' = some second ∧ first.status = .pending ∧ second.status = .pending ∧
        second.updatedAtUnix < first.updatedAtUnix := by
  have hvalid := (trace_valid (.starting disk) hdisk e he).1
  obtain ⟨earlier, later, hsplit, hbefore⟩ := exists_of_mem_trace he
  obtain ⟨c, hc, hno, hyes⟩ := exists_cause self.step (.starting disk)
    (fun workers : Workers ↦ workers.disk.Attempted id') hnot (by rwa [hbefore])
  have hrun : c ∈ self.run disk actions := by
    rw [run, hsplit, trace_append]
    exact List.mem_append_left _ hc
  obtain ⟨hstart, hend⟩ := (self.trace_evolves earlier (.starting disk) hdisk).2 c hc
  rw [hbefore] at hend
  have hcvalid := (trace_valid (.starting disk) hdisk c hrun).1
  have hshown := before_mem_files hrun
  have hstep := eq_stepEntry_of_mem hc
  rw [congrArg Entry.after hstep] at hyes hend
  obtain ⟨first, second, hspec⟩ :=
    OutboxWorker.step_overtakes hcvalid hno hyes hend hvalid hprecedes hwaiting
  exact ⟨_, hshown, hcvalid, (OutboxWorker.step_evolves hcvalid).2.trans _ _ _ hend, first, second,
    hspec⟩

/-- An attempt that is handed to an adapter has been counted in the record of the delivery, which was
pending before if the attempt is the first one. -/
theorem attempted_of_handedOut (hdisk : disk.Valid) (he : e ∈ self.run disk actions)
    (hout : handedOut e = some attempt) :
    e.before.disk.Attempted attempt.deliveryId ∧ (attempt.attemptNumber = 1 →
      ∃ shown ∈ files disk (self.run disk actions), ∃ record,
        shown.delivery attempt.deliveryId = some record ∧ record.status = .pending) := by
  have hstep : e = stepEntry self.step e.before e.input := eq_stepEntry_of_mem he
  rw [hstep] at hout
  have hhanded : handedOut (stepEntry (self.worker e.input.worker).step e.before e.input) =
      some attempt := hout
  obtain ⟨worker, time, hclaimed, -⟩ := OutboxWorker.handedOut_stepEntry hhanded
  obtain ⟨earlier, later, hsplit, hbefore⟩ := exists_of_mem_trace he
  obtain ⟨c, hc, hno, hyes⟩ := exists_cause self.step (.starting disk)
    (fun workers : Workers ↦ workers.phase worker = .claimed attempt time)
    (fun h ↦ by cases h) (by rwa [hbefore])
  have hrun : c ∈ self.run disk actions := by
    rw [run, hsplit, trace_append]
    exact List.mem_append_left _ hc
  have hend := ((self.trace_evolves earlier (.starting disk) hdisk).2 c hc).2
  obtain ⟨hcvalid, hcvalid'⟩ := trace_valid (.starting disk) hdisk c hrun
  have hstep := eq_stepEntry_of_mem hc
  rw [congrArg Entry.after hstep] at hyes
  rcases OutboxWorker.claim_of_claimed hyes with hkept | ⟨io, -, hok, hafter⟩
  · exact absurd hkept hno
  obtain ⟨before, after, hfound, hfound', -, hadvances, hdelivering, hnumber⟩ :=
    StateStore.claim_eq_ok hcvalid (OutboxWorker.claim_eq_ok hok)
  have hcounted : c.after.disk.delivery attempt.deliveryId = some after := by
    rw [congrArg Entry.after hstep]
    exact (congrArg (·.delivery attempt.deliveryId) hafter).trans hfound'
  rw [hbefore] at hend
  refine ⟨Disk.Attempted.evolves ?_ hend, fun hone ↦ ⟨_, before_mem_files hrun, before, hfound, ?_⟩⟩
  · exact (hcvalid'.attempted_iff hcounted).mpr (by rw [hdelivering]; simp)
  · have hattempts := hadvances.attempts
    rw [hnumber, hone, if_pos hdelivering] at hattempts
    rw [(hcvalid.delivery hfound).pending_iff]
    exact Word.toNat_injective (Nat.succ.inj hattempts).symm

/-- First attempts are in order in every run. -/
theorem first_attempts_in_order (self : OutboxWorkers) (disk : Disk) (actions : List WorkerAction)
    (hdisk : disk.Valid) : FirstAttemptsInOrder disk (self.run disk actions) where
  deliveries e he attempt hout id first second hprecedes hfirst hsecond hle hone := by
    obtain ⟨hattempted, hshown⟩ := attempted_of_handedOut hdisk he hout
    have hpending : second.status = .pending := by
      refine hone.elim (fun hone ↦ ?_) fun hpending ↦ hpending
      obtain ⟨shown, hmem, record, hrecord, hpending⟩ := hshown hone
      obtain rfl := Option.some.inj
        (hsecond.symm.trans (enqueued_of_pending hdisk hmem hrecord hpending))
      exact hpending
    have hstart : ¬disk.Attempted attempt.deliveryId := by
      rintro ⟨record, hrecord, hne⟩
      have henqueued : enqueued disk (self.run disk actions) attempt.deliveryId = some record := by
        rw [enqueued, files, List.findSome?_cons, hrecord]
      obtain rfl := Option.some.inj (hsecond.symm.trans henqueued)
      exact hne ((hdisk.delivery hrecord).pending_iff.mp hpending)
    by_contra hwaiting
    obtain ⟨shown, hmem, -, -, earlier, later, hearlier, -, hlater, hwaits, hwaits', hlt⟩ :=
      exists_overtaken hdisk he hstart hattempted hprecedes hwaiting
    obtain rfl := Option.some.inj
      (hfirst.symm.trans (enqueued_of_pending hdisk hmem hearlier hwaits))
    obtain rfl := Option.some.inj
      (hsecond.symm.trans (enqueued_of_pending hdisk hmem hlater hwaits'))
    exact absurd hle (not_le.mpr hlt)
  outputs e he attempt hout runId id hnone hprecedes := by
    obtain ⟨hsublist, hfresh⟩ := outputs_in_order hdisk he runId hnone
    have hvalid := (trace_valid (.starting disk) hdisk e he).1
    have hstart : ¬disk.Attempted attempt.deliveryId := by
      rintro ⟨record, hrecord, -⟩
      exact (hfresh _ hprecedes.mem_right).1 (Disk.mem_outbox.mpr (by rw [hrecord]; rfl))
    by_contra hwaiting
    obtain ⟨shown, -, hshown, hevolves, first, second, -, hfirst, hsecond, hwaits, -, hlt⟩ :=
      exists_overtaken hdisk he hstart (attempted_of_handedOut hdisk he hout).1
        (hprecedes.of_sublist hsublist) hwaiting
    obtain ⟨last, hlast, hrecords⟩ := hevolves.delivery hsecond
    obtain ⟨-, -, -, hcreated⟩ :=
      OutboundDeliveryRecord.hasSameEnqueueIdentity_iff.mp hrecords.hasSameEnqueueIdentity
    refine absurd hlt (not_lt.mpr ?_)
    calc first.updatedAtUnix
        = first.createdAtUnix := (hfresh _ hprecedes.mem_left).2 first hfirst hwaits
      _ = last.createdAtUnix :=
        hvalid.createdAt_of_outputs hprecedes.mem_left hprecedes.mem_right hfirst hlast
      _ = second.createdAtUnix := hcreated
      _ ≤ second.updatedAtUnix := (hshown.delivery hsecond).created_le

/-! ### Two outputs of one run -/

/-- The second message of the answer. -/
def secondMessage : Message where
  id := ⟨"msg_out_2", by decide⟩
  sessionId := some (.forScope chat)
  author := .agent
  content := .text "second reply" (by decide)
  createdAtUnix := 0

/-- The file with the run that is going to answer. -/
def answeringDisk : Disk := (StateStore.mk "state.json").after answering

/-- Workers that all allow three attempts, with a delay of a second. -/
def replyWorkers : OutboxWorkers :=
  ⟨OutboxWorker.replyWorker.stateStore, fun _ ↦ OutboxWorker.replyWorker.retryPolicy⟩

/-- The run completes with two messages. The first attempt of the first one fails, and it is retried
after the first attempt of the second one. -/
def answerTwice : List WorkerAction :=
  [.call ⟨.method (.completeAgentRun ⟨"run_1", Eq.refl true⟩ [pendingReply.message, secondMessage] 3),
      .untroubled⟩ rfl,
    .claim 0 .untroubled 4, .handOver 0, .answer 0 fun _ ↦ .error ⟨.retryable, "timeout"⟩,
    .record 0 .untroubled 5, .claim 0 .untroubled 5, .handOver 0, .claim 1 .untroubled 6, .handOver 1]

theorem first_attempts_in_order_answer :
    FirstAttemptsInOrder answeringDisk (replyWorkers.run answeringDisk answerTwice) ∧
      ((replyWorkers.run answeringDisk answerTwice).filterMap handedOut).map
        (fun attempt ↦ (attempt.message, attempt.attemptNumber)) =
          [(pendingReply.message, 1), (secondMessage, 1), (pendingReply.message, 2)] := by
  refine ⟨first_attempts_in_order replyWorkers answeringDisk answerTwice ?_, by decide +kernel⟩
  exact StateStore.history_valid.2

end OutboxWorkers

end FerrisBridge
