import FerrisBridge.Bridge.OutboxWorker
import FerrisBridge.Store.Claiming

/-!
# Settlement of deliveries

What one round of a worker does when nothing fails and nobody interferes. The adapter has a state of
its own here, which every call of it changes, so that the result counts the calls. Whatever the clock
reads and whatever the adapter answers, a round that has called the adapter records the answer.
-/

open Foundations

namespace FerrisBridge

/-! ## Answers of the adapter -/

/-- What an adapter can say: success, or a failure of some kind with any message. -/
abbrev AdapterAnswer := Except (OutboundDeliveryFailureKind × String) Unit

/-- The constructors of failures replace a blank message. -/
def AdapterAnswer.result : AdapterAnswer → AdapterResult
  | .ok _ => .ok ()
  | .error (kind, message) => .error (.new kind message)

def OutboundDeliveryFailureKind.status : OutboundDeliveryFailureKind → OutboundDeliveryStatus
  | .retryable => .failed
  | .uncertain => .uncertain

/-- The status that an answer leads to. -/
def AdapterAnswer.status : AdapterAnswer → OutboundDeliveryStatus
  | .ok _ => .delivered
  | .error (kind, _) => kind.status

theorem OutboundDeliveryFailure.new_nonblank (kind : OutboundDeliveryFailureKind)
    (message : String) : isBlank (new kind message).message = false := by
  unfold new
  cases hblank : isBlank message with
  | true =>
    rw [if_pos rfl]
    cases kind <;> rfl
  | false => exact hblank

theorem OutboundDeliveryFailure.new_kind (kind : OutboundDeliveryFailureKind) (message : String) :
    (new kind message).kind = kind := by
  unfold new
  cases isBlank message <;> cases kind <;> rfl

/-- The record of a delivery after its attempt has been settled. -/
structure OutboundDeliveryRecord.SettledBy (answer : AdapterAnswer) (finishedAtUnix : U64)
    (before after : OutboundDeliveryRecord) : Prop where
  status : after.status = answer.status
  attempts : after.deliveryAttempts.toNat = before.deliveryAttempts.toNat + 1
  updatedAt : after.updatedAtUnix = finishedAtUnix
  deliveredAt : after.deliveredAtUnix =
    if answer.status = .delivered then some finishedAtUnix else none
  error : after.lastError.isSome ↔ answer.status ≠ .delivered
  error_nonblank : ∀ error, after.lastError = some error → isBlank error = false
  others : after = { before with
    status := after.status
    updatedAtUnix := after.updatedAtUnix
    deliveryAttempts := after.deliveryAttempts
    deliveredAtUnix := after.deliveredAtUnix
    lastError := after.lastError }

theorem OutboundDeliveryRecord.SettledBy.not_delivering {answer : AdapterAnswer} {time : U64}
    {before after : OutboundDeliveryRecord} (h : before.SettledBy answer time after) :
    after.status ≠ .delivering := by
  rw [h.status]
  rcases answer with ⟨kind, _⟩ | _
  · cases kind <;> exact fun h ↦ by cases h
  · exact fun h ↦ by cases h

/-- The transition that records what the adapter has answered. -/
def AdapterResult.mark (finishedAtUnix : U64) :
    AdapterResult → EStateM String OutboundDeliveryRecord Unit
  | .ok _ => OutboundDeliveryRecord.markDelivered finishedAtUnix
  | .error ⟨.retryable, error⟩ => OutboundDeliveryRecord.markFailed finishedAtUnix error
  | .error ⟨.uncertain, error⟩ => OutboundDeliveryRecord.markUncertain finishedAtUnix error

theorem AdapterResult.advances_of_mark (adapterResult : AdapterResult) (finishedAtUnix : U64)
    (record record' : OutboundDeliveryRecord)
    (h : adapterResult.mark finishedAtUnix record = .ok () record') : record.Advances record' := by
  match adapterResult with
  | .ok _ => exact (OutboundDeliveryRecord.advances_of_markDelivered h).1
  | .error ⟨.retryable, _⟩ => exact (OutboundDeliveryRecord.advances_of_markFailed h).1
  | .error ⟨.uncertain, _⟩ => exact (OutboundDeliveryRecord.advances_of_markUncertain h).1

/-- An attempt in flight can be settled with any answer, at any time from its start on. -/
theorem AdapterAnswer.mark_settles (answer : AdapterAnswer) {delivery : OutboundDeliveryRecord}
    {startedAtUnix finishedAtUnix : U64} {attempts : U32}
    (hbegun : (delivery.begun startedAtUnix attempts).Valid)
    (hattempts : attempts.toNat = delivery.deliveryAttempts.toNat + 1)
    (htime : startedAtUnix ≤ finishedAtUnix) :
    ∃ settled, delivery.SettledBy answer finishedAtUnix settled ∧
      settled.deliveryAttempts = attempts ∧
      answer.result.mark finishedAtUnix (delivery.begun startedAtUnix attempts) = .ok () settled := by
  have hle : (delivery.begun startedAtUnix attempts).updatedAtUnix ≤ finishedAtUnix := htime
  cases answer with
  | ok answered =>
    refine ⟨_, ⟨rfl, hattempts, rfl, rfl, ?_, ?_, rfl⟩, rfl,
      OutboundDeliveryRecord.markDelivered_eq hbegun rfl hle⟩
    · simp [AdapterAnswer.status]
    · exact fun _ h ↦ by cases h
  | error failure =>
    obtain ⟨kind, message⟩ := failure
    obtain ⟨error, hfailure⟩ : ∃ error, OutboundDeliveryFailure.new kind message = ⟨kind, error⟩ :=
      ⟨_, congrArg (OutboundDeliveryFailure.mk · _) (OutboundDeliveryFailure.new_kind kind message)⟩
    have hblank : isBlank error = false := by
      simpa [hfailure] using OutboundDeliveryFailure.new_nonblank kind message
    have hresult : AdapterAnswer.result (.error (kind, message)) = .error ⟨kind, error⟩ :=
      congrArg Except.error hfailure
    rw [hresult]
    have hnonblank : ∀ error', some error = some error' → isBlank error' = false := by
      rintro _ ⟨⟩
      exact hblank
    cases kind with
    | retryable =>
      refine ⟨_, ⟨rfl, hattempts, max_eq_right htime, rfl, ?_, hnonblank, rfl⟩, rfl,
        OutboundDeliveryRecord.markUnsuccessful_eq .failed "fail" "failure" hbegun rfl hle hblank⟩
      simp [AdapterAnswer.status, OutboundDeliveryFailureKind.status, OutboundDeliveryRecord.touchAt]
    | uncertain =>
      refine ⟨_, ⟨rfl, hattempts, max_eq_right htime, rfl, ?_, hnonblank, rfl⟩, rfl,
        OutboundDeliveryRecord.markUnsuccessful_eq .uncertain "become uncertain" "uncertain outcome"
          hbegun rfl hle hblank⟩
      simp [AdapterAnswer.status, OutboundDeliveryFailureKind.status, OutboundDeliveryRecord.touchAt]

/-- What a worker reports about a settled delivery. -/
def OutboundRetryPolicy.report (policy : OutboundRetryPolicy) (settled : OutboundDeliveryRecord) :
    AdapterResult → OutboxWorkerOutcome
  | .ok _ => .delivered settled.id settled.deliveryAttempts
  | .error ⟨.retryable, error⟩ =>
    .failed settled.id settled.deliveryAttempts error (policy.nextAttemptAtUnix settled)
  | .error ⟨.uncertain, error⟩ => .uncertain settled.id settled.deliveryAttempts error

namespace OutboxWorker

/-! ## A round with an adapter that has a state -/

section Adapter

variable {A : Type}

def callAdapter (deliverOutboundMessage : OutboundDeliveryAttempt → A → AdapterResult × A)
    (attempt : OutboundDeliveryAttempt) : EStateM RuntimeError (Disk × A) AdapterResult :=
  fun world ↦ .ok (deliverOutboundMessage attempt world.2).1
    (world.1, (deliverOutboundMessage attempt world.2).2)

/-- `processNextWithClock` with the state of the adapter beside the file. -/
def processNextWithAdapter (self : OutboxWorker) (claimIo io : Io)
    (deliverOutboundMessage : OutboundDeliveryAttempt → A → AdapterResult × A)
    (startedAtUnix nowUnix : U64) : EStateM RuntimeError (Disk × A) OutboxWorkerOutcome := do
  match ← zoom Prod.fst (fun world disk ↦ (disk, world.2)) (self.claim claimIo startedAtUnix) with
  | none => zoom Prod.fst (fun world disk ↦ (disk, world.2)) (self.idle io)
  | some attempt =>
    let adapterResult ← callAdapter deliverOutboundMessage attempt
    let finishedAtUnix := max nowUnix startedAtUnix
    zoom Prod.fst (fun world disk ↦ (disk, world.2))
      (self.record io attempt finishedAtUnix adapterResult)

variable {self : OutboxWorker} {claimIo io : Io}
  {deliverOutboundMessage : OutboundDeliveryAttempt → A → AdapterResult × A}
  {startedAtUnix nowUnix : U64} {disk disk' disk'' : Disk} {imAdapter : A}
  {reported : OutboxWorkerOutcome} {attempt : OutboundDeliveryAttempt}

theorem processNextWithAdapter_idle (hclaim : self.claim claimIo startedAtUnix disk = .ok none disk')
    (hidle : self.idle io disk' = .ok reported disk'') :
    self.processNextWithAdapter claimIo io deliverOutboundMessage startedAtUnix nowUnix
      (disk, imAdapter) = .ok reported (disk'', imAdapter) := by
  refine (estate_ok_bind (zoom_eq_ok.mpr ⟨_, hclaim, rfl⟩)).trans ?_
  exact zoom_eq_ok.mpr ⟨_, hidle, rfl⟩

theorem processNextWithAdapter_record
    (hclaim : self.claim claimIo startedAtUnix disk = .ok (some attempt) disk')
    (hrecord : self.record io attempt (max nowUnix startedAtUnix)
      (deliverOutboundMessage attempt imAdapter).1 disk' = .ok reported disk'') :
    self.processNextWithAdapter claimIo io deliverOutboundMessage startedAtUnix nowUnix
      (disk, imAdapter) = .ok reported (disk'', (deliverOutboundMessage attempt imAdapter).2) := by
  refine (estate_ok_bind (zoom_eq_ok.mpr ⟨_, hclaim, rfl⟩)).trans ?_
  have hcall : callAdapter deliverOutboundMessage attempt (disk', imAdapter) =
    .ok (deliverOutboundMessage attempt imAdapter).1
      (disk', (deliverOutboundMessage attempt imAdapter).2) := rfl
  exact (estate_ok_bind hcall).trans (zoom_eq_ok.mpr ⟨_, hrecord, rfl⟩)

/-- For the store and the caller the state of the adapter makes no difference: a round is one of
`processNextWithClock` with the function that the adapter is in that state. -/
theorem processNextWithAdapter_disk :
    outcome (self.processNextWithAdapter claimIo io deliverOutboundMessage startedAtUnix nowUnix
        (disk, imAdapter)) =
      outcome (self.processNextWithClock claimIo io
        (fun attempt ↦ (deliverOutboundMessage attempt imAdapter).1) startedAtUnix nowUnix disk) ∧
    (finalState (self.processNextWithAdapter claimIo io deliverOutboundMessage startedAtUnix nowUnix
        (disk, imAdapter))).1 =
      finalState (self.processNextWithClock claimIo io
        (fun attempt ↦ (deliverOutboundMessage attempt imAdapter).1) startedAtUnix nowUnix disk) := by
  simp only [processNextWithAdapter, processNextWithClock, bind, EStateM.bind, zoom]
  cases hclaim : self.claim claimIo startedAtUnix disk with
  | error err disk' => exact ⟨rfl, rfl⟩
  | ok claimed disk' =>
    cases claimed with
    | none =>
      cases hidle : self.idle io disk' <;>
        simp only [zoom, hidle, outcome, finalState, and_self]
    | some attempt =>
      cases hrecord : self.record io attempt (max nowUnix startedAtUnix)
          (deliverOutboundMessage attempt imAdapter).1 disk' <;>
        simp only [EStateM.bind, callAdapter, zoom, hrecord, outcome, finalState, and_self]

end Adapter

/-! ## The steps of a round -/

section Round

variable (self : OutboxWorker) {io : Io} {disk : Disk} {time : U64}

theorem idle_eq (hio : io.Faultless) (hdisk : disk.Valid) :
    self.idle io disk =
      .ok (.idle (disk.deliveries.filterMap self.retryPolicy.nextAttemptAtUnix).min?) disk := by
  have hload := self.stateStore.load_eq_ok hio.read (Disk.valid_iff.mp hdisk)
  refine (estate_ok_bind (mapErr_eq_ok.mpr hload)).trans ?_
  rw [disk.deliveries_loaded io]
  rfl

theorem record_eq {state : RuntimeState} {before after : List OutboundDeliveryRecord}
    {delivery settled : OutboundDeliveryRecord} {attempt : OutboundDeliveryAttempt}
    (adapterResult : AdapterResult) (hio : io.Faultless) (hdisk : disk.visible = some state)
    (hstate : state.Valid) (hdeliveries : state.outboundDeliveries = before ++ delivery :: after)
    (hid : attempt.deliveryId = delivery.id)
    (hnumber : attempt.attemptNumber = settled.deliveryAttempts)
    (hmark : adapterResult.mark time delivery = .ok () settled) :
    ∃ written, written = state.withDelivery before settled after io.now ∧
      self.record io attempt time adapterResult disk =
        .ok (self.retryPolicy.report settled adapterResult) ⟨some written, some written⟩ := by
  have hsettled : settled.id = delivery.id := (adapterResult.advances_of_mark _ _ _ hmark).id_eq
  obtain ⟨id, scope, message, attemptNumber⟩ := attempt
  obtain rfl : id = delivery.id := hid
  obtain rfl : attemptNumber = settled.deliveryAttempts := hnumber
  obtain ⟨written, hwritten, -, hmarked⟩ := self.stateStore.transact_update hio hdisk hstate
    hdeliveries (adapterResult.advances_of_mark time) hmark
  refine ⟨written, hwritten, ?_⟩
  cases adapterResult with
  | ok answered =>
    rw [OutboundRetryPolicy.report, hsettled]
    have h := hmarked (StateStore.markOutboundDeliveryDelivered delivery.id time) rfl
    exact (estate_ok_bind (mapErr_eq_ok.mpr h)).trans rfl
  | error failure =>
    obtain ⟨kind, error⟩ := failure
    cases kind with
    | retryable =>
      rw [OutboundRetryPolicy.report, hsettled]
      have h := hmarked (StateStore.markOutboundDeliveryFailed delivery.id time error) rfl
      exact (estate_ok_bind (mapErr_eq_ok.mpr h)).trans rfl
    | uncertain =>
      rw [OutboundRetryPolicy.report, hsettled]
      have h := hmarked (StateStore.markOutboundDeliveryUncertain delivery.id time error) rfl
      exact (estate_ok_bind (mapErr_eq_ok.mpr h)).trans rfl

end Round

end OutboxWorker

/-! ## Claims and rounds -/

/-- The earliest time at which a delivery that waits for an attempt can be claimed. -/
structure OutboundRetryPolicy.NextDue (policy : OutboundRetryPolicy)
    (deliveries : List OutboundDeliveryRecord) (nextAttemptAtUnix : Option U64) : Prop where
  never : nextAttemptAtUnix = none ↔ ∀ delivery ∈ deliveries,
    ¬(delivery.status = .pending ∨
      delivery.status = .failed ∧ delivery.deliveryAttempts < policy.maxAttempts)
  next : ∀ time, nextAttemptAtUnix = some time ↔
    IsLeast {time | ∃ delivery ∈ deliveries, policy.nextAttemptAtUnix delivery = some time} time

theorem OutboundRetryPolicy.nextDue_min (policy : OutboundRetryPolicy)
    (deliveries : List OutboundDeliveryRecord) :
    policy.NextDue deliveries (deliveries.filterMap policy.nextAttemptAtUnix).min? := by
  constructor
  · rw [List.min?_eq_none_iff, List.filterMap_eq_nil_iff]
    refine forall₂_congr fun delivery _ ↦ ?_
    rw [← Option.not_isSome_iff_eq_none, policy.nextAttemptAtUnix_isSome]
    rfl
  · intro time
    rw [List.min?_eq_some_iff]
    simp only [IsLeast, lowerBounds, List.mem_filterMap, Set.mem_ofPred_eq]

/-- Claiming is total and exact: on a valid file and without a failure of the file system a claim
succeeds. It hands out the first due delivery in the order of the outbox and writes nothing but the
beginning of the attempt; when no delivery is due it writes nothing, and the worker reports when the
next one will be. -/
theorem OutboxWorker.claim_exact (self : OutboxWorker) {disk : Disk}
    (hdisk : ∀ visible ∈ disk.visible, visible.validate = .ok ()) {io : Io} (hio : io.Faultless)
    (time : U64) :
    (∃ claimed disk', self.stateStore.call io
        (.method (.claimNextOutboundDeliveryAttempt time self.retryPolicy)) disk =
          .ok (.attempt claimed) disk' ∧
      (claimed.isSome ↔ ∃ delivery ∈ disk.deliveries, self.retryPolicy.isDue delivery time = true)) ∧
    ((∀ delivery ∈ disk.deliveries, self.retryPolicy.isDue delivery time = false) →
      self.stateStore.call io
          (.method (.claimNextOutboundDeliveryAttempt time self.retryPolicy)) disk =
        .ok (.attempt none) disk ∧
      ∀ later : Io, later.Faultless → ∀ deliverOutboundMessage nowUnix,
        ∃ nextAttemptAtUnix, self.retryPolicy.NextDue disk.deliveries nextAttemptAtUnix ∧
          self.processNextWithClock io later deliverOutboundMessage time nowUnix disk =
            .ok (.idle nextAttemptAtUnix) disk) ∧
    ∀ state before delivery after, disk.visible = some state →
      state.outboundDeliveries = before ++ delivery :: after →
      (∀ earlier ∈ before, self.retryPolicy.isDue earlier time = false) →
      self.retryPolicy.isDue delivery time = true →
        ∃ (attempts : U32) (scope : SessionScope) (written : RuntimeState),
          attempts.toNat = delivery.deliveryAttempts.toNat + 1 ∧
          SessionId.forScope scope = delivery.sessionId ∧
          written = { state with
            outboundDeliveries := before ++ { delivery with
              status := .delivering
              updatedAtUnix := time
              deliveryAttempts := attempts
              deliveredAtUnix := none
              lastError := none } :: after
            updatedAtUnix := written.updatedAtUnix } ∧
          self.stateStore.call io
              (.method (.claimNextOutboundDeliveryAttempt time self.retryPolicy)) disk =
            .ok (.attempt (some ⟨delivery.id, scope, delivery.message, attempts⟩))
              ⟨some written, some written⟩ := by
  have hvalid : disk.Valid := Disk.valid_iff.mpr hdisk
  refine ⟨?_, fun hnone ↦ ?_, fun state before delivery after hvisible hdeliveries hbefore hdue ↦ ?_⟩
  · rcases self.retryPolicy.first_due disk.deliveries time with
      hnone | ⟨before, delivery, after, hdeliveries, hbefore, hdue⟩
    · refine ⟨none, disk, self.stateStore.call_claim
        (self.stateStore.transact_claim_none hio hvalid hnone), iff_of_false (by simp) ?_⟩
      rintro ⟨delivery, hmem, hdue⟩
      cases (hnone delivery hmem).symm.trans hdue
    · have hmem : delivery ∈ disk.deliveries := by simp [hdeliveries]
      obtain ⟨state, hvisible⟩ := Disk.visible_of_mem_deliveries hmem
      rw [Disk.deliveries_of_visible hvisible] at hdeliveries
      obtain ⟨attempts, scope, written, -, -, -, -, hclaim⟩ := self.stateStore.transact_claim_some hio
        hvisible (hvalid state hvisible) hdeliveries hbefore hdue
      exact ⟨_, _, self.stateStore.call_claim hclaim, iff_of_true rfl ⟨delivery, hmem, hdue⟩⟩
  · have hclaim := self.stateStore.transact_claim_none hio hvalid hnone
    refine ⟨self.stateStore.call_claim hclaim, fun later hlater deliverOutboundMessage nowUnix ↦
      ⟨_, self.retryPolicy.nextDue_min disk.deliveries, ?_⟩⟩
    exact (estate_ok_bind (mapErr_eq_ok.mpr hclaim)).trans (self.idle_eq hlater hvalid)
  · obtain ⟨attempts, scope, written, hattempts, hscope, rfl, -, hclaim⟩ :=
      self.stateStore.transact_claim_some hio hvisible (hvalid state hvisible) hdeliveries hbefore hdue
    exact ⟨attempts, scope, _, hattempts, hscope, rfl, self.stateStore.call_claim hclaim⟩

/-- A worker with the default policy. -/
def defaultWorker : OutboxWorker := ⟨⟨"state.json"⟩, ⟨4, 2, 30, by decide, by decide, by decide⟩⟩

/-- The reply is due at once. -/
theorem OutboxWorker.claim_exact_reply : ∃ (attempts : U32) (scope : SessionScope)
    (written : RuntimeState), attempts.toNat = 1 ∧
      defaultWorker.stateStore.call .untroubled
          (.method (.claimNextOutboundDeliveryAttempt 0 defaultWorker.retryPolicy))
          ⟨some replyState, none⟩ =
        .ok (.attempt (some ⟨pendingReply.id, scope, pendingReply.message, attempts⟩))
          ⟨some written, some written⟩ := by
  have hdisk : ∀ visible ∈ (Disk.mk (some replyState) none).visible, visible.validate = .ok () := by
    rintro _ ⟨⟩
    rfl
  obtain ⟨attempts, scope, written, hattempts, -, -, hclaim⟩ :=
    (defaultWorker.claim_exact hdisk Io.faultless_untroubled 0).2.2
      replyState [] pendingReply [] rfl rfl (by simp) rfl
  exact ⟨attempts, scope, written, hattempts, hclaim⟩

/-- A round settles its delivery: on a valid file and without a failure of the file system or another
writer, a round succeeds whatever the clock reads and the adapter answers. With no delivery due it
leaves the adapter alone; otherwise it calls the adapter once, for the first due delivery, and
records the answer at the later of the two clock readings. -/
theorem OutboxWorker.process_next_settles (self : OutboxWorker) {disk : Disk}
    (hdisk : ∀ visible ∈ disk.visible, visible.validate = .ok ()) {claimIo io : Io}
    (hclaimIo : claimIo.Faultless) (hio : io.Faultless) {A : Type}
    (deliverOutboundMessage : OutboundDeliveryAttempt → A → AdapterAnswer × A)
    (startedAtUnix nowUnix : U64) (imAdapter : A) :
    let deliver (attempt : OutboundDeliveryAttempt) (imAdapter : A) : AdapterResult × A :=
      ((deliverOutboundMessage attempt imAdapter).1.result,
        (deliverOutboundMessage attempt imAdapter).2)
    ((∀ delivery ∈ disk.deliveries, self.retryPolicy.isDue delivery startedAtUnix = false) ∧
      ∃ nextAttemptAtUnix, self.processNextWithAdapter claimIo io deliver startedAtUnix nowUnix
        (disk, imAdapter) = .ok (.idle nextAttemptAtUnix) (disk, imAdapter)) ∨
    ∃ state before delivery after, disk.visible = some state ∧
      state.outboundDeliveries = before ++ delivery :: after ∧
      (∀ earlier ∈ before, self.retryPolicy.isDue earlier startedAtUnix = false) ∧
      self.retryPolicy.isDue delivery startedAtUnix = true ∧
      ∃ (attempt : OutboundDeliveryAttempt) (settled : OutboundDeliveryRecord) (written : RuntimeState),
        attempt.deliveryId = delivery.id ∧
        delivery.SettledBy (deliverOutboundMessage attempt imAdapter).1
          (max nowUnix startedAtUnix) settled ∧
        written = { state with
          outboundDeliveries := before ++ settled :: after
          updatedAtUnix := written.updatedAtUnix } ∧
        (∀ record ∈ written.outboundDeliveries, record.status = .delivering →
          record ∈ state.outboundDeliveries) ∧
        self.processNextWithAdapter claimIo io deliver startedAtUnix nowUnix (disk, imAdapter) =
          .ok (self.retryPolicy.report settled (deliver attempt imAdapter).1)
            (⟨some written, some written⟩, (deliverOutboundMessage attempt imAdapter).2) := by
  have hvalid : disk.Valid := Disk.valid_iff.mpr hdisk
  intro deliver
  rcases self.retryPolicy.first_due disk.deliveries startedAtUnix with
    hnone | ⟨before, delivery, after, hdeliveries, hbefore, hdue⟩
  · have hclaim := self.stateStore.transact_claim_none hclaimIo hvalid hnone
    exact .inl ⟨hnone, _, processNextWithAdapter_idle (mapErr_eq_ok.mpr hclaim)
      (self.idle_eq hio hvalid)⟩
  have hmem : delivery ∈ disk.deliveries := by simp [hdeliveries]
  obtain ⟨state, hvisible⟩ := Disk.visible_of_mem_deliveries hmem
  rw [Disk.deliveries_of_visible hvisible] at hdeliveries
  obtain ⟨attempts, scope, claimed, hattempts, -, hclaimed, hclaimedValid, hclaim⟩ :=
    self.stateStore.transact_claim_some hclaimIo hvisible (hvalid state hvisible) hdeliveries hbefore
      hdue
  have hclaimedDeliveries : claimed.outboundDeliveries =
      before ++ delivery.begun startedAtUnix attempts :: after := by
    rw [hclaimed]
    rfl
  have hbegun : (delivery.begun startedAtUnix attempts).Valid :=
    hclaimedValid.deliveries _ (by simp [hclaimedDeliveries])
  let attempt : OutboundDeliveryAttempt := ⟨delivery.id, scope, delivery.message, attempts⟩
  obtain ⟨settled, hsettled, hnumber, hmark⟩ :=
    AdapterAnswer.mark_settles (deliverOutboundMessage attempt imAdapter).1 hbegun hattempts
      (le_max_right nowUnix startedAtUnix)
  have hdisk' : (Disk.mk (some claimed) (some claimed)).visible = some claimed := rfl
  have hid : attempt.deliveryId = (delivery.begun startedAtUnix attempts).id := rfl
  obtain ⟨written, hwritten, hrecord⟩ := self.record_eq (deliver attempt imAdapter).1 hio hdisk'
    hclaimedValid hclaimedDeliveries hid hnumber.symm hmark
  refine .inr ⟨state, before, delivery, after, hvisible, hdeliveries, hbefore, hdue, attempt, settled,
    written, rfl, hsettled, ?_, ?_, ?_⟩
  · rw [hwritten, hclaimed]
    rfl
  · intro record hrecord hdelivering
    rw [hwritten] at hrecord
    rcases List.mem_append.mp hrecord with hrecord | hrecord
    · simp [hdeliveries, hrecord]
    · rcases List.mem_cons.mp hrecord with rfl | hrecord
      · exact absurd hdelivering (hsettled.not_delivering)
      · simp [hdeliveries, hrecord]
  · exact processNextWithAdapter_record (mapErr_eq_ok.mpr hclaim) hrecord

/-- The adapter loses the reply without a word, and its log has one attempt. -/
theorem OutboxWorker.process_next_settles_reply :
    ∃ (settled : OutboundDeliveryRecord) (written : RuntimeState) (attempt : OutboundDeliveryAttempt),
      pendingReply.SettledBy (.error (.uncertain, "")) 5 settled ∧
      defaultWorker.processNextWithAdapter .untroubled .untroubled
          (fun attempt log ↦ (AdapterAnswer.result (.error (.uncertain, "")), attempt :: log)) 5 0
          (⟨some replyState, none⟩, []) =
        .ok (defaultWorker.retryPolicy.report settled (AdapterAnswer.result (.error (.uncertain, ""))))
          (⟨some written, some written⟩, [attempt]) := by
  have hdisk : ∀ visible ∈ (Disk.mk (some replyState) none).visible, visible.validate = .ok () := by
    rintro _ ⟨⟩
    rfl
  rcases defaultWorker.process_next_settles hdisk Io.faultless_untroubled Io.faultless_untroubled
      (fun attempt log ↦ (.error (.uncertain, ""), attempt :: log)) 5 0 [] with
    ⟨hnone, -⟩ | ⟨state, before, delivery, after, hvisible, hdeliveries, -, -, attempt, settled,
      written, -, hsettled, -, -, hround⟩
  · cases hnone pendingReply (by decide)
  · obtain rfl := Option.some.inj hvisible
    have hsingle : [pendingReply] = before ++ delivery :: after := hdeliveries
    obtain ⟨rfl, rfl, rfl⟩ : before = [] ∧ delivery = pendingReply ∧ after = [] := by
      cases before <;> simp_all
    exact ⟨settled, written, attempt, hsettled, hround⟩

end FerrisBridge
