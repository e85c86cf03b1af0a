import FerrisBridge.Store.OutboxOrder
import FerrisBridge.Store.Claiming

/-!
# Repeated enqueues

A caller that enqueues a delivery again, after an ambiguous error, finds the record wherever the
workers have brought it. The code compares the stored record with the one enqueued as a whole, and
not what `hasSameEnqueueIdentity` compares: it recognises the delivery as long as no attempt has
begun, and takes it for a conflict from then on.
-/

open Foundations

namespace FerrisBridge

variable {delivery record : OutboundDeliveryRecord}

namespace RuntimeState

variable {state : RuntimeState} {now : U64}

/-- The enqueue of a record that is there as it is. -/
theorem enqueueOutboundDelivery_eq_duplicate (now : U64) (hstate : state.Valid)
    (hpending : delivery.status = .pending)
    (hdelivery : state.outboundDelivery delivery.id = some delivery) :
    enqueueOutboundDelivery delivery now state = .ok .duplicate state := by
  obtain ⟨hmem, -⟩ := find_key_eq_some hdelivery
  simp only [enqueueOutboundDelivery, estate_bind_eq_ok, estate_get_eq_ok, question_eq_ok,
    OutboundDeliveryRecord.validate_eq_ok, validateOutboundDeliverySession_eq_ok,
    rejectIf_eq_ok, not_not]
  refine ⟨_, _, ⟨rfl, rfl⟩, (), _, ⟨hstate.deliveries delivery hmem, rfl⟩, (), _,
    ⟨hstate.delivery_sessions delivery hmem, rfl⟩, (), _, ⟨hpending, rfl⟩, ?_⟩
  simp only [hdelivery, if_true, estate_pure_eq_ok, and_self]

/-- An enqueue succeeds next to a record with its id only if it is that record. -/
theorem eq_of_enqueueOutboundDelivery {status : OutboundDeliveryEnqueueStatus} {state' : RuntimeState}
    (hrecord : state.outboundDelivery delivery.id = some record)
    (h : enqueueOutboundDelivery delivery now state = .ok status state') : delivery = record := by
  obtain ⟨-, -, -, ⟨-, -, hexisting⟩ | ⟨-, hnone, -⟩⟩ := enqueueOutboundDelivery_eq_ok h
  · exact Option.some.inj (hexisting.symm.trans hrecord)
  · cases hnone.symm.trans hrecord

end RuntimeState

namespace StateStore

variable {self : StateStore} {disk : Disk} {io : Io}

theorem call_enqueue_duplicate (self : StateStore) (hdisk : disk.Valid) (hread : io.read = none)
    (hpending : delivery.status = .pending) (hdelivery : disk.delivery delivery.id = some delivery) :
    self.call io (.method (.enqueueOutboundDelivery delivery)) disk = .ok (.enqueued .duplicate) disk := by
  rw [← Disk.delivery_loaded io] at hdelivery
  have henqueue := RuntimeState.enqueueOutboundDelivery_eq_duplicate io.now (hdisk.loaded io)
    hpending hdelivery
  have hwork : (Method.enqueueOutboundDelivery delivery).work io.now (io.loaded disk.visible) =
      .ok (.enqueued .duplicate, .nothing) (io.loaded disk.visible) :=
    replying_eq_ok.mpr ⟨_, (estate_ok_bind henqueue).trans rfl, rfl⟩
  exact (self.transact_eq hread (Disk.valid_iff.mp hdisk) hwork).trans rfl

/-- Next to another record with its id an enqueue fails and leaves the file alone. -/
theorem call_enqueue_conflict (self : StateStore) (hdisk : disk.Valid) (io : Io)
    (hrecord : disk.delivery delivery.id = some record) (hne : delivery ≠ record) :
    ∃ err, self.call io (.method (.enqueueOutboundDelivery delivery)) disk = .error err disk := by
  have hrefused {reply : Reply} {commit : Commit} {state : RuntimeState}
      (h : (Method.enqueueOutboundDelivery delivery).work io.now (io.loaded disk.visible) =
        .ok (reply, commit) state) : False := by
    obtain ⟨_, hwork, -⟩ := replying_eq_ok.mp h
    rw [← Disk.delivery_loaded io] at hrecord
    exact hne (RuntimeState.eq_of_enqueueOutboundDelivery hrecord
      (StateStore.enqueueOutboundDelivery_eq_ok hwork).1)
  have hcall := self.call_effect io (.method (.enqueueOutboundDelivery delivery)) disk
  generalize self.call io (.method (.enqueueOutboundDelivery delivery)) disk = result at hcall ⊢
  cases hcall with
  | refused err => exact ⟨err, rfl⟩
  | answered hrequest hwork | confirmed hrequest hwork =>
    cases hrequest
    exact (hrefused hwork).elim
  | written hcomputes | unconfirmed _ hcomputes =>
    obtain ⟨commit, -, hwork⟩ := hcomputes.work_eq_ok hdisk
    exact (hrefused hwork).elim

/-- What an idempotent enqueue answers: the same delivery is a duplicate, and another one with its id
is refused; neither changes the file. -/
def EnqueuesOnce (self : StateStore) (delivery : OutboundDeliveryRecord) (disk : Disk) : Prop :=
  (∀ io : Io, io.read = none →
    self.call io (.method (.enqueueOutboundDelivery delivery)) disk =
      .ok (.enqueued .duplicate) disk) ∧
  ∀ (other : OutboundDeliveryRecord) (io : Io), other.id = delivery.id →
    (other.sessionId ≠ delivery.sessionId ∨ other.message ≠ delivery.message ∨
      other.createdAtUnix ≠ delivery.createdAtUnix) →
    ∃ err, self.call io (.method (.enqueueOutboundDelivery other)) disk = .error err disk

/-- After a pending delivery has been committed, its record stays, with the identity it was enqueued
with. In every state that follows, enqueueing it again is idempotent if and only if the record is
still pending; what is different under the same id is refused in any case. -/
theorem enqueue_idempotent_iff_pending {calls : List Call} {e : CallEntry}
    (he : e ∈ self.history calls) (hpending : delivery.status = .pending)
    (hcommitted : e.after.delivery delivery.id = some delivery) :
    ∃ record, (self.after calls).delivery delivery.id = some record ∧
      record.hasSameEnqueueIdentity delivery = true ∧
      (self.EnqueuesOnce delivery (self.after calls) ↔ record.status = .pending) := by
  have hdisk : (self.after calls).Valid := history_valid.2
  obtain ⟨record, hrecord, hevolves⟩ := (history_evolves he).delivery hcommitted
  have hidentity := hevolves.hasSameEnqueueIdentity
  refine ⟨record, hrecord, hidentity, fun h ↦ ?_, fun hstatus ↦ ⟨fun io hread ↦ ?_, ?_⟩⟩
  · by_contra hstatus
    have hne : delivery ≠ record := by
      rintro rfl
      exact hstatus hpending
    obtain ⟨err, hrefused⟩ := self.call_enqueue_conflict hdisk .untroubled hrecord hne
    cases hrefused.symm.trans (h.1 .untroubled rfl)
  · obtain rfl := hevolves.eq_of_pending hstatus
    exact self.call_enqueue_duplicate hdisk hread hpending hrecord
  · intro other io hid hdifferent
    rw [← hid] at hrecord
    refine self.call_enqueue_conflict hdisk io hrecord fun heq ↦ ?_
    obtain ⟨-, hsession, hmessage, hcreated⟩ :=
      OutboundDeliveryRecord.hasSameEnqueueIdentity_iff.mp hidentity
    subst heq
    rcases hdifferent with h | h | h
    · exact h hsession
    · exact h hmessage
    · exact h hcreated

end StateStore

/-! ### A reply that is enqueued again -/

theorem chatState_validate : chatState.validate = .ok () := rfl

/-- The chat is saved, and a reply is enqueued. -/
def enqueuingReply : List Call :=
  [⟨.save chatState chatState_validate, .untroubled⟩,
    ⟨.method (.enqueueOutboundDelivery pendingReply), .untroubled⟩]

/-- A worker claims the reply. -/
def claimingReply : Call :=
  ⟨.method (.claimNextOutboundDeliveryAttempt 0 ⟨5, 7, 60, by decide, by decide, by decide⟩),
    .untroubled⟩

theorem StateStore.enqueue_idempotent_iff_pending_reply :
    (StateStore.mk "state.json").EnqueuesOnce pendingReply
      ((StateStore.mk "state.json").after enqueuingReply) := by
  let before : Disk := ⟨some chatState, some chatState⟩
  let after : Disk := ⟨some replyState, some replyState⟩
  let call : Call := ⟨.method (.enqueueOutboundDelivery pendingReply), .untroubled⟩
  let e : CallEntry := ⟨before, call, .ok (.enqueued .queued), after⟩
  have he : e ∈ (StateStore.mk "state.json").history enqueuingReply :=
    List.mem_cons_of_mem _ List.mem_cons_self
  have hcommitted : e.after.delivery pendingReply.id = some pendingReply := rfl
  obtain ⟨record, hrecord, -, hiff⟩ :=
    (StateStore.mk "state.json").enqueue_idempotent_iff_pending he rfl hcommitted
  have hpending : ((StateStore.mk "state.json").after enqueuingReply).delivery pendingReply.id =
    some pendingReply := rfl
  obtain rfl := Option.some.inj (hpending.symm.trans hrecord)
  exact hiff.mpr rfl

/-- Once the reply has been claimed, the same enqueue is taken for a conflict. -/
theorem enqueue_conflicts_after_claim :
    (∃ e ∈ (StateStore.mk "state.json").history (enqueuingReply ++ [claimingReply]),
      e.input.request = .method (.enqueueOutboundDelivery pendingReply) ∧
        e.output = .ok (.enqueued .queued)) ∧
    (StateStore.mk "state.json").call .untroubled (.method (.enqueueOutboundDelivery pendingReply))
        ((StateStore.mk "state.json").after (enqueuingReply ++ [claimingReply])) =
      .error "conflicting outbound delivery out_1"
        ((StateStore.mk "state.json").after (enqueuingReply ++ [claimingReply])) := by
  constructor
  · exact ⟨_, List.mem_cons_of_mem _ List.mem_cons_self, rfl, rfl⟩
  · rfl

end FerrisBridge
