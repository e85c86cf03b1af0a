import FerrisBridge.Store.Agreement

/-!
# Durability

A crash leaves the durable content of the file, which may be older than the visible one. Whatever is
durable is never lost: the durable content only evolves, and the visible content never falls behind
it. What a call acknowledges is therefore safe if it is durable when the call returns.
-/

open Foundations

namespace FerrisBridge

/-! ## Acknowledged records -/

/-- What a caller has handed to the store. -/
inductive Submission
  | event (event : Event)
  | delivery (delivery : OutboundDeliveryRecord)

namespace RuntimeState

variable {state state' : RuntimeState} {now : U64}

/-- The state has the record of an event with its message record, or the record of a delivery. -/
def Holds (state : RuntimeState) : Submission → Prop
  | .event event =>
    (∃ record, state.inboundEvent event.id = some record ∧
      record.receivedAtUnix = event.receivedAtUnix) ∧
    ∀ message, event.kind = .messageReceived message → ∃ sessionId,
      message.sessionId = some sessionId ∧
        (state.messageRecordForEvent event.id).map (·.identity) =
          some (event.id, sessionId, message, event.receivedAtUnix)
  | .delivery delivery => ∃ persisted, state.outboundDelivery delivery.id = some persisted ∧
      persisted.hasSameEnqueueIdentity delivery = true

/-- The submission would be a duplicate in the state. -/
def Repeats (state : RuntimeState) : Submission → Prop
  | .event event => state.Holds (.event event)
  | .delivery delivery => state.outboundDelivery delivery.id = some delivery

variable {submission : Submission}

theorem Holds.evolves (h : state.Holds submission) (hevolves : state.Evolves state') :
    state'.Holds submission := by
  cases submission with
  | event event =>
    obtain ⟨⟨record, hrecord, hreceived⟩, hmessage⟩ := h
    refine ⟨⟨record, hevolves.inboundEvent hrecord, hreceived⟩, fun message hkind ↦ ?_⟩
    have hid := find_key_isSome.mp (Option.isSome_iff_exists.mpr ⟨record, hrecord⟩)
    rw [hevolves.messages event.id hid]
    exact hmessage message hkind
  | delivery delivery =>
    obtain ⟨persisted, hpersisted, hsame⟩ := h
    obtain ⟨persisted', hpersisted', hlater⟩ := hevolves.delivery hpersisted
    exact ⟨persisted', hpersisted', hlater.sameEnqueueIdentity_iff.mpr hsame⟩

/-- The message record that an event asks for. -/
theorem identity_of_queuedMessageForEvent {event : Event} {time : U64}
    {queued : Option QueuedMessage} {message : Message}
    (h : state.queuedMessageForEvent event time = .ok queued)
    (hkind : event.kind = .messageReceived message) :
    ∃ sessionId, message.sessionId = some sessionId ∧
      queued.map (·.identity) = some (event.id, sessionId, message, event.receivedAtUnix) := by
  simp only [queuedMessageForEvent, hkind, except_bind_eq_ok, okOr_eq_ok, except_pure_eq_ok] at h
  obtain ⟨sessionId, hsession, _, -, record, hrecord, rfl⟩ := h
  obtain ⟨hvalid, hmessage, heventId, hreceived, -⟩ := QueuedMessage.fromEvent_eq_ok hrecord
  rw [hkind] at hmessage
  obtain rfl := EventKind.messageReceived.inj hmessage
  obtain rfl := Option.some.inj (hsession.symm.trans hvalid.session)
  refine ⟨_, hsession, ?_⟩
  rw [Option.map_some, QueuedMessage.identity, heventId, hreceived]

/-- Recording an event leaves its record in the state, also when it is a duplicate. -/
theorem holds_of_recordInboundEvent {event : Event} {status : InboundEventRecordStatus}
    (hstate' : state'.Valid)
    (h : recordInboundEvent event now state = .ok status state') : state'.Holds (.event event) := by
  obtain ⟨queued, hqueued, ⟨-, rfl, hexisting, hmessage⟩ | ⟨-, hnew, record, hrecord, rfl⟩⟩ :=
    recordInboundEventAt_eq_ok h
  · refine ⟨hexisting, fun message hkind ↦ ?_⟩
    rw [hmessage]
    exact identity_of_queuedMessageForEvent hqueued hkind
  · obtain ⟨-, hid, hreceived, -⟩ := fromEvent_eq_ok hrecord
    have hevents : (pushInboundEvent record queued state).inboundEvents =
        state.inboundEvents ++ [record] := by cases queued <;> rfl
    refine ⟨⟨record, ?_, hreceived⟩, fun message hkind ↦ ?_⟩
    · rw [← hid]
      exact find_key_of_mem hstate'.event_ids (hevents ▸ List.mem_append_right _ (by simp))
    · obtain ⟨sessionId, hsession, hidentity⟩ := identity_of_queuedMessageForEvent hqueued hkind
      obtain ⟨pushed, rfl, hpushed⟩ := Option.map_eq_some_iff.mp hidentity
      refine ⟨sessionId, hsession, ?_⟩
      have howned : pushed ∈ (pushInboundEvent record (some pushed) state).ownedMessages :=
        List.mem_append_right _ (List.mem_append_right _ (by simp))
      rw [hstate'.messageRecordForEvent_eq_some.mpr ⟨howned, congrArg (·.1) hpushed⟩,
        Option.map_some, hpushed]

theorem holds_of_enqueueOutboundDelivery {delivery : OutboundDeliveryRecord}
    {status : OutboundDeliveryEnqueueStatus} (hstate' : state'.Valid)
    (h : enqueueOutboundDelivery delivery now state = .ok status state') :
    state'.Holds (.delivery delivery) := by
  refine ⟨delivery, ?_, by simp [OutboundDeliveryRecord.hasSameEnqueueIdentity]⟩
  obtain ⟨-, -, -, ⟨-, rfl, hexisting⟩ | ⟨-, -, rfl⟩⟩ := enqueueOutboundDelivery_eq_ok h
  · exact hexisting
  · exact find_key_of_mem hstate'.delivery_ids (List.mem_append_right _ (List.mem_singleton_self _))

end RuntimeState

/-! ## What a crash can lose -/

/-- The durable content is valid, and the visible content has evolved from it. -/
structure Disk.Recoverable (disk : Disk) : Prop where
  valid : disk.Valid
  durable : ∀ state ∈ disk.durable, state.Valid
  behind : ∀ state ∈ disk.durable, ∃ state' ∈ disk.visible, state.Evolves state'

/-- A crash leaves the durable content. -/
def Disk.crash (disk : Disk) : Disk := ⟨disk.durable, disk.durable⟩

/-- The durable content does not disappear, and it evolves. -/
def Disk.Persists (before after : Disk) : Prop :=
  ∀ state ∈ before.durable, ∃ state' ∈ after.durable, state.Evolves state'

theorem Disk.Persists.refl (disk : Disk) : disk.Persists disk :=
  fun state hstate ↦ ⟨state, hstate, .refl state⟩

theorem Disk.Persists.trans (first second third : Disk) (h : first.Persists second)
    (h' : second.Persists third) : first.Persists third := by
  intro state hstate
  obtain ⟨state', hstate', hevolves⟩ := h state hstate
  obtain ⟨state'', hstate'', hevolves'⟩ := h' state' hstate'
  exact ⟨state'', hstate'', hevolves.trans hevolves'⟩

theorem Disk.Recoverable.crash {disk : Disk} (h : disk.Recoverable) :
    disk.crash.Recoverable ∧ disk.Persists disk.crash :=
  ⟨⟨h.durable, h.durable, Disk.Evolves.refl disk.crash⟩, .refl disk⟩

/-- A call keeps the file recoverable and what is durable. -/
theorem Effect.recoverable {io : Io} {disk : Disk} {request : Request}
    {result : EStateM.Result String Disk Reply} (hdisk : disk.Recoverable)
    (h : Effect io disk request result) :
    (finalState result).Recoverable ∧ disk.Persists (finalState result) := by
  obtain ⟨hvalid, hevolves⟩ := h.evolves hdisk.valid
  have hbehind := Disk.Evolves.trans ⟨disk.durable, none⟩ disk _ hdisk.behind hevolves
  cases h with
  | refused => exact ⟨hdisk, .refl disk⟩
  | answered => exact ⟨hdisk, .refl disk⟩
  | confirmed => exact ⟨⟨hvalid, hvalid, Disk.Evolves.refl disk⟩, hdisk.behind⟩
  | @written _ state =>
    exact ⟨⟨hvalid, hvalid, Disk.Evolves.refl ⟨some state, some state⟩⟩, hbehind⟩
  | unconfirmed => exact ⟨⟨hvalid, hdisk.durable, hbehind⟩, .refl disk⟩

/-- What a method asks the store to keep. -/
def Method.submission : Method → Option Submission
  | .persistInboundEvent event => some (.event event)
  | .enqueueOutboundDelivery delivery => some (.delivery delivery)
  | _ => none

/-- A submission that is a duplicate in the visible content is in the durable content as well. -/
def Disk.RepeatsDurable (disk : Disk) (submission : Submission) : Prop :=
  (∃ state ∈ disk.visible, state.Repeats submission) →
    ∃ state ∈ disk.durable, state.Holds submission

/-- A submission that succeeds is in the state, which is saved unless it is a duplicate. -/
theorem Method.holds {method : Method} {submission : Submission} {state state' : RuntimeState}
    {now : U64} {reply : Reply} {commit : Commit} (hstate : state.Valid)
    (hmethod : method.submission = some submission)
    (h : method.work now state = .ok (reply, commit) state') :
    state'.Holds submission ∧ (commit = .save ∨ commit = .nothing ∧ state.Repeats submission) := by
  have hstate' := (Method.change hstate h).1.valid hstate
  cases method with
  | persistInboundEvent event =>
    obtain rfl := Option.some.inj hmethod
    obtain ⟨status, hwork, -⟩ := replying_eq_ok.mp h
    obtain ⟨hrecord, rfl⟩ := StateStore.persistInboundEvent_eq_ok hwork
    have hholds := RuntimeState.holds_of_recordInboundEvent hstate' hrecord
    refine ⟨hholds, ?_⟩
    obtain ⟨_, -, ⟨rfl, rfl, -⟩ | ⟨rfl, -⟩⟩ := RuntimeState.recordInboundEventAt_eq_ok hrecord
    · exact .inr ⟨rfl, hholds⟩
    · exact .inl rfl
  | enqueueOutboundDelivery delivery =>
    obtain rfl := Option.some.inj hmethod
    obtain ⟨status, hwork, -⟩ := replying_eq_ok.mp h
    obtain ⟨henqueue, rfl⟩ := StateStore.enqueueOutboundDelivery_eq_ok hwork
    refine ⟨RuntimeState.holds_of_enqueueOutboundDelivery hstate' henqueue, ?_⟩
    obtain ⟨-, -, -, ⟨rfl, rfl, hexisting⟩ | ⟨rfl, -⟩⟩ :=
      RuntimeState.enqueueOutboundDelivery_eq_ok henqueue
    · exact .inr ⟨rfl, hexisting⟩
    · exact .inl rfl
  | _ => cases hmethod

/-- A state in which a submission is a duplicate has not been made up for a missing file. -/
theorem Io.visible_of_repeats {io : Io} {visible : Option RuntimeState} {submission : Submission}
    (h : (io.loaded visible).Repeats submission) : visible = some (io.loaded visible) := by
  cases visible with
  | none =>
    cases submission with
    | event event =>
      obtain ⟨⟨_, hrecord, -⟩, -⟩ := h
      cases hrecord
    | delivery delivery => cases h
  | some state => rfl

/-- A submission that the store accepts is durable, unless it was a duplicate of a record that was
visible and not durable. -/
theorem StateStore.submission_durable {self : StateStore} {io : Io} {disk disk' : Disk}
    {method : Method} {submission : Submission} {reply : Reply} (hdisk : disk.Valid)
    (hmethod : method.submission = some submission) (hrepeats : disk.RepeatsDurable submission)
    (h : self.call io (.method method) disk = .ok reply disk') :
    ∃ state ∈ disk'.durable, state.Holds submission := by
  obtain ⟨commit, state, hwork, rfl⟩ := self.method_eq_ok hdisk h
  obtain ⟨hholds, rfl | ⟨rfl, hduplicate⟩⟩ := Method.holds (hdisk.loaded io) hmethod hwork
  · exact ⟨state, rfl, hholds⟩
  · exact hrepeats ⟨_, Io.visible_of_repeats hduplicate, hduplicate⟩

end FerrisBridge
