import FerrisBridge.Store.Saving

/-!
# Deliveries under the store

What a call does to the record of one delivery: it stays, it is added as a pending one, or it moves
along one edge, and then the method says which. A saved snapshot never moves a record.
-/

open Foundations

namespace FerrisBridge

/-! ## Methods -/

/-- The delivery that a method marks or resolves, with the status that it leaves and the one that it
reaches. -/
def Method.transition :
    Method → Option (OutboundDeliveryId × OutboundDeliveryStatus × OutboundDeliveryStatus)
  | .markOutboundDeliveryDelivered id _ => some (id, .delivering, .delivered)
  | .markOutboundDeliveryFailed id _ _ => some (id, .delivering, .failed)
  | .markOutboundDeliveryUncertain id _ _ => some (id, .delivering, .uncertain)
  | .resolveOutboundDeliveryAsDelivered id _ => some (id, .uncertain, .delivered)
  | .resolveOutboundDeliveryAsFailed id _ _ => some (id, .uncertain, .failed)
  | _ => none

/-- Why a method moves the record of a delivery. -/
inductive Method.Moves (before after : OutboundDeliveryRecord) : Method → Prop
  | claim {startedAtUnix : U64} {retryPolicy : OutboundRetryPolicy}
    (hdue : retryPolicy.isDue before startedAtUnix = true) (hafter : after.status = .delivering) :
    Moves before after (.claimNextOutboundDeliveryAttempt startedAtUnix retryPolicy)
  | transition {method : Method}
    (htransition : method.transition = some (before.id, before.status, after.status)) :
    Moves before after method
  | recovery {recoveredAtUnix : U64} (hbefore : before.status = .delivering)
    (hafter : after.status = .uncertain) :
    Moves before after (.reconcileOutboundDeliveriesAtStartup recoveredAtUnix)

/-- A record stays, or a method moves it along an edge. -/
def Method.StaysOrMoves (method : Method) (before after : OutboundDeliveryRecord) : Prop :=
  after = before ∨ before.Advances after ∧ method.Moves before after

/-- The records of the deliveries after a method: the old ones in place, and pending new ones. -/
def Method.MovesDeliveries (method : Method) (before after : List OutboundDeliveryRecord) : Prop :=
  ∃ kept added, after = kept ++ added ∧ List.Forall₂ method.StaysOrMoves before kept ∧
    ∀ delivery ∈ added, delivery.status = .pending

namespace Method.MovesDeliveries

variable {method : Method} {before after : List OutboundDeliveryRecord}
  {delivery delivery' : OutboundDeliveryRecord}

theorem refl (method : Method) (deliveries : List OutboundDeliveryRecord) :
    method.MovesDeliveries deliveries deliveries :=
  ⟨deliveries, [], (List.append_nil _).symm, List.forall₂_same.mpr fun _ _ ↦ .inl rfl,
    fun _ h ↦ absurd h List.not_mem_nil⟩

theorem append {added : List OutboundDeliveryRecord}
    (h : ∀ delivery ∈ added, delivery.status = .pending) :
    method.MovesDeliveries before (before ++ added) :=
  ⟨before, added, rfl, List.forall₂_same.mpr fun _ _ ↦ .inl rfl, h⟩

theorem replace (hadvances : delivery.Advances delivery') (hmoves : method.Moves delivery delivery') :
    method.MovesDeliveries (before ++ delivery :: after) (before ++ delivery' :: after) :=
  ⟨_, [], (List.append_nil _).symm, forall₂_replace (fun _ ↦ .inl rfl) (.inr ⟨hadvances, hmoves⟩),
    fun _ h ↦ absurd h List.not_mem_nil⟩

end Method.MovesDeliveries

namespace RuntimeState

variable {state state' : RuntimeState} {now time : U64} {method : Method}
  {delivery : OutboundDeliveryRecord}

/-- A transition of a run leaves the deliveries. -/
theorem runTransition_deliveries {id : RunId} {update : EStateM String RunRecord Unit} {u : Unit}
    (h : (do runMut id update; modify (touchAt time) : EStateM String RuntimeState Unit) state =
      .ok u state') : state'.outboundDeliveries = state.outboundDeliveries := by
  simp only [estate_bind_unit_eq_ok, estate_modify_eq_ok] at h
  obtain ⟨_, hrun, rfl⟩ := h
  obtain ⟨_, _, _, _, -, rfl, -⟩ := runMut_eq_ok hrun
  rfl

theorem movesDeliveries_of_updateOutboundDelivery {id : OutboundDeliveryId}
    {update : EStateM String OutboundDeliveryRecord Unit} {source target : OutboundDeliveryStatus}
    (hupdate : ∀ record record', update record = .ok () record' →
      record.Advances record' ∧ record.status = source ∧ record'.status = target)
    (htransition : method.transition = some (id, source, target))
    (h : updateOutboundDelivery id now update state = .ok delivery state') :
    method.MovesDeliveries state.outboundDeliveries state'.outboundDeliveries := by
  obtain ⟨before, previous, after, hdeliveries, rfl, hfound, hprevious⟩ :=
    updateOutboundDelivery_eq_ok h
  obtain ⟨hadvances, rfl, rfl⟩ := hupdate previous delivery hprevious
  obtain ⟨-, rfl⟩ := find_key_eq_some hfound
  rw [hdeliveries]
  exact .replace hadvances (.transition htransition)

theorem movesDeliveries_of_reconcileOutboundDeliveriesAtStartup {recoveredAtUnix : U64}
    {result : OutboundDeliveryStartupRecoveryReport × Bool}
    (h : reconcileOutboundDeliveriesAtStartup recoveredAtUnix state = .ok result state') :
    (Method.reconcileOutboundDeliveriesAtStartup recoveredAtUnix).MovesDeliveries
      state.outboundDeliveries state'.outboundDeliveries := by
  simp only [reconcileOutboundDeliveriesAtStartup, estate_bind_eq_ok, estate_modify_eq_ok,
    estate_pure_eq_ok, zoom_eq_ok] at h
  obtain ⟨loop, _, ⟨deliveries, hloop, rfl⟩, _, _, rfl, -, rfl⟩ := h
  obtain ⟨_, heq, -⟩ := touchLatest_eq loop.latestRecoveredAt
    { state with outboundDeliveries := deliveries }
  rw [heq]
  refine ⟨deliveries, [], (List.append_nil _).symm, ?_, fun _ h ↦ absurd h List.not_mem_nil⟩
  refine forEachMut_invariant
    (fun _ done done' ↦ List.Forall₂
      (Method.reconcileOutboundDeliveriesAtStartup recoveredAtUnix).StaysOrMoves done done')
    (fun loop done done' delivery loop' delivery' hdone hbody ↦ ?_) .nil hloop
  refine List.rel_append hdone (.cons ?_ .nil)
  rcases recoverOutboundDelivery_eq_ok hbody with ⟨-, rfl, -⟩ | ⟨_, hadvances, hbefore, hafter, -⟩
  · exact .inl rfl
  · exact .inr ⟨hadvances, .recovery hbefore hafter⟩

end RuntimeState

namespace Method

open RuntimeState OutboundDeliveryRecord

variable {state state' : RuntimeState} {now : U64} {method : Method} {reply : Reply}
  {commit : Commit}

/-- What a method does to the deliveries. -/
theorem movesDeliveries (h : method.work now state = .ok (reply, commit) state') :
    method.MovesDeliveries state.outboundDeliveries state'.outboundDeliveries := by
  cases method with
  | load =>
    simp only [work, estate_bind_eq_ok, estate_get_eq_ok, estate_pure_eq_ok] at h
    obtain ⟨_, _, ⟨rfl, rfl⟩, -, rfl⟩ := h
    exact .refl _ _
  | persistInboundEvent =>
    obtain ⟨_, hwork, -⟩ := replying_eq_ok.mp h
    obtain ⟨queued, -, ⟨-, rfl, -⟩ | ⟨-, -, record, -, rfl⟩⟩ :=
      recordInboundEventAt_eq_ok (StateStore.persistInboundEvent_eq_ok hwork).1
    · exact .refl _ _
    · cases queued <;> exact .refl _ _
  | pollMessageQueue =>
    obtain ⟨_, hwork, -⟩ := replying_eq_ok.mp h
    simp only [StateStore.pollMessageQueue, estate_bind_eq_ok, estate_get_eq_ok,
      estate_pure_eq_ok] at hwork
    obtain ⟨_, _, ⟨rfl, rfl⟩, -, rfl⟩ := hwork
    exact .refl _ _
  | claimMessageBatch =>
    obtain ⟨_, hwork, -⟩ := replying_eq_ok.mp h
    rcases claimMessageBatch_eq_ok (StateStore.claimMessageBatch_eq_ok hwork).1 with
      ⟨_, -, rfl⟩ | ⟨_, _, -, -, -, -, -, -, -, rfl⟩ <;> exact .refl _ _
  | enqueueOutboundDelivery =>
    obtain ⟨_, hwork, -⟩ := replying_eq_ok.mp h
    obtain ⟨-, hpending, -, ⟨-, rfl, -⟩ | ⟨-, -, rfl⟩⟩ :=
      enqueueOutboundDelivery_eq_ok (StateStore.enqueueOutboundDelivery_eq_ok hwork).1
    · exact .refl _ _
    · exact .append fun _ h ↦ List.mem_singleton.mp h ▸ hpending
  | claimNextOutboundDeliveryAttempt =>
    obtain ⟨_, hwork, -⟩ := replying_eq_ok.mp h
    obtain ⟨_, hclaimed, -⟩ := StateStore.claimNextOutboundDeliveryAttempt_eq_ok hwork
    obtain ⟨-, rfl⟩ | ⟨before, previous, delivery, after, -, hdeliveries, rfl, hdue, hbegin, -⟩ :=
      claimNextOutboundDeliveryWhere_eq_ok hclaimed
    · exact .refl _ _
    · obtain ⟨hadvances, hdelivering⟩ := advances_of_beginDelivery hbegin
      rw [hdeliveries]
      exact .replace hadvances (.claim hdue hdelivering)
  | markOutboundDeliveryDelivered =>
    obtain ⟨_, hwork, -⟩ := replying_eq_ok.mp h
    exact movesDeliveries_of_updateOutboundDelivery (fun _ _ ↦ advances_of_markDelivered) rfl
      (StateStore.writing_eq_ok hwork).1
  | markOutboundDeliveryFailed =>
    obtain ⟨_, hwork, -⟩ := replying_eq_ok.mp h
    exact movesDeliveries_of_updateOutboundDelivery (fun _ _ ↦ advances_of_markFailed) rfl
      (StateStore.writing_eq_ok hwork).1
  | markOutboundDeliveryUncertain =>
    obtain ⟨_, hwork, -⟩ := replying_eq_ok.mp h
    exact movesDeliveries_of_updateOutboundDelivery (fun _ _ ↦ advances_of_markUncertain) rfl
      (StateStore.writing_eq_ok hwork).1
  | resolveOutboundDeliveryAsDelivered =>
    obtain ⟨_, hwork, -⟩ := replying_eq_ok.mp h
    rcases StateStore.resolveOutboundDeliveryAsDelivered_eq_ok hwork with
      ⟨hresolve, -⟩ | ⟨rfl, -⟩
    · exact movesDeliveries_of_updateOutboundDelivery
        (fun _ _ ↦ advances_of_resolveUncertainAsDelivered) rfl hresolve
    · exact .refl _ _
  | resolveOutboundDeliveryAsFailed =>
    obtain ⟨_, hwork, -⟩ := replying_eq_ok.mp h
    rcases StateStore.resolveOutboundDeliveryAsFailed_eq_ok hwork with ⟨hresolve, -⟩ | ⟨rfl, -⟩
    · exact movesDeliveries_of_updateOutboundDelivery
        (fun _ _ ↦ advances_of_resolveUncertainAsFailed) rfl hresolve
    · exact .refl _ _
  | reconcileRunsAtStartup =>
    obtain ⟨_, hwork, -⟩ := replying_eq_ok.mp h
    simp only [StateStore.reconcileRunsAtStartup, RuntimeState.reconcileRunsAtStartup,
      estate_bind_eq_ok, estate_get_eq_ok, estate_modify_eq_ok, estate_pure_eq_ok,
      zoom_eq_ok] at hwork
    obtain ⟨_, _, ⟨_, _, ⟨rfl, rfl⟩, loop, _, ⟨runs, -, rfl⟩, _, _, rfl, -, rfl⟩, -, rfl⟩ := hwork
    obtain ⟨_, heq, -⟩ := touchLatest_eq loop.latestInterruptedAt { state with runs }
    rw [heq]
    exact .refl _ _
  | reconcileOutboundDeliveriesAtStartup =>
    obtain ⟨_, hwork, -⟩ := replying_eq_ok.mp h
    simp only [StateStore.reconcileOutboundDeliveriesAtStartup, estate_bind_eq_ok,
      estate_pure_eq_ok] at hwork
    obtain ⟨_, _, hreconcile, -, rfl⟩ := hwork
    exact movesDeliveries_of_reconcileOutboundDeliveriesAtStartup hreconcile
  | startAgentRun =>
    obtain ⟨_, hwork, -⟩ := replying_eq_ok.mp h
    obtain ⟨-, -, _, -, -, -, hstart⟩ := StateStore.startAgentRun_eq_ok hwork
    exact runTransition_deliveries hstart ▸ .refl _ _
  | completeAgentRun =>
    obtain ⟨_, hwork, -⟩ := replying_eq_ok.mp h
    obtain ⟨_, _, -, -, ⟨-, hcomplete⟩ | ⟨-, rfl, -⟩⟩ := StateStore.completeAgentRun_eq_ok hwork
    · obtain ⟨-, -, _, _, _, _, -, -, -, rfl, -, -, -, -, hdeliveries, -⟩ :=
        completeRunWithOutputDeliveries_eq_ok hcomplete
      exact .append fun delivery hdelivery ↦ (hdeliveries delivery hdelivery).1.2.2.1
    · exact .refl _ _
  | failAgentRun =>
    obtain ⟨_, hwork, -⟩ := replying_eq_ok.mp h
    rcases StateStore.failAgentRun_eq_ok hwork with ⟨-, hfail, -⟩ | ⟨-, rfl, -⟩
    · exact runTransition_deliveries hfail ▸ .refl _ _
    · exact .refl _ _
  | interruptAgentRun =>
    obtain ⟨_, hwork, -⟩ := replying_eq_ok.mp h
    rcases StateStore.interruptAgentRun_eq_ok hwork with ⟨-, hinterrupt, -⟩ | ⟨-, rfl, -⟩
    · exact runTransition_deliveries hinterrupt ▸ .refl _ _
    · exact .refl _ _

end Method

/-! ## Calls -/

/-- The visible record of a delivery. -/
def Disk.delivery (disk : Disk) (id : OutboundDeliveryId) : Option OutboundDeliveryRecord :=
  disk.visible.bind (·.outboundDelivery id)

/-- The record of a delivery stays visible, and it evolves. -/
theorem Disk.Evolves.delivery {before after : Disk} (h : before.Evolves after)
    {id : OutboundDeliveryId} {record : OutboundDeliveryRecord}
    (hrecord : before.delivery id = some record) :
    ∃ record', after.delivery id = some record' ∧ record.Evolves record' := by
  obtain ⟨state, hstate, hfound⟩ := Option.bind_eq_some_iff.mp hrecord
  obtain ⟨state', hstate', hevolves⟩ := h state hstate
  obtain ⟨record', hfound', hrecord'⟩ := hevolves.delivery hfound
  exact ⟨record', Option.bind_eq_some_iff.mpr ⟨state', hstate', hfound'⟩, hrecord'⟩

/-- What a call does to the record of one delivery. -/
inductive DeliveryStep (request : Request) :
    Option OutboundDeliveryRecord → Option OutboundDeliveryRecord → Prop
  | stays (record : Option OutboundDeliveryRecord) : DeliveryStep request record record
  | added {record : OutboundDeliveryRecord} (hpending : record.status = .pending) :
    DeliveryStep request none (some record)
  | moved {method : Method} {before after : OutboundDeliveryRecord}
    (hrequest : request = .method method) (hadvances : before.Advances after)
    (hmoves : method.Moves before after) : DeliveryStep request (some before) (some after)

section Calls

variable {self : StateStore} {io : Io} {disk : Disk} {request : Request} {method : Method}
  {reply : Reply} {commit : Commit} {state : RuntimeState} {id : OutboundDeliveryId}

theorem Disk.delivery_loaded (io : Io) :
    (io.loaded disk.visible).outboundDelivery id = disk.delivery id := by
  unfold Disk.delivery
  cases disk.visible <;> rfl

theorem Method.deliveryStep (h : method.work io.now (io.loaded disk.visible) = .ok (reply, commit) state) :
    DeliveryStep (.method method) (disk.delivery id) (state.outboundDelivery id) := by
  obtain ⟨kept, added, hdeliveries, hkept, hadded⟩ := method.movesDeliveries h
  have hkey : ∀ before after, method.StaysOrMoves before after → after.id = before.id := by
    rintro before after (rfl | ⟨hadvances, -⟩)
    · rfl
    · exact hadvances.id_eq
  rw [← Disk.delivery_loaded io]
  unfold RuntimeState.outboundDelivery
  rw [hdeliveries]
  rcases find_key_append_of_forall₂ added hkey hkept id with
    ⟨before, after, hbefore, hafter, hstep⟩ | ⟨hbefore, hafter⟩
  · rw [hbefore, hafter]
    rcases hstep with rfl | ⟨hadvances, hmoves⟩
    · exact .stays _
    · exact .moved rfl hadvances hmoves
  · rw [hbefore, hafter]
    cases hfound : added.find? (·.id = id) with
    | none => exact .stays none
    | some delivery => exact .added (hadded delivery (List.mem_of_find?_eq_some hfound))

/-- A saved snapshot keeps the records that are there, and adds pending ones. -/
theorem Computes.deliveryStep (hdisk : disk.Valid) (h : Computes io disk.visible request reply state)
    (id : OutboundDeliveryId) :
    DeliveryStep request (disk.delivery id) (state.outboundDelivery id) := by
  have hevolves := h.evolves hdisk
  cases request with
  | method method =>
    obtain ⟨commit, -, hwork⟩ := h.work_eq_ok hdisk
    exact Method.deliveryStep hwork
  | save snapshot valid =>
    obtain - | - | ⟨-, hmerge⟩ := h
    have hforges := StateStore.forgesNothing_of_merge hdisk valid hmerge
    cases hafter : state.outboundDelivery id with
    | none =>
      cases hbefore : disk.delivery id with
      | none => exact .stays none
      | some before =>
        obtain ⟨existing, hexisting, hfound⟩ := Option.bind_eq_some_iff.mp hbefore
        obtain ⟨after, hfound', -⟩ := (hevolves existing hexisting).delivery hfound
        cases hafter.symm.trans hfound'
    | some after =>
      obtain ⟨hmem, rfl⟩ := find_key_eq_some hafter
      rcases hforges.deliveries after hmem with hbefore | ⟨hbefore, hpending⟩
      · rw [Disk.delivery, hbefore]
        exact .stays _
      · rw [Disk.delivery, hbefore]
        exact .added hpending

/-- What a call does to the visible record of a delivery. -/
theorem StateStore.call_delivery (self : StateStore) (io : Io) (request : Request) (hdisk : disk.Valid)
    (id : OutboundDeliveryId) : DeliveryStep request (disk.delivery id)
      ((finalState (self.call io request disk)).delivery id) := by
  have heffect := self.call_effect io request disk
  generalize self.call io request disk = result at heffect
  rcases heffect.visible with hvisible | ⟨_, state, hcomputes, -, hvisible⟩
  · have hkept : (finalState result).delivery id = disk.delivery id := by
      rw [Disk.delivery, hvisible, Disk.delivery]
    exact hkept ▸ .stays _
  · have hwritten : (finalState result).delivery id = state.outboundDelivery id := by
      rw [Disk.delivery, hvisible, Option.bind_some]
    exact hwritten ▸ hcomputes.deliveryStep hdisk id

/-- A claim that hands out an attempt has begun it on the visible record of a due delivery. -/
theorem StateStore.claim_eq_ok {startedAtUnix : U64} {policy : OutboundRetryPolicy}
    {attempt : OutboundDeliveryAttempt} {disk' : Disk} (hdisk : disk.Valid)
    (h : self.call io (.method (.claimNextOutboundDeliveryAttempt startedAtUnix policy)) disk =
      .ok (.attempt (some attempt)) disk') :
    ∃ before after, disk.delivery attempt.deliveryId = some before ∧
      disk'.delivery attempt.deliveryId = some after ∧
      policy.isDue before startedAtUnix = true ∧ before.Advances after ∧
      after.status = .delivering ∧ after.deliveryAttempts = attempt.attemptNumber := by
  have heffect := self.call_effect io
    (.method (.claimNextOutboundDeliveryAttempt startedAtUnix policy)) disk
  have hdisk' : disk'.Valid := by
    rw [h] at heffect
    exact (heffect.evolves hdisk).1
  obtain ⟨commit, state, hreplying, rfl⟩ := self.method_eq_ok hdisk h
  obtain ⟨_, hwork, hreply⟩ := replying_eq_ok.mp hreplying
  obtain rfl := Reply.attempt.inj hreply
  obtain ⟨claimed, hclaimed, hcommit⟩ := claimNextOutboundDeliveryAttempt_eq_ok hwork
  obtain ⟨rfl, rfl⟩ | ⟨front, before, after, back, rfl, hdeliveries, rfl, hdue, hbegin, -⟩ :=
    RuntimeState.claimNextOutboundDeliveryWhere_eq_ok hclaimed
  · cases hcommit.1
  · obtain ⟨rfl, _, _, hmade, hrecord⟩ := hcommit
    obtain rfl := Option.some.inj hmade
    obtain ⟨hid, -, hnumber⟩ := OutboundDeliveryAttempt.fromRecord_eq_ok hrecord
    obtain ⟨hadvances, hdelivering⟩ := OutboundDeliveryRecord.advances_of_beginDelivery hbegin
    refine ⟨before, after, ?_, ?_, hdue, hadvances, hdelivering, hnumber.symm⟩
    · rw [← Disk.delivery_loaded io, hid, hadvances.id_eq]
      exact find_key_of_mem (hdisk.loaded io).delivery_ids (by simp [hdeliveries])
    · rw [hid]
      exact find_key_of_mem (hdisk' _ rfl).delivery_ids (by simp [RuntimeState.touchAt])

/-- A due delivery has attempts left. -/
theorem OutboundRetryPolicy.attempts_le {policy : OutboundRetryPolicy} {time : U64}
    {before after : OutboundDeliveryRecord} (hvalid : before.Valid)
    (hdue : policy.isDue before time = true) (hadvances : before.Advances after)
    (hafter : after.status = .delivering) : after.deliveryAttempts ≤ policy.maxAttempts := by
  have hattempts := hadvances.attempts
  rw [if_pos hafter] at hattempts
  rw [Word.le_iff_toNat, hattempts]
  rcases policy.attempts_of_isDue hdue with hpending | ⟨-, hlt⟩
  · have hshape := hvalid.shape
    rw [OutboundDeliveryRecord.StatusShape, hpending] at hshape
    rw [hshape.1]
    have hne : policy.maxAttempts.toNat ≠ 0 :=
      fun h ↦ policy.maxAttempts_pos (Word.toNat_injective h)
    exact Nat.one_le_iff_ne_zero.mpr hne
  · exact hlt

end Calls

end FerrisBridge
