import FerrisBridge.Runtime.Backoff
import FerrisBridge.Store.Deliveries
import FerrisBridge.Store.Recovery

/-!
# Claims and outcomes of deliveries

The exact results of a claim, and of the record of an outcome, on a valid state. The policy decides
which delivery is due, and the transition that begins an attempt has guards of its own; a due
delivery passes all of them, so that no record can block the outbox.
-/

open Foundations

namespace FerrisBridge

namespace OutboundDeliveryRecord

variable {record : OutboundDeliveryRecord} {time : U64}

/-- The record after the beginning of an attempt. -/
def begun (time : U64) (attempts : U32) (record : OutboundDeliveryRecord) : OutboundDeliveryRecord :=
  { record with
    status := .delivering
    updatedAtUnix := time
    deliveryAttempts := attempts
    deliveredAtUnix := none
    lastError := none }

theorem beginDelivery_eq {attempts : U32} (hrecord : record.Valid)
    (hstatus : record.status = .pending ∨ record.status = .failed)
    (htime : record.updatedAtUnix ≤ time) (hattempts : record.deliveryAttempts.checkedAdd 1 = some attempts) :
    beginDelivery time record = .ok () (record.begun time attempts) := by
  have hcreated : ¬time < record.createdAtUnix := not_lt.mpr (hrecord.created_le.trans htime)
  have hnot : ¬(record.status ≠ .pending ∧ record.status ≠ .failed) := by
    rcases hstatus with h | h <;> simp [h]
  have hbegun : touchAt time { record with
      status := .delivering
      deliveryAttempts := attempts
      deliveredAtUnix := none
      lastError := none } = record.begun time attempts := by
    simp only [touchAt, begun, max_eq_right htime]
  simp only [beginDelivery, estate_bind_eq_ok, estate_get_eq_ok, question_eq_ok, rejectIf_eq_ok,
    okOr_eq_ok, estate_modify_eq_ok]
  exact ⟨_, _, ⟨rfl, rfl⟩, (), _, ⟨hnot, rfl⟩, (), _, ⟨hcreated, rfl⟩, (), _, ⟨not_lt.mpr htime, rfl⟩,
    attempts, _, ⟨hattempts, rfl⟩, hbegun⟩

theorem markDelivered_eq (hrecord : record.Valid) (hdelivering : record.status = .delivering)
    (htime : record.updatedAtUnix ≤ time) :
    markDelivered time record = .ok () { record with
      status := .delivered
      updatedAtUnix := time
      deliveredAtUnix := some time
      lastError := none } := by
  have hcreated : ¬time < record.createdAtUnix := not_lt.mpr (hrecord.created_le.trans htime)
  have htouch : touchAt time { record with
      status := .delivered
      deliveredAtUnix := some time
      lastError := none } = { record with
        status := .delivered
        updatedAtUnix := time
        deliveredAtUnix := some time
        lastError := none } := by
    simp only [touchAt, max_eq_right htime]
  simp only [markDelivered, estate_bind_eq_ok, estate_get_eq_ok, question_eq_ok, rejectIf_eq_ok,
    estate_modify_eq_ok, not_not]
  exact ⟨_, _, ⟨rfl, rfl⟩, (), _, ⟨hdelivering, rfl⟩, (), _, ⟨hcreated, rfl⟩, (), _,
    ⟨not_lt.mpr htime, rfl⟩, htouch⟩

end OutboundDeliveryRecord

namespace OutboundRetryPolicy

variable (policy : OutboundRetryPolicy) {delivery : OutboundDeliveryRecord} {time : U64}

/-- The deliveries that are due at some time. -/
def Awaits (delivery : OutboundDeliveryRecord) : Prop :=
  delivery.status = .pending ∨
    delivery.status = .failed ∧ delivery.deliveryAttempts < policy.maxAttempts

theorem nextAttemptAtUnix_isSome :
    (policy.nextAttemptAtUnix delivery).isSome = true ↔ policy.Awaits delivery := by
  unfold nextAttemptAtUnix Awaits
  cases hstatus : delivery.status <;> simp

/-- A delivery is due no earlier than it was last updated. -/
theorem updated_le_of_isDue (h : policy.isDue delivery time = true) :
    delivery.updatedAtUnix ≤ time := by
  obtain ⟨next, hnext, hle⟩ := policy.isDue_iff.mp h
  rcases policy.attempts_of_isDue h with hpending | ⟨hfailed, hattempts⟩
  · simp only [nextAttemptAtUnix, hpending, Option.some.injEq] at hnext
    exact hnext ▸ hle
  · rw [policy.nextAttemptAtUnix_failed hfailed hattempts, Option.some.injEq] at hnext
    exact (hnext ▸ Word.le_saturatingAdd _ _).trans hle

/-- The counter of a due delivery has room for another attempt. -/
theorem checkedAdd_of_isDue (hdelivery : delivery.Valid) (h : policy.isDue delivery time = true) :
    ∃ attempts, delivery.deliveryAttempts.checkedAdd 1 = some attempts ∧
      attempts.toNat = delivery.deliveryAttempts.toNat + 1 := by
  have hroom : delivery.deliveryAttempts.toNat + 1 < 2 ^ 32 := by
    rcases policy.attempts_of_isDue h with hpending | ⟨-, hlt⟩
    · have hshape := hdelivery.shape
      rw [OutboundDeliveryRecord.StatusShape, hpending] at hshape
      rw [hshape.1]
      decide
    · have hmax := policy.maxAttempts.toNat_lt
      have := Word.lt_iff_toNat.mp hlt
      omega
  exact ⟨_, dif_pos hroom, rfl⟩

/-- Due deliveries are among those that the claim looks at. -/
theorem claims_eq : (fun delivery : OutboundDeliveryRecord ↦
      (delivery.status = .pending ∨ delivery.status = .failed) && policy.isDue delivery time) =
    fun delivery ↦ policy.isDue delivery time := by
  funext delivery
  cases hdue : policy.isDue delivery time with
  | false => exact Bool.and_false _
  | true =>
    rw [Bool.and_true, decide_eq_true_eq]
    rcases policy.attempts_of_isDue hdue with h | ⟨h, -⟩
    · exact .inl h
    · exact .inr h

/-- The first due delivery, if there is one. -/
theorem first_due (deliveries : List OutboundDeliveryRecord) (time : U64) :
    (∀ delivery ∈ deliveries, policy.isDue delivery time = false) ∨
      ∃ before delivery after, deliveries = before ++ delivery :: after ∧
        (∀ earlier ∈ before, policy.isDue earlier time = false) ∧
        policy.isDue delivery time = true := by
  cases hfind : deliveries.find? (policy.isDue · time) with
  | none => exact .inl fun delivery hdelivery ↦ by simpa using List.find?_eq_none.mp hfind delivery hdelivery
  | some delivery =>
    obtain ⟨hdue, before, after, rfl, hbefore⟩ := List.find?_eq_some_iff_append.mp hfind
    exact .inr ⟨before, delivery, after, rfl, by simpa using hbefore, hdue⟩

end OutboundRetryPolicy

namespace RuntimeState

variable {state : RuntimeState} {policy : OutboundRetryPolicy} {time now : U64}
  {before after : List OutboundDeliveryRecord} {delivery : OutboundDeliveryRecord} {attempts : U32}

/-- The state after an update of one delivery. -/
def withDelivery (state : RuntimeState) (before : List OutboundDeliveryRecord)
    (delivery : OutboundDeliveryRecord) (after : List OutboundDeliveryRecord) (now : U64) : RuntimeState :=
  touchAt (max delivery.updatedAtUnix now)
    { state with outboundDeliveries := before ++ delivery :: after }

theorem claimNextOutboundDeliveryWhere_eq_none
    (hnone : ∀ delivery ∈ state.outboundDeliveries, policy.isDue delivery time = false) :
    claimNextOutboundDeliveryWhere time (policy.isDue · time) now state = .ok none state := by
  have hfirst : updateFirst? (fun delivery ↦ policy.isDue delivery time)
      (andClone (OutboundDeliveryRecord.beginDelivery time)) state.outboundDeliveries =
        .ok none state.outboundDeliveries := updateFirst?_eq_none hnone
  rw [claimNextOutboundDeliveryWhere, policy.claims_eq]
  exact estate_ok_bind (zoom_eq_ok.mpr ⟨_, hfirst, rfl⟩)

theorem claimNextOutboundDeliveryWhere_eq_some (now : U64) (hstate : state.Valid)
    (hdeliveries : state.outboundDeliveries = before ++ delivery :: after)
    (hbefore : ∀ earlier ∈ before, policy.isDue earlier time = false)
    (hdue : policy.isDue delivery time = true)
    (hattempts : delivery.deliveryAttempts.checkedAdd 1 = some attempts) :
    claimNextOutboundDeliveryWhere time (policy.isDue · time) now state =
      .ok (some (delivery.begun time attempts))
        (state.withDelivery before (delivery.begun time attempts) after now) := by
  have hdelivery : delivery.Valid := hstate.deliveries delivery (by simp [hdeliveries])
  have hstatus : delivery.status = .pending ∨ delivery.status = .failed := by
    rcases policy.attempts_of_isDue hdue with h | ⟨h, -⟩
    · exact .inl h
    · exact .inr h
  have hbegin := OutboundDeliveryRecord.beginDelivery_eq hdelivery hstatus
    (policy.updated_le_of_isDue hdue) hattempts
  have hfirst : updateFirst? (fun delivery ↦ policy.isDue delivery time)
      (andClone (OutboundDeliveryRecord.beginDelivery time)) state.outboundDeliveries =
        .ok (some (delivery.begun time attempts))
          (before ++ delivery.begun time attempts :: after) := by
    rw [hdeliveries]
    exact updateFirst?_eq_some hbefore hdue (andClone_eq_ok.mpr ⟨hbegin, rfl⟩)
  rw [claimNextOutboundDeliveryWhere, policy.claims_eq]
  exact (estate_ok_bind (zoom_eq_ok.mpr ⟨_, hfirst, rfl⟩)).trans rfl

theorem updateOutboundDelivery_eq {update : EStateM String OutboundDeliveryRecord Unit}
    {delivery' : OutboundDeliveryRecord} (now : U64) (hstate : state.Valid)
    (hdeliveries : state.outboundDeliveries = before ++ delivery :: after)
    (hupdate : update delivery = .ok () delivery') :
    updateOutboundDelivery delivery.id now update state =
      .ok delivery' (state.withDelivery before delivery' after now) := by
  have hbefore : ∀ earlier ∈ before, decide (earlier.id = delivery.id) = false := by
    intro earlier hearlier
    have hnodup := hstate.delivery_ids
    rw [hdeliveries, List.map_append, List.map_cons] at hnodup
    have hdisjoint := List.disjoint_of_nodup_append hnodup
    refine decide_eq_false fun hid ↦ hdisjoint (List.mem_map_of_mem hearlier) ?_
    exact hid ▸ List.mem_cons_self
  have hfirst : updateFirst (fun delivery' ↦ decide (delivery'.id = delivery.id))
      s!"unknown outbound delivery id {delivery.id}" (andClone update) state.outboundDeliveries =
        .ok delivery' (before ++ delivery' :: after) := by
    rw [hdeliveries]
    exact updateFirst_eq_some hbefore (decide_eq_true rfl) (andClone_eq_ok.mpr ⟨hupdate, rfl⟩)
  rw [updateOutboundDelivery]
  exact (estate_ok_bind (zoom_eq_ok.mpr ⟨_, hfirst, rfl⟩)).trans rfl

/-- The session of a delivery is there, and its scope is the one that the session id encodes. -/
theorem session_of_delivery (hstate : state.Valid) (hdelivery : delivery ∈ state.outboundDeliveries) :
    ∃ session, state.session delivery.sessionId = some session ∧
      SessionId.forScope session.scope = delivery.sessionId := by
  obtain ⟨session, hsession⟩ := Option.isSome_iff_exists.mp
    (find_key_isSome.mpr (hstate.delivery_sessions delivery hdelivery))
  obtain ⟨hmem, hid⟩ := find_key_eq_some hsession
  exact ⟨session, hsession, (hstate.sessions session hmem).id_eq.symm.trans hid⟩

end RuntimeState

/-- The attempt that a claim hands out for a record that it has begun. -/
theorem OutboundDeliveryAttempt.fromRecord_begun {delivery : OutboundDeliveryRecord} {time : U64}
    {attempts : U32} {scope : SessionScope} (hscope : SessionId.forScope scope = delivery.sessionId) :
    fromRecord (delivery.begun time attempts) scope = .ok ⟨delivery.id, scope, delivery.message, attempts⟩ := by
  simp only [fromRecord, except_bind_unit_eq_ok, rejectIf_eq_ok, except_pure_eq_ok, not_not]
  exact ⟨rfl, hscope, rfl⟩

/-! ## The deliveries in the file -/

/-- The visible deliveries; there are none before the first write. -/
def Disk.deliveries (disk : Disk) : List OutboundDeliveryRecord :=
  (disk.visible.map (·.outboundDeliveries)).getD []

theorem Disk.deliveries_loaded (disk : Disk) (io : Io) :
    (io.loaded disk.visible).outboundDeliveries = disk.deliveries := by
  unfold Disk.deliveries
  cases disk.visible <;> rfl

theorem Disk.deliveries_of_visible {disk : Disk} {state : RuntimeState}
    (h : disk.visible = some state) : disk.deliveries = state.outboundDeliveries := by
  rw [Disk.deliveries, h]
  rfl

theorem Disk.visible_of_mem_deliveries {disk : Disk} {delivery : OutboundDeliveryRecord}
    (h : delivery ∈ disk.deliveries) : ∃ state, disk.visible = some state := by
  unfold Disk.deliveries at h
  cases hvisible : disk.visible with
  | none => simp [hvisible] at h
  | some state => exact ⟨state, rfl⟩

namespace StateStore

open RuntimeState

variable {io : Io} {disk : Disk} {state : RuntimeState} {policy : OutboundRetryPolicy} {time now : U64}
  {before after : List OutboundDeliveryRecord} {delivery : OutboundDeliveryRecord}

theorem claimNextOutboundDeliveryAttempt_eq_none
    (hnone : ∀ delivery ∈ state.outboundDeliveries, policy.isDue delivery time = false) :
    claimNextOutboundDeliveryAttempt time policy now state = .ok (none, .nothing) state :=
  (estate_ok_bind (claimNextOutboundDeliveryWhere_eq_none hnone)).trans rfl

/-- The claim of the first due delivery. -/
theorem claimNextOutboundDeliveryAttempt_eq_some (now : U64) (hstate : state.Valid)
    (hdeliveries : state.outboundDeliveries = before ++ delivery :: after)
    (hbefore : ∀ earlier ∈ before, policy.isDue earlier time = false)
    (hdue : policy.isDue delivery time = true) :
    ∃ (attempts : U32) (scope : SessionScope), attempts.toNat = delivery.deliveryAttempts.toNat + 1 ∧
      SessionId.forScope scope = delivery.sessionId ∧
      claimNextOutboundDeliveryAttempt time policy now state =
        .ok (some ⟨delivery.id, scope, delivery.message, attempts⟩, .write)
          (state.withDelivery before (delivery.begun time attempts) after now) := by
  have hmem : delivery ∈ state.outboundDeliveries := by simp [hdeliveries]
  obtain ⟨attempts, hattempts, hnumber⟩ :=
    policy.checkedAdd_of_isDue (hstate.deliveries delivery hmem) hdue
  obtain ⟨session, hsession, hscope⟩ := session_of_delivery hstate hmem
  refine ⟨attempts, session.scope, hnumber, hscope, ?_⟩
  have hclaim := claimNextOutboundDeliveryWhere_eq_some now hstate hdeliveries hbefore hdue hattempts
  refine (estate_ok_bind hclaim).trans ?_
  simp only [estate_bind_eq_ok, estate_get_eq_ok, question_eq_ok, okOr_eq_ok, estate_pure_eq_ok]
  exact ⟨_, _, ⟨rfl, rfl⟩, session, _, ⟨hsession, rfl⟩, _, _,
    ⟨OutboundDeliveryAttempt.fromRecord_begun hscope, rfl⟩, rfl, rfl⟩

theorem call_claim (self : StateStore) {claimed : Option OutboundDeliveryAttempt} {disk' : Disk}
    (h : self.transact io (claimNextOutboundDeliveryAttempt time policy) disk = .ok claimed disk') :
    self.call io (.method (.claimNextOutboundDeliveryAttempt time policy)) disk =
      .ok (.attempt claimed) disk' :=
  (self.transact_replying io disk .attempt _).trans ((estate_ok_bind h).trans rfl)

/-- A claim with nothing due leaves the file alone. -/
theorem transact_claim_none (self : StateStore) (hio : io.Faultless) (hdisk : disk.Valid)
    (hnone : ∀ delivery ∈ disk.deliveries, policy.isDue delivery time = false) :
    self.transact io (claimNextOutboundDeliveryAttempt time policy) disk = .ok none disk := by
  rw [← disk.deliveries_loaded io] at hnone
  exact self.transact_eq_ok hio hdisk (claimNextOutboundDeliveryAttempt_eq_none hnone)
    (hdisk.loaded io) fun h ↦ by cases h

/-- A claim writes the first due delivery as begun. -/
theorem transact_claim_some (self : StateStore) (hio : io.Faultless) (hdisk : disk.visible = some state)
    (hstate : state.Valid) (hdeliveries : state.outboundDeliveries = before ++ delivery :: after)
    (hbefore : ∀ earlier ∈ before, policy.isDue earlier time = false)
    (hdue : policy.isDue delivery time = true) :
    ∃ (attempts : U32) (scope : SessionScope) (written : RuntimeState),
      attempts.toNat = delivery.deliveryAttempts.toNat + 1 ∧
      SessionId.forScope scope = delivery.sessionId ∧
      written = state.withDelivery before (delivery.begun time attempts) after io.now ∧
      written.Valid ∧
      self.transact io (claimNextOutboundDeliveryAttempt time policy) disk =
        .ok (some ⟨delivery.id, scope, delivery.message, attempts⟩) ⟨some written, some written⟩ := by
  have hvalid : disk.Valid := fun visible hvisible ↦
    Option.some.inj (hdisk.symm.trans hvisible) ▸ hstate
  have hloaded : io.loaded disk.visible = state := by
    rw [hdisk]
    rfl
  obtain ⟨attempts, scope, hattempts, hscope, hwork⟩ :=
    claimNextOutboundDeliveryAttempt_eq_some io.now hstate hdeliveries hbefore hdue
  have hmethod : (Method.claimNextOutboundDeliveryAttempt time policy).work io.now state =
      .ok (.attempt (some ⟨delivery.id, scope, delivery.message, attempts⟩), .write)
        (state.withDelivery before (delivery.begun time attempts) after io.now) :=
    replying_eq_ok.mpr ⟨_, hwork, rfl⟩
  have hwritten := (Method.change hstate hmethod).1.valid hstate
  rw [← hloaded] at hwork
  exact ⟨attempts, scope, _, hattempts, hscope, by rw [hloaded], hloaded ▸ hwritten,
    self.transact_eq_ok hio hvalid hwork (hloaded ▸ hwritten) fun h ↦ by cases h⟩

/-- Any method that updates one delivery and writes it. -/
theorem transact_update (self : StateStore) {update : EStateM String OutboundDeliveryRecord Unit}
    {delivery' : OutboundDeliveryRecord} (hio : io.Faultless) (hdisk : disk.visible = some state)
    (hstate : state.Valid) (hdeliveries : state.outboundDeliveries = before ++ delivery :: after)
    (hadvances : ∀ record record', update record = .ok () record' → record.Advances record')
    (hupdate : update delivery = .ok () delivery') :
    ∃ written, written = state.withDelivery before delivery' after io.now ∧ written.Valid ∧
      ∀ transaction : U64 → Transaction (OutboundDeliveryRecord × Commit),
        (transaction = fun now ↦ (do
          let delivery ← updateOutboundDelivery delivery.id now update
          return (delivery, .write))) →
        self.transact io transaction disk = .ok delivery' ⟨some written, some written⟩ := by
  have hvalid : disk.Valid := fun visible hvisible ↦
    Option.some.inj (hdisk.symm.trans hvisible) ▸ hstate
  have hloaded : io.loaded disk.visible = state := by
    rw [hdisk]
    rfl
  have hoperation := updateOutboundDelivery_eq io.now hstate hdeliveries hupdate
  have hwritten := (Change.of_updateOutboundDelivery hstate hadvances hoperation).valid hstate
  refine ⟨_, rfl, hwritten, fun transaction htransaction ↦ ?_⟩
  have hwork : transaction io.now (io.loaded disk.visible) = .ok (delivery', .write)
      (state.withDelivery before delivery' after io.now) := by
    rw [hloaded, htransaction]
    exact (estate_ok_bind hoperation).trans rfl
  exact self.transact_eq_ok hio hvalid hwork hwritten fun h ↦ by cases h

end StateStore

end FerrisBridge
