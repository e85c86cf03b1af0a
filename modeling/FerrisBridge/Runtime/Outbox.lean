import FerrisBridge.Runtime.Event

/-!
# Outbound deliveries

The durable record of one outbound message and its life: pending, claimed for an attempt, and then
delivered, failed or of uncertain outcome. Every transition of the source is an update of one record
that leaves the record alone when it is refused; `Advances` says what any of them can do.
-/

open Foundations

namespace FerrisBridge

@[ext]
structure OutboundDeliveryId where
  asStr : String
  valid : isValidId asStr = true
  deriving Repr

instance : DecidableEq OutboundDeliveryId := fun _ _ ↦ decidable_of_iff _ OutboundDeliveryId.ext_iff.symm

namespace OutboundDeliveryId

instance : ToString OutboundDeliveryId := ⟨asStr⟩

theorem asStr_injective : Function.Injective asStr := by
  rintro ⟨left, _⟩ ⟨right, _⟩ h
  simpa using h

instance : LinearOrder OutboundDeliveryId := LinearOrder.lift' asStr asStr_injective

def new (value : String) : Except String OutboundDeliveryId :=
  if h : isValidId value then .ok ⟨value, h⟩ else .error s!"invalid outbound delivery id `{value}`"

end OutboundDeliveryId

inductive OutboundDeliveryStatus
  | pending
  | delivering
  | delivered
  | failed
  | uncertain
  deriving DecidableEq, Repr

/-- The `Debug` rendering that the diagnostics use. -/
instance : ToString OutboundDeliveryStatus where
  toString
    | .pending => "Pending"
    | .delivering => "Delivering"
    | .delivered => "Delivered"
    | .failed => "Failed"
    | .uncertain => "Uncertain"

/-- The edges of the life of a delivery. -/
def OutboundDeliveryStatus.canBecome : OutboundDeliveryStatus → OutboundDeliveryStatus → Bool
  | .pending, .delivering => true
  | .failed, .delivering => true
  | .delivering, .delivered => true
  | .delivering, .failed => true
  | .delivering, .uncertain => true
  | .uncertain, .delivered => true
  | .uncertain, .failed => true
  | _, _ => false

inductive OutboundDeliveryEnqueueStatus
  | queued
  | duplicate
  deriving DecidableEq, Repr

def startupRecoveryDiagnostic : String := "delivery outcome is unknown after startup recovery"

structure OutboundDeliveryRecord where
  id : OutboundDeliveryId
  sessionId : SessionId
  message : Message
  status : OutboundDeliveryStatus
  createdAtUnix : U64
  updatedAtUnix : U64
  deliveryAttempts : U32
  deliveredAtUnix : Option U64
  lastError : Option String
  deriving DecidableEq, Repr

namespace OutboundDeliveryRecord

variable {record : OutboundDeliveryRecord}

/-! ## Validation -/

/-- The checks of the delivery time, when there is one. -/
def validateDeliveredAt (record : OutboundDeliveryRecord) : Except String Unit :=
  match record.deliveredAtUnix with
  | none => .ok ()
  | some deliveredAtUnix => do
    rejectIf (deliveredAtUnix < record.createdAtUnix)
      s!"outbound delivery {record.id} has delivered_at_unix before created_at_unix"
    rejectIf (record.updatedAtUnix < deliveredAtUnix)
      s!"outbound delivery {record.id} has updated_at_unix before delivered_at_unix"

/-- The shape each status requires. -/
def validateStatus (record : OutboundDeliveryRecord) : Except String Unit :=
  match record.status with
  | .pending =>
    rejectIf (record.deliveryAttempts ≠ 0 ∨ record.deliveredAtUnix.isSome ∨ record.lastError.isSome)
      s!"pending outbound delivery {record.id} must not have attempts, delivery time, or error"
  | .delivering =>
    rejectIf (record.deliveryAttempts = 0 ∨ record.deliveredAtUnix.isSome ∨ record.lastError.isSome)
      s!"delivering outbound delivery {record.id} must have attempts without delivery time or error"
  | .delivered => do
    rejectIf (record.deliveryAttempts = 0 ∨ record.deliveredAtUnix.isNone ∨ record.lastError.isSome)
      s!"delivered outbound delivery {record.id} must have attempts and delivered_at_unix only"
    rejectIf (record.deliveredAtUnix ≠ some record.updatedAtUnix)
      s!"delivered outbound delivery {record.id} delivered_at_unix must match updated_at_unix"
  | .failed | .uncertain =>
    rejectIf (record.deliveryAttempts = 0 ∨ record.deliveredAtUnix.isSome ∨ record.lastError.isNone)
      s!"{record.status} outbound delivery {record.id} must have attempts and last_error only"

def validate (record : OutboundDeliveryRecord) : Except String Unit := do
  rejectIf (record.message.sessionId ≠ some record.sessionId)
    s!"outbound delivery {record.id} message session does not match delivery session"
  rejectIf (record.message.author = .user)
    s!"outbound delivery {record.id} cannot contain a user-authored message"
  rejectIf (record.createdAtUnix < record.message.createdAtUnix)
    s!"outbound delivery {record.id} has created_at_unix before message created_at_unix"
  rejectIf (record.updatedAtUnix < record.createdAtUnix)
    s!"outbound delivery {record.id} has updated_at_unix before created_at_unix"
  record.validateDeliveredAt
  rejectIf (record.lastError.any isBlank = true)
    s!"outbound delivery {record.id} last_error is empty"
  record.validateStatus

/-- What the status of a record says about its other fields. -/
def StatusShape (record : OutboundDeliveryRecord) : Prop :=
  match record.status with
  | .pending =>
    record.deliveryAttempts = 0 ∧ record.deliveredAtUnix = none ∧ record.lastError = none
  | .delivering =>
    record.deliveryAttempts ≠ 0 ∧ record.deliveredAtUnix = none ∧ record.lastError = none
  | .delivered =>
    record.deliveryAttempts ≠ 0 ∧ record.deliveredAtUnix = some record.updatedAtUnix ∧
      record.lastError = none
  | .failed | .uncertain =>
    record.deliveryAttempts ≠ 0 ∧ record.deliveredAtUnix = none ∧ record.lastError.isSome

/-- What `validate` accepts. -/
structure Valid (record : OutboundDeliveryRecord) : Prop where
  message_session : record.message.sessionId = some record.sessionId
  author : record.message.author ≠ .user
  message_created_le : record.message.createdAtUnix ≤ record.createdAtUnix
  created_le : record.createdAtUnix ≤ record.updatedAtUnix
  error_nonblank : ∀ error, record.lastError = some error → isBlank error = false
  shape : record.StatusShape

theorem validateStatus_eq_ok {u : Unit} : record.validateStatus = .ok u ↔ record.StatusShape := by
  unfold validateStatus StatusShape
  cases record.status <;> simp [except_bind_unit_eq_ok, not_or, Option.isSome_iff_ne_none]; grind

/-- A record of the right shape has its delivery time in range. -/
theorem validateDeliveredAt_of_shape (hshape : record.StatusShape)
    (hcreated : record.createdAtUnix ≤ record.updatedAtUnix) :
    record.validateDeliveredAt = .ok () := by
  unfold validateDeliveredAt
  unfold StatusShape at hshape
  cases hdelivered : record.deliveredAtUnix with
  | none => rfl
  | some time =>
    have : time = record.updatedAtUnix := by
      cases hstatus : record.status <;> simp_all
    simp [this, except_bind_unit_eq_ok, hcreated]

theorem validate_eq_ok {u : Unit} : record.validate = .ok u ↔ record.Valid := by
  simp only [validate, except_bind_unit_eq_ok, rejectIf_eq_ok, not_not, not_lt,
    validateStatus_eq_ok, Option.any_eq_true, not_exists, not_and, Bool.not_eq_true]
  constructor
  · rintro ⟨hsession, hauthor, hmessage, hcreated, -, herror, hshape⟩
    exact ⟨hsession, hauthor, hmessage, hcreated, herror, hshape⟩
  · intro h
    exact ⟨h.message_session, h.author, h.message_created_le, h.created_le,
      validateDeliveredAt_of_shape h.shape h.created_le, h.error_nonblank, h.shape⟩

/-! ## Construction and transitions -/

def new (id : OutboundDeliveryId) (sessionId : SessionId) (message : Message) (createdAtUnix : U64) :
    Except String OutboundDeliveryRecord := do
  let record : OutboundDeliveryRecord :=
    { id, sessionId, message, createdAtUnix
      status := .pending
      updatedAtUnix := createdAtUnix
      deliveryAttempts := 0
      deliveredAtUnix := none
      lastError := none }
  record.validate
  return record

def hasSameEnqueueIdentity (record other : OutboundDeliveryRecord) : Bool :=
  record.id = other.id ∧ record.sessionId = other.sessionId ∧ record.message = other.message ∧
    record.createdAtUnix = other.createdAtUnix

def touchAt (updatedAtUnix : U64) (record : OutboundDeliveryRecord) : OutboundDeliveryRecord :=
  { record with updatedAtUnix := max record.updatedAtUnix updatedAtUnix }

def beginDelivery (startedAtUnix : U64) : EStateM String OutboundDeliveryRecord Unit := do
  let self ← get
  question <| rejectIf (self.status ≠ .pending ∧ self.status ≠ .failed)
    s!"outbound delivery {self.id} cannot start from {self.status}"
  question <| rejectIf (startedAtUnix < self.createdAtUnix)
    s!"outbound delivery {self.id} cannot start before created_at_unix"
  question <| rejectIf (startedAtUnix < self.updatedAtUnix)
    s!"outbound delivery {self.id} cannot start before updated_at_unix"
  let nextAttempts ← question <| okOr (self.deliveryAttempts.checkedAdd 1)
    s!"outbound delivery {self.id} attempts overflowed"
  modify fun record ↦
    touchAt startedAtUnix { record with
      status := .delivering
      deliveryAttempts := nextAttempts
      deliveredAtUnix := none
      lastError := none }

def markDelivered (deliveredAtUnix : U64) : EStateM String OutboundDeliveryRecord Unit := do
  let self ← get
  question <| rejectIf (self.status ≠ .delivering)
    s!"outbound delivery {self.id} cannot complete from {self.status}"
  question <| rejectIf (deliveredAtUnix < self.createdAtUnix)
    s!"outbound delivery {self.id} cannot complete before created_at_unix"
  question <| rejectIf (deliveredAtUnix < self.updatedAtUnix)
    s!"outbound delivery {self.id} cannot complete before updated_at_unix"
  modify fun record ↦
    touchAt deliveredAtUnix { record with
      status := .delivered
      deliveredAtUnix := some deliveredAtUnix
      lastError := none }

/-- The source calls this with `Failed` and `Uncertain` only, and asserts so in debug builds. -/
def markUnsuccessful (status : OutboundDeliveryStatus) (updatedAtUnix : U64)
    (error action errorLabel : String) : EStateM String OutboundDeliveryRecord Unit := do
  let self ← get
  question <| rejectIf (self.status ≠ .delivering)
    s!"outbound delivery {self.id} cannot {action} from {self.status}"
  question <| rejectIf (updatedAtUnix < self.createdAtUnix)
    s!"outbound delivery {self.id} cannot {action} before created_at_unix"
  question <| rejectIf (updatedAtUnix < self.updatedAtUnix)
    s!"outbound delivery {self.id} cannot {action} before updated_at_unix"
  question <| rejectIf (isBlank error = true)
    s!"outbound delivery {self.id} {errorLabel} is empty"
  modify fun record ↦
    touchAt updatedAtUnix { record with
      status
      deliveredAtUnix := none
      lastError := some error }

def markFailed (failedAtUnix : U64) (error : String) : EStateM String OutboundDeliveryRecord Unit :=
  markUnsuccessful .failed failedAtUnix error "fail" "failure"

def markUncertain (uncertainAtUnix : U64) (error : String) :
    EStateM String OutboundDeliveryRecord Unit :=
  markUnsuccessful .uncertain uncertainAtUnix error "become uncertain" "uncertain outcome"

def validateResolutionTime (self : OutboundDeliveryRecord) (resolvedAtUnix : U64)
    (action : String) : Except String Unit := do
  rejectIf (resolvedAtUnix < self.createdAtUnix)
    s!"outbound delivery {self.id} cannot {action} before created_at_unix"
  rejectIf (resolvedAtUnix < self.updatedAtUnix)
    s!"outbound delivery {self.id} cannot {action} before updated_at_unix"

def resolveUncertainAsDelivered (resolvedAtUnix : U64) :
    EStateM String OutboundDeliveryRecord Unit := do
  let self ← get
  question <| rejectIf (self.status ≠ .uncertain)
    s!"outbound delivery {self.id} cannot resolve as delivered from {self.status}"
  question <| self.validateResolutionTime resolvedAtUnix "resolve as delivered"
  modify fun record ↦
    touchAt resolvedAtUnix { record with
      status := .delivered
      deliveredAtUnix := some resolvedAtUnix
      lastError := none }

def resolveUncertainAsFailed (resolvedAtUnix : U64) (error : String) :
    EStateM String OutboundDeliveryRecord Unit := do
  let self ← get
  question <| rejectIf (self.status ≠ .uncertain)
    s!"outbound delivery {self.id} cannot resolve as failed from {self.status}"
  question <| self.validateResolutionTime resolvedAtUnix "resolve as failed"
  question <| rejectIf (isBlank error = true)
    s!"outbound delivery {self.id} resolution failure is empty"
  modify fun record ↦
    touchAt resolvedAtUnix { record with
      status := .failed
      deliveredAtUnix := none
      lastError := some error }

/-! ## What the transitions do -/

/-- What any transition does to a record. -/
structure Advances (before after : OutboundDeliveryRecord) : Prop where
  id_eq : after.id = before.id
  sessionId_eq : after.sessionId = before.sessionId
  message_eq : after.message = before.message
  createdAt_eq : after.createdAtUnix = before.createdAtUnix
  status : before.status.canBecome after.status = true
  updated_le : before.updatedAtUnix ≤ after.updatedAtUnix
  attempts : after.deliveryAttempts.toNat =
    before.deliveryAttempts.toNat + if after.status = .delivering then 1 else 0
  valid : before.Valid → after.Valid

theorem hasSameEnqueueIdentity_iff {other : OutboundDeliveryRecord} :
    record.hasSameEnqueueIdentity other = true ↔ record.id = other.id ∧
      record.sessionId = other.sessionId ∧ record.message = other.message ∧
      record.createdAtUnix = other.createdAtUnix := by
  simp [hasSameEnqueueIdentity]

theorem Advances.hasSameEnqueueIdentity {after : OutboundDeliveryRecord}
    (h : record.Advances after) : after.hasSameEnqueueIdentity record = true :=
  hasSameEnqueueIdentity_iff.mpr ⟨h.id_eq, h.sessionId_eq, h.message_eq, h.createdAt_eq⟩

section Transitions

variable {record' : OutboundDeliveryRecord} {time : U64} {error action errorLabel : String} {u : Unit}

/-- The update all the transitions make. -/
theorem advances_touchAt {status : OutboundDeliveryStatus} {deliveryAttempts : U32}
    {deliveredAtUnix : Option U64} {lastError : Option String}
    (hstatus : record.status.canBecome status = true)
    (hattempts : deliveryAttempts.toNat =
      record.deliveryAttempts.toNat + if status = .delivering then 1 else 0)
    (herror : ∀ error, lastError = some error → isBlank error = false)
    (hshape : record.StatusShape → StatusShape (touchAt time
      { record with status, deliveryAttempts, deliveredAtUnix, lastError })) :
    record.Advances (touchAt time
      { record with status, deliveryAttempts, deliveredAtUnix, lastError }) where
  id_eq := rfl
  sessionId_eq := rfl
  message_eq := rfl
  createdAt_eq := rfl
  status := hstatus
  updated_le := le_max_left _ _
  attempts := hattempts
  valid h := {
    message_session := h.message_session
    author := h.author
    message_created_le := h.message_created_le
    created_le := h.created_le.trans (le_max_left _ _)
    error_nonblank := herror
    shape := hshape h.shape }

theorem advances_of_beginDelivery (h : beginDelivery time record = .ok u record') :
    record.Advances record' ∧ record'.status = .delivering := by
  simp only [beginDelivery, estate_bind_eq_ok, question_eq_ok, rejectIf_eq_ok, okOr_eq_ok,
    estate_get_eq_ok, estate_modify_eq_ok] at h
  obtain ⟨_, _, ⟨rfl, rfl⟩, _, _, ⟨hstatus, rfl⟩, _, _, ⟨-, rfl⟩, _, _, ⟨-, rfl⟩,
    attempts, _, ⟨hattempts, rfl⟩, rfl⟩ := h
  have hnat := Word.toNat_of_checkedAdd hattempts
  refine ⟨advances_touchAt ?_ hnat (fun _ h ↦ by cases h) fun _ ↦ ⟨?_, rfl, rfl⟩, rfl⟩
  · cases hs : record.status <;> simp_all [OutboundDeliveryStatus.canBecome]
  · rintro rfl
    exact absurd hnat (Nat.succ_ne_zero _).symm

theorem advances_of_markDelivered (h : markDelivered time record = .ok u record') :
    record.Advances record' ∧ record.status = .delivering ∧ record'.status = .delivered := by
  simp only [markDelivered, estate_bind_eq_ok, question_eq_ok, rejectIf_eq_ok, not_not,
    estate_get_eq_ok, estate_modify_eq_ok] at h
  obtain ⟨_, _, ⟨rfl, rfl⟩, _, _, ⟨hstatus, rfl⟩, _, _, ⟨-, rfl⟩, _, _, ⟨htime, rfl⟩, rfl⟩ := h
  refine ⟨advances_touchAt (by rw [hstatus]; rfl) rfl (fun _ h ↦ by cases h) fun hshape ↦ ?_,
    hstatus, rfl⟩
  rw [StatusShape, hstatus] at hshape
  exact ⟨hshape.1, congrArg some (max_eq_right (not_lt.mp htime)).symm, rfl⟩

theorem advances_of_markUnsuccessful {status : OutboundDeliveryStatus}
    (hfailure : status = .failed ∨ status = .uncertain)
    (h : markUnsuccessful status time error action errorLabel record = .ok u record') :
    record.Advances record' ∧ record.status = .delivering ∧ record'.status = status := by
  simp only [markUnsuccessful, estate_bind_eq_ok, question_eq_ok, rejectIf_eq_ok, not_not,
    estate_get_eq_ok, estate_modify_eq_ok] at h
  obtain ⟨_, _, ⟨rfl, rfl⟩, _, _, ⟨hstatus, rfl⟩, _, _, ⟨-, rfl⟩, _, _, ⟨-, rfl⟩,
    _, _, ⟨herror, rfl⟩, rfl⟩ := h
  refine ⟨advances_touchAt ?_ ?_ ?_ fun hshape ↦ ?_, hstatus, rfl⟩
  · rcases hfailure with rfl | rfl <;> rw [hstatus] <;> rfl
  · rcases hfailure with rfl | rfl <;> rfl
  · rintro _ ⟨⟩
    simpa using herror
  · rw [StatusShape, hstatus] at hshape
    rcases hfailure with rfl | rfl <;> exact ⟨hshape.1, rfl, rfl⟩

theorem advances_of_markFailed (h : markFailed time error record = .ok u record') :
    record.Advances record' ∧ record.status = .delivering ∧ record'.status = .failed :=
  advances_of_markUnsuccessful (.inl rfl) h

theorem advances_of_markUncertain (h : markUncertain time error record = .ok u record') :
    record.Advances record' ∧ record.status = .delivering ∧ record'.status = .uncertain :=
  advances_of_markUnsuccessful (.inr rfl) h

theorem updatedAt_of_markUncertain (h : markUncertain time error record = .ok u record') :
    record'.updatedAtUnix = time := by
  simp only [markUncertain, markUnsuccessful, estate_bind_eq_ok, question_eq_ok, rejectIf_eq_ok,
    not_lt, estate_get_eq_ok, estate_modify_eq_ok] at h
  obtain ⟨_, _, ⟨rfl, rfl⟩, _, _, ⟨-, rfl⟩, _, _, ⟨-, rfl⟩, _, _, ⟨htime, rfl⟩, _, _, ⟨-, rfl⟩,
    rfl⟩ := h
  exact max_eq_right htime

theorem updatedAt_le_of_validateResolutionTime
    (h : record.validateResolutionTime time action = .ok u) : record.updatedAtUnix ≤ time := by
  simp only [validateResolutionTime, except_bind_unit_eq_ok, rejectIf_eq_ok] at h
  exact not_lt.mp h.2

theorem advances_of_resolveUncertainAsDelivered
    (h : resolveUncertainAsDelivered time record = .ok u record') :
    record.Advances record' ∧ record.status = .uncertain ∧ record'.status = .delivered := by
  simp only [resolveUncertainAsDelivered, estate_bind_eq_ok, question_eq_ok, rejectIf_eq_ok,
    not_not, estate_get_eq_ok, estate_modify_eq_ok] at h
  obtain ⟨_, _, ⟨rfl, rfl⟩, _, _, ⟨hstatus, rfl⟩, _, _, ⟨hresolution, rfl⟩, rfl⟩ := h
  have htime := updatedAt_le_of_validateResolutionTime hresolution
  refine ⟨advances_touchAt (by rw [hstatus]; rfl) rfl (fun _ h ↦ by cases h) fun hshape ↦ ?_, hstatus, rfl⟩
  rw [StatusShape, hstatus] at hshape
  exact ⟨hshape.1, congrArg some (max_eq_right htime).symm, rfl⟩

theorem advances_of_resolveUncertainAsFailed
    (h : resolveUncertainAsFailed time error record = .ok u record') :
    record.Advances record' ∧ record.status = .uncertain ∧ record'.status = .failed := by
  simp only [resolveUncertainAsFailed, estate_bind_eq_ok, question_eq_ok, rejectIf_eq_ok,
    not_not, estate_get_eq_ok, estate_modify_eq_ok] at h
  obtain ⟨_, _, ⟨rfl, rfl⟩, _, _, ⟨hstatus, rfl⟩, _, _, ⟨-, rfl⟩,
    _, _, ⟨herror, rfl⟩, rfl⟩ := h
  refine ⟨advances_touchAt (by rw [hstatus]; rfl) rfl ?_ fun hshape ↦ ?_, hstatus, rfl⟩
  · rintro _ ⟨⟩
    simpa using herror
  · rw [StatusShape, hstatus] at hshape
    exact ⟨hshape.1, rfl, rfl⟩

end Transitions

/-! ## Construction -/

/-- A record built by `new` is pending and valid. -/
theorem new_eq_ok {id : OutboundDeliveryId} {sessionId : SessionId} {message : Message}
    {createdAtUnix : U64} (h : new id sessionId message createdAtUnix = .ok record) :
    record.Valid ∧ record.id = id ∧ record.sessionId = sessionId ∧ record.message = message ∧
      record.createdAtUnix = createdAtUnix ∧ record.updatedAtUnix = createdAtUnix ∧
      record.status = .pending := by
  simp only [new, except_bind_unit_eq_ok, except_pure_eq_ok, validate_eq_ok] at h
  obtain ⟨hvalid, rfl⟩ := h
  exact ⟨hvalid, rfl, rfl, rfl, rfl, rfl, rfl⟩

end OutboundDeliveryRecord

end FerrisBridge
