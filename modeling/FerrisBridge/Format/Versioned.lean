import FerrisBridge.Foundations.Json
import FerrisBridge.State.Validate

/-!
# Versions of the state file

A state file of an older version lacks the collections that later versions added. Every version has
its own branch in the source, which requires the collections of the version and refuses all others, a
null among them; `Decodes` says in one rule for all versions what the branches accept.
-/

open Foundations

namespace FerrisBridge

/-! ## Fields that a version may lack -/

inductive WireField (α : Type)
  | missing
  | null
  | value (value : α)

namespace WireField

variable {α : Type}

def isPresent : WireField α → Bool
  | missing => false
  | _ => true

def intoRequired (field : WireField α) (message : String) : Except String α :=
  match field with
  | value a => .ok a
  | missing | null => .error message

theorem isPresent_eq_false {field : WireField α} : ¬field.isPresent = true ↔ field = missing := by
  cases field <;> simp [isPresent]

theorem intoRequired_eq_ok {field : WireField α} {message : String} {a : α} :
    field.intoRequired message = .ok a ↔ field = value a := by
  cases field <;> simp [intoRequired]

end WireField

def deserializeWireField {α : Type} (read : Json → Except String α) (document : Json) :
    Except String (WireField α) := do
  match ← document.asOption read with
  | some a => return .value a
  | none => return .null

/-- A list that is there reads as a value. -/
theorem deserializeWireField_ofList {α : Type} {write : α → Json} {read : Json → Except String α}
    {list : List α} (hread : ∀ a ∈ list, read (write a) = .ok a) :
    deserializeWireField (Json.asList read) (Json.ofList write list) = .ok (.value list) := by
  have hoption : (Json.ofList write list).asOption (Json.asList read) = .ok (some list) := by
    change (do return some (← (Json.ofList write list).asList read)) = _
    rw [Json.asList_ofList hread]
    rfl
  rw [deserializeWireField, hoption]
  rfl

/-- Only what is read can be a value. -/
theorem deserializeWireField_eq_value {α : Type} {read : Json → Except String α} {document : Json}
    {a : α} (h : deserializeWireField read document = .ok (.value a)) : read document = .ok a := by
  rw [deserializeWireField, except_bind_eq_ok] at h
  obtain ⟨value, hvalue, h⟩ := h
  cases value with
  | none => cases h
  | some b =>
    cases h
    exact Json.asOption_eq_some hvalue

/-! ## Decoding -/

def runtimeStateFileVersion : U32 := 8

@[simp]
theorem toNat_runtimeStateFileVersion : runtimeStateFileVersion.toNat = 8 := rfl

structure PersistedCollections where
  runs : List RunRecord
  runInputs : List RunInputRecord
  inboundEvents : List InboundEventRecord
  queuedMessages : List QueuedMessage
  outboundDeliveries : List OutboundDeliveryRecord
  normalizeAggregateUpdatedAt : Bool

def rejectInterruptedRuns (version : ℕ) (runs : List RunRecord) : Except String Unit :=
  rejectIf (runs.any (·.status = .interrupted))
    s!"runtime state version {version} must not contain interrupted runs"

def rejectOutputLinkedRuns (version : ℕ) (runs : List RunRecord) : Except String Unit :=
  rejectIf (runs.any (!·.outputDeliveryIds.isEmpty))
    s!"runtime state version {version} must not contain run output delivery ids"

section Decode

variable (version : U32) (runs : WireField (List RunRecord))
  (runInputs : WireField (List RunInputRecord)) (inboundEvents : WireField (List InboundEventRecord))
  (queuedMessages : WireField (List QueuedMessage))
  (outboundDeliveries : WireField (List OutboundDeliveryRecord))

def decodePersistedCollections : Except String PersistedCollections :=
  match version.toNat with
  | 1 => do
    rejectIf runs.isPresent "runtime state version 1 must not contain run records"
    rejectIf inboundEvents.isPresent
      "runtime state version 1 must not contain inbound event records"
    rejectIf outboundDeliveries.isPresent
      "runtime state version 1 must not contain outbound deliveries"
    rejectIf queuedMessages.isPresent "runtime state version 1 must not contain queued messages"
    rejectIf runInputs.isPresent "runtime state version 1 must not contain run inputs"
    return ⟨[], [], [], [], [], true⟩
  | 2 => do
    let runs ← runs.intoRequired "runtime state version 2 must contain run records"
    rejectInterruptedRuns 2 runs
    rejectOutputLinkedRuns 2 runs
    rejectIf inboundEvents.isPresent
      "runtime state version 2 must not contain inbound event records"
    rejectIf outboundDeliveries.isPresent
      "runtime state version 2 must not contain outbound deliveries"
    rejectIf queuedMessages.isPresent "runtime state version 2 must not contain queued messages"
    rejectIf runInputs.isPresent "runtime state version 2 must not contain run inputs"
    return ⟨runs, [], [], [], [], true⟩
  | 3 => do
    let runs ← runs.intoRequired "runtime state version 3 must contain run records"
    rejectInterruptedRuns 3 runs
    rejectOutputLinkedRuns 3 runs
    let inboundEvents ← inboundEvents.intoRequired
      "runtime state version 3 must contain inbound event records"
    rejectIf outboundDeliveries.isPresent
      "runtime state version 3 must not contain outbound deliveries"
    rejectIf queuedMessages.isPresent "runtime state version 3 must not contain queued messages"
    rejectIf runInputs.isPresent "runtime state version 3 must not contain run inputs"
    return ⟨runs, [], inboundEvents, [], [], false⟩
  | 4 => do
    let runs ← runs.intoRequired "runtime state version 4 must contain run records"
    rejectInterruptedRuns 4 runs
    rejectOutputLinkedRuns 4 runs
    let inboundEvents ← inboundEvents.intoRequired
      "runtime state version 4 must contain inbound event records"
    let outboundDeliveries ← outboundDeliveries.intoRequired
      "runtime state version 4 must contain outbound deliveries"
    rejectIf queuedMessages.isPresent "runtime state version 4 must not contain queued messages"
    rejectIf runInputs.isPresent "runtime state version 4 must not contain run inputs"
    return ⟨runs, [], inboundEvents, [], outboundDeliveries, false⟩
  | 5 => do
    let runs ← runs.intoRequired "runtime state version 5 must contain run records"
    rejectInterruptedRuns 5 runs
    rejectOutputLinkedRuns 5 runs
    let inboundEvents ← inboundEvents.intoRequired
      "runtime state version 5 must contain inbound event records"
    let queuedMessages ← queuedMessages.intoRequired
      "runtime state version 5 must contain queued messages"
    let outboundDeliveries ← outboundDeliveries.intoRequired
      "runtime state version 5 must contain outbound deliveries"
    rejectIf runInputs.isPresent "runtime state version 5 must not contain run inputs"
    return ⟨runs, [], inboundEvents, queuedMessages, outboundDeliveries, false⟩
  | 6 => do
    let runs ← runs.intoRequired "runtime state version 6 must contain run records"
    rejectInterruptedRuns 6 runs
    rejectOutputLinkedRuns 6 runs
    let inboundEvents ← inboundEvents.intoRequired
      "runtime state version 6 must contain inbound event records"
    let outboundDeliveries ← outboundDeliveries.intoRequired
      "runtime state version 6 must contain outbound deliveries"
    let queuedMessages ← queuedMessages.intoRequired
      "runtime state version 6 must contain queued messages"
    let runInputs ← runInputs.intoRequired "runtime state version 6 must contain run inputs"
    return ⟨runs, runInputs, inboundEvents, queuedMessages, outboundDeliveries, false⟩
  | 7 => do
    let runs ← runs.intoRequired "runtime state version 7 must contain run records"
    rejectOutputLinkedRuns 7 runs
    let inboundEvents ← inboundEvents.intoRequired
      "runtime state version 7 must contain inbound event records"
    let outboundDeliveries ← outboundDeliveries.intoRequired
      "runtime state version 7 must contain outbound deliveries"
    let queuedMessages ← queuedMessages.intoRequired
      "runtime state version 7 must contain queued messages"
    let runInputs ← runInputs.intoRequired "runtime state version 7 must contain run inputs"
    return ⟨runs, runInputs, inboundEvents, queuedMessages, outboundDeliveries, false⟩
  | 8 => do
    let runs ← runs.intoRequired "runtime state version 8 must contain run records"
    let inboundEvents ← inboundEvents.intoRequired
      "runtime state version 8 must contain inbound event records"
    let outboundDeliveries ← outboundDeliveries.intoRequired
      "runtime state version 8 must contain outbound deliveries"
    let queuedMessages ← queuedMessages.intoRequired
      "runtime state version 8 must contain queued messages"
    let runInputs ← runInputs.intoRequired "runtime state version 8 must contain run inputs"
    return ⟨runs, runInputs, inboundEvents, queuedMessages, outboundDeliveries, false⟩
  | _ => throw (s!"unsupported runtime state version {version.toNat}; " ++
      s!"expected {runtimeStateFileVersion.toNat}")

end Decode

/-! ## One rule for every version -/

/-- A collection is there from the version that introduced it, and is empty before. -/
def WireField.Carries {α : Type} (field : WireField (List α)) (introduced version : ℕ)
    (list : List α) : Prop :=
  if introduced ≤ version then field = .value list else field = .missing ∧ list = []

/-- What the branches of the versions accept, and the collections they give. -/
@[mk_iff]
structure Decodes (version : ℕ) (runs : WireField (List RunRecord))
    (runInputs : WireField (List RunInputRecord))
    (inboundEvents : WireField (List InboundEventRecord))
    (queuedMessages : WireField (List QueuedMessage))
    (outboundDeliveries : WireField (List OutboundDeliveryRecord))
    (collections : PersistedCollections) : Prop where
  version_pos : 1 ≤ version
  version_le : version ≤ 8
  runs : runs.Carries 2 version collections.runs
  inbound_events : inboundEvents.Carries 3 version collections.inboundEvents
  outbound_deliveries : outboundDeliveries.Carries 4 version collections.outboundDeliveries
  queued_messages : queuedMessages.Carries 5 version collections.queuedMessages
  run_inputs : runInputs.Carries 6 version collections.runInputs
  interrupted : version < 7 → ∀ run ∈ collections.runs, run.status ≠ .interrupted
  outputs : version < 8 → ∀ run ∈ collections.runs, run.outputDeliveryIds = []
  normalize : collections.normalizeAggregateUpdatedAt = decide (version < 3)

theorem rejectInterruptedRuns_eq_ok {version : ℕ} {runs : List RunRecord} {u : Unit} :
    rejectInterruptedRuns version runs = .ok u ↔ ∀ run ∈ runs, run.status ≠ .interrupted := by
  simp [rejectInterruptedRuns]

theorem rejectOutputLinkedRuns_eq_ok {version : ℕ} {runs : List RunRecord} {u : Unit} :
    rejectOutputLinkedRuns version runs = .ok u ↔ ∀ run ∈ runs, run.outputDeliveryIds = [] := by
  simp [rejectOutputLinkedRuns]

theorem decodePersistedCollections_eq_ok {version : U32} {runs : WireField (List RunRecord)}
    {runInputs : WireField (List RunInputRecord)}
    {inboundEvents : WireField (List InboundEventRecord)}
    {queuedMessages : WireField (List QueuedMessage)}
    {outboundDeliveries : WireField (List OutboundDeliveryRecord)}
    {collections : PersistedCollections} :
    decodePersistedCollections version runs runInputs inboundEvents queuedMessages
        outboundDeliveries = .ok collections ↔
      Decodes version.toNat runs runInputs inboundEvents queuedMessages outboundDeliveries
        collections := by
  obtain ⟨_, _, _, _, _, _⟩ := collections
  rw [decodePersistedCollections, decodes_iff]
  generalize version.toNat = number
  by_cases hsupported : 1 ≤ number ∧ number ≤ 8
  · obtain ⟨hpos, hle⟩ := hsupported
    interval_cases number <;>
      simp only [except_bind_eq_ok, rejectIf_eq_ok, WireField.isPresent_eq_false,
        WireField.intoRequired_eq_ok, rejectInterruptedRuns_eq_ok, rejectOutputLinkedRuns_eq_ok,
        except_pure_eq_ok, PersistedCollections.mk.injEq, WireField.Carries] <;>
      simp <;> grind
  · have hunsupported : number = 0 ∨ ∃ excess, number = excess + 9 := by
      rcases Nat.eq_zero_or_pos number with hzero | hpos
      · exact .inl hzero
      · exact .inr ⟨number - 9, by omega⟩
    rcases hunsupported with rfl | ⟨excess, rfl⟩
    · simp
    · simp

end FerrisBridge
