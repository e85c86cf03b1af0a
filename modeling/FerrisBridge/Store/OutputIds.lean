import FerrisBridge.Foundations.Encoding
import FerrisBridge.Store.Completion

/-!
# The ids of outputs

The id of an output is written with the length of its run id in front of the run id, so that it can be
taken apart although the run id may hold separators and digits itself. Completions of different runs
therefore never compete for an id.
-/

open Foundations

namespace FerrisBridge

/-! ## The text of an id -/

theorem utf8ByteSize_ofList (text : List Char) :
    (String.ofList text).utf8ByteSize = (text.map Char.utf8Size).sum := by
  induction text with
  | nil => rfl
  | cons c text ih =>
    rw [String.ofList_cons, String.utf8ByteSize_append, String.utf8ByteSize_singleton, ih,
      List.map_cons, List.sum_cons]

theorem utf8Size_of_isIdChar {c : Char} (h : isIdChar c = true) : c.utf8Size = 1 := by
  apply Char.utf8Size_eq_one_iff.mpr
  apply UInt32.le_iff_toNat_le.mpr
  simp only [isIdChar, Char.isAlphanum, Char.isAlpha, Char.isUpper, Char.isLower, Char.isDigit,
    Bool.or_eq_true, Bool.and_eq_true, decide_eq_true_eq, beq_iff_eq, ge_iff_le,
    UInt32.le_iff_toNat_le, Char.reduceVal, UInt32.reduceToNat] at h
  change c.val.toNat ≤ 127
  rcases h with ((((((h | h) | h) | rfl) | rfl) | rfl) | rfl)
  · omega
  · omega
  · omega
  · decide
  · decide
  · decide
  · decide

theorem isIdChar_of_isDigit {c : Char} (h : c.isDigit = true) : isIdChar c = true := by
  simp [isIdChar, Char.isAlphanum, h]

theorem all_isIdChar_of_isValidId {value : String} (h : isValidId value = true) :
    ∀ c ∈ value.toList, isIdChar c = true :=
  List.all_eq_true.mp (Bool.and_eq_true_iff.mp h).2

/-- All characters of a valid id are one byte long. -/
theorem utf8ByteSize_of_isValidId {value : String} (h : isValidId value = true) :
    value.utf8ByteSize = value.toList.length := by
  have hones : value.toList.map Char.utf8Size = List.replicate value.toList.length 1 := by
    apply List.map_eq_replicate_iff.mpr
    intro c hc
    exact utf8Size_of_isIdChar (all_isIdChar_of_isValidId h c hc)
  calc
    value.utf8ByteSize = (String.ofList value.toList).utf8ByteSize := by rw [String.ofList_toList]
    _ = (value.toList.map Char.utf8Size).sum := utf8ByteSize_ofList _
    _ = value.toList.length := by rw [hones, List.sum_replicate, smul_eq_mul, mul_one]

/-! ## Taking an id apart -/

/-- The length of a run id, ended by a colon. -/
def sizeHeader (size : ℕ) : List Char := Nat.toDigits 10 size ++ [':']

theorem prefixFree_sizeHeader : PrefixFree sizeHeader := by
  apply PrefixFree.ended decimal_injective
  intro size h
  exact absurd (isDigit_of_mem_decimal h) (by decide)

/-- A run id behind its length. -/
def sizedRunId (runId : RunId) : List Char :=
  sizeHeader runId.asStr.utf8ByteSize ++ runId.asStr.toList

theorem prefixFree_sizedRunId : PrefixFree sizedRunId := by
  apply prefixFree_sizeHeader.sized
  · intro left right h
    exact RunId.ext (String.toList_injective h)
  · intro left right h
    rwa [← utf8ByteSize_of_isValidId left.valid, ← utf8ByteSize_of_isValidId right.valid]

def outputIdText (runId : RunId) (index : ℕ) : String :=
  s!"agent-run-output:{runId.asStr.utf8ByteSize}:{runId}:{index}"

theorem toList_numbered (label colon text : String) (size index : ℕ) :
    (label ++ toString size ++ colon ++ text ++ colon ++ toString index).toList =
      label.toList ++ (Nat.toDigits 10 size ++ (colon.toList ++
        (text.toList ++ (colon.toList ++ Nat.toDigits 10 index)))) := by
  have hdigits (number : ℕ) : (toString number).toList = Nat.toDigits 10 number := Nat.toList_repr
  simp only [String.toList_append, hdigits, List.append_assoc]

theorem toList_outputIdText (runId : RunId) (index : ℕ) :
    (outputIdText runId index).toList =
      "agent-run-output:".toList ++ (sizedRunId runId ++ ':' :: Nat.toDigits 10 index) := by
  rw [sizedRunId, sizeHeader, List.append_assoc, List.append_assoc]
  exact toList_numbered "agent-run-output:" ":" runId.asStr runId.asStr.utf8ByteSize index

theorem isValidId_outputIdText (runId : RunId) (index : ℕ) :
    isValidId (outputIdText runId index) = true := by
  have hrun := all_isIdChar_of_isValidId runId.valid
  have hdigits (number : ℕ) : ∀ c ∈ Nat.toDigits 10 number, isIdChar c = true :=
    fun c hc ↦ isIdChar_of_isDigit (isDigit_of_mem_decimal hc)
  have hall : ∀ c ∈ (outputIdText runId index).toList, isIdChar c = true := by
    intro c hc
    rw [toList_outputIdText, sizedRunId, sizeHeader] at hc
    simp only [List.mem_append, List.mem_cons, List.not_mem_nil, or_false] at hc
    rcases hc with hc | ((hc | rfl) | hc) | rfl | hc
    · exact List.all_eq_true.mp (by decide : "agent-run-output:".toList.all isIdChar = true) c hc
    · exact hdigits _ c hc
    · decide
    · exact hrun c hc
    · decide
    · exact hdigits _ c hc
  apply Bool.and_eq_true_iff.mpr
  refine ⟨?_, List.all_eq_true.mpr hall⟩
  rw [toList_outputIdText]
  rfl

theorem outputIdText_injective {runId runId' : RunId} {index index' : ℕ}
    (h : outputIdText runId index = outputIdText runId' index') :
    runId = runId' ∧ index = index' := by
  have hlist := congrArg String.toList h
  rw [toList_outputIdText, toList_outputIdText, List.append_right_inj] at hlist
  obtain ⟨rfl, hrest⟩ := prefixFree_sizedRunId _ _ _ _ hlist
  exact ⟨rfl, decimal_injective (List.cons.inj hrest).2⟩

/-! ## The ids of a completion -/

namespace StateStore

theorem outputDeliveryId_eq (runId : RunId) (index : ℕ) :
    outputDeliveryId runId index =
      .ok ⟨outputIdText runId index, isValidId_outputIdText runId index⟩ :=
  dif_pos (isValidId_outputIdText runId index)

theorem outputDeliveryId_injective {runId runId' : RunId} {index index' : ℕ}
    {deliveryId : OutboundDeliveryId} (h : outputDeliveryId runId index = .ok deliveryId)
    (h' : outputDeliveryId runId' index' = .ok deliveryId) : runId = runId' ∧ index = index' := by
  rw [outputDeliveryId_eq] at h h'
  exact outputIdText_injective (congrArg OutboundDeliveryId.asStr (Except.ok.inj (h.trans h'.symm)))

/-- The outputs of a completion have the ids of their places. -/
theorem map_id_of_outputDeliveries {runId : RunId} {sessionId : SessionId} {messages : List Message}
    {finishedAtUnix : U64} {expected : List OutboundDeliveryRecord}
    (h : outputDeliveries runId sessionId messages finishedAtUnix = .ok expected) :
    expected.map (·.id.asStr) = (List.range messages.length).map (outputIdText runId) := by
  have hids : List.Forall₂ (· = ·) (messages.zipIdx.map fun output ↦ outputIdText runId output.2)
      (expected.map (·.id.asStr)) := by
    rw [List.forall₂_map_left_iff, List.forall₂_map_right_iff]
    apply (outputDeliveries_eq_ok.mp h).2.imp
    intro output delivery houtput
    obtain ⟨-, -, deliveryId, hid, hnew⟩ := outputDelivery_eq_ok houtput
    rw [outputDeliveryId_eq] at hid
    rw [(OutboundDeliveryRecord.new_eq_ok hnew).2.1, ← Except.ok.inj hid]
  rw [List.forall₂_eq_eq_eq] at hids
  calc
    expected.map (·.id.asStr) = messages.zipIdx.map fun output ↦ outputIdText runId output.2 :=
      hids.symm
    _ = (messages.zipIdx.map Prod.snd).map (outputIdText runId) := by rw [List.map_map]; rfl
    _ = (List.range messages.length).map (outputIdText runId) := by
      rw [List.zipIdx_map_snd, List.range_eq_range']

/-- Every output has an id of its own. The outputs of a completion have different ids, and none of
them is the id of an output of another run. -/
theorem output_ids_collision_free :
    (∀ runId index, ∃ deliveryId, outputDeliveryId runId index = .ok deliveryId) ∧
    (∀ runId runId' index index' deliveryId, outputDeliveryId runId index = .ok deliveryId →
      outputDeliveryId runId' index' = .ok deliveryId → runId = runId' ∧ index = index') ∧
    ∀ runId sessionId messages finishedAtUnix expected,
      outputDeliveries runId sessionId messages finishedAtUnix = .ok expected →
        (expected.map (·.id)).Nodup ∧ ∀ other index deliveryId, other ≠ runId →
          outputDeliveryId other index = .ok deliveryId → deliveryId ∉ expected.map (·.id) := by
  refine ⟨fun runId index ↦ ⟨_, outputDeliveryId_eq runId index⟩,
    fun _ _ _ _ _ h h' ↦ outputDeliveryId_injective h h', ?_⟩
  intro runId sessionId messages finishedAtUnix expected h
  have hids := map_id_of_outputDeliveries h
  constructor
  · apply List.Nodup.of_map OutboundDeliveryId.asStr
    rw [List.map_map]
    change (expected.map (·.id.asStr)).Nodup
    rw [hids]
    exact List.nodup_range.map fun index index' heq ↦ (outputIdText_injective heq).2
  · intro other index deliveryId hother hid hmem
    rw [outputDeliveryId_eq] at hid
    obtain ⟨delivery, hdelivery, rfl⟩ := List.mem_map.mp hmem
    have htext : delivery.id.asStr ∈ expected.map (·.id.asStr) := List.mem_map_of_mem hdelivery
    rw [hids, ← Except.ok.inj hid] at htext
    obtain ⟨index', -, heq⟩ := List.mem_map.mp htext
    exact hother (outputIdText_injective heq).1.symm

end StateStore

end FerrisBridge
