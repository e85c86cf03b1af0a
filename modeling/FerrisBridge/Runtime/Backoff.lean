import FerrisBridge.Runtime.Retry

/-!
# The retry backoff

The delay before a retry doubles with every completed attempt until it reaches the largest delay of
the policy. The code computes it with a checked shift and saturating operations of fixed width; the
results here are the values in unbounded arithmetic.
-/

open Foundations

namespace FerrisBridge

namespace OutboundRetryPolicy

theorem new_eq_ok {maxAttempts : U32} {initialRetryDelaySecs maxRetryDelaySecs : U64}
    {policy : OutboundRetryPolicy}
    (h : new maxAttempts initialRetryDelaySecs maxRetryDelaySecs = .ok policy) :
    policy.maxAttempts = maxAttempts ∧ policy.initialRetryDelaySecs = initialRetryDelaySecs ∧
      policy.maxRetryDelaySecs = maxRetryDelaySecs := by
  unfold new at h
  by_cases hattempts : maxAttempts = 0
  · rw [dif_pos hattempts] at h
    cases h
  by_cases hinitial : initialRetryDelaySecs = 0
  · rw [dif_neg hattempts, dif_pos hinitial] at h
    cases h
  by_cases hmax : maxRetryDelaySecs < initialRetryDelaySecs
  · rw [dif_neg hattempts, dif_neg hinitial, dif_pos hmax] at h
    cases h
  · rw [dif_neg hattempts, dif_neg hinitial, dif_neg hmax] at h
    cases h
    exact ⟨rfl, rfl, rfl⟩

variable (policy : OutboundRetryPolicy)

theorem one_le_initialRetryDelaySecs : 1 ≤ policy.initialRetryDelaySecs.toNat :=
  Nat.one_le_iff_ne_zero.mpr fun h ↦ policy.initialRetryDelaySecs_pos (Word.toNat_injective h)

/-- Neither the multiplier nor the product loses anything that the cap would keep. -/
theorem toNat_retryDelaySecs (attempts : U32) :
    (policy.retryDelaySecs attempts).toNat =
      min (policy.initialRetryDelaySecs.toNat * 2 ^ (attempts.toNat - 1))
        policy.maxRetryDelaySecs.toNat := by
  have hinitial := policy.one_le_initialRetryDelaySecs
  have hmax := policy.maxRetryDelaySecs.toNat_lt
  have hexponent : (attempts.saturatingSub 1).toNat = attempts.toNat - 1 :=
    Word.toNat_saturatingSub attempts 1
  simp only [retryDelaySecs, Word.toNat_min, Word.toNat_saturatingMul, hexponent,
    @Word.toNat_one_checkedShl 64 rfl]
  rcases le_total (2 ^ (attempts.toNat - 1)) (2 ^ 64 - 1) with h | h
  · rw [min_eq_left h, min_assoc, min_eq_right (a := 2 ^ 64 - 1) (by omega)]
  -- A multiplier out of range exceeds the cap, clamped or not.
  · have hclamped : 2 ^ 64 - 1 ≤ policy.initialRetryDelaySecs.toNat * (2 ^ 64 - 1) :=
      Nat.le_mul_of_pos_left _ hinitial
    have hexact : 2 ^ 64 - 1 ≤ policy.initialRetryDelaySecs.toNat * 2 ^ (attempts.toNat - 1) :=
      h.trans (Nat.le_mul_of_pos_left _ hinitial)
    rw [min_eq_right h, min_eq_right hclamped]
    omega

theorem retryDelaySecs_mono {attempts later : U32} (h : attempts ≤ later) :
    policy.retryDelaySecs attempts ≤ policy.retryDelaySecs later := by
  rw [Word.le_iff_toNat, toNat_retryDelaySecs, toNat_retryDelaySecs]
  have hexponent : attempts.toNat - 1 ≤ later.toNat - 1 := Nat.sub_le_sub_right h 1
  gcongr
  omega

theorem initial_le_retryDelaySecs (attempts : U32) :
    policy.initialRetryDelaySecs ≤ policy.retryDelaySecs attempts := by
  rw [Word.le_iff_toNat, toNat_retryDelaySecs]
  exact le_min (Nat.le_mul_of_pos_right _ (Nat.two_pow_pos _)) policy.initial_le_max

theorem retryDelaySecs_le_max (attempts : U32) :
    policy.retryDelaySecs attempts ≤ policy.maxRetryDelaySecs := by
  rw [Word.le_iff_toNat, toNat_retryDelaySecs]
  exact min_le_right _ _

theorem nextAttemptAtUnix_failed {delivery : OutboundDeliveryRecord}
    (hfailed : delivery.status = .failed)
    (hattempts : delivery.deliveryAttempts < policy.maxAttempts) :
    policy.nextAttemptAtUnix delivery = some (delivery.updatedAtUnix.saturatingAdd
      (policy.retryDelaySecs delivery.deliveryAttempts)) := by
  simp only [nextAttemptAtUnix, hfailed, hattempts, if_true]

theorem isDue_iff {delivery : OutboundDeliveryRecord} {nowUnix : U64} :
    policy.isDue delivery nowUnix = true ↔
      ∃ time, policy.nextAttemptAtUnix delivery = some time ∧ time ≤ nowUnix := by
  simp only [isDue, Option.any_eq_true, decide_eq_true_eq]

/-- What is due stays due. -/
theorem isDue_mono {delivery : OutboundDeliveryRecord} {nowUnix later : U64}
    (hle : nowUnix ≤ later) (h : policy.isDue delivery nowUnix = true) :
    policy.isDue delivery later = true := by
  obtain ⟨time, htime, hdue⟩ := policy.isDue_iff.mp h
  exact policy.isDue_iff.mpr ⟨time, htime, hdue.trans hle⟩

end OutboundRetryPolicy

/-- Under every policy that the constructor accepts, the delay after `n` attempts is the initial one
doubled `n - 1` times and capped, a failed delivery is due that much later, clamped to the largest
timestamp, and delays and due times are monotone. -/
theorem OutboundRetryPolicy.backoff_exact {maxAttempts : U32}
    {initialRetryDelaySecs maxRetryDelaySecs : U64} {policy : OutboundRetryPolicy}
    (h : OutboundRetryPolicy.new maxAttempts initialRetryDelaySecs maxRetryDelaySecs = .ok policy) :
    (∀ attempts : U32, 1 ≤ attempts.toNat →
      (policy.retryDelaySecs attempts).toNat =
          min (initialRetryDelaySecs.toNat * 2 ^ (attempts.toNat - 1)) maxRetryDelaySecs.toNat ∧
        initialRetryDelaySecs ≤ policy.retryDelaySecs attempts ∧
        policy.retryDelaySecs attempts ≤ maxRetryDelaySecs ∧
        (∀ later, attempts ≤ later →
          policy.retryDelaySecs attempts ≤ policy.retryDelaySecs later) ∧
        ∀ delivery : OutboundDeliveryRecord, delivery.status = .failed →
          delivery.deliveryAttempts = attempts → attempts < maxAttempts →
            (policy.nextAttemptAtUnix delivery).map Word.toNat =
              some (min (delivery.updatedAtUnix.toNat + (policy.retryDelaySecs attempts).toNat)
                (2 ^ 64 - 1))) ∧
      ∀ (delivery : OutboundDeliveryRecord) (nowUnix later : U64), nowUnix ≤ later →
        policy.isDue delivery nowUnix = true → policy.isDue delivery later = true := by
  obtain ⟨rfl, rfl, rfl⟩ := new_eq_ok h
  refine ⟨fun attempts hattempts ↦ ⟨policy.toNat_retryDelaySecs attempts,
    policy.initial_le_retryDelaySecs attempts, policy.retryDelaySecs_le_max attempts,
    fun later hle ↦ policy.retryDelaySecs_mono hle, ?_⟩,
    fun delivery nowUnix later hle ↦ policy.isDue_mono hle⟩
  rintro delivery hfailed rfl hlt
  rw [policy.nextAttemptAtUnix_failed hfailed hlt, Option.map_some, Word.toNat_saturatingAdd]

/-- The default policy doubles its delay from a second to a minute. -/
theorem OutboundRetryPolicy.backoff_exact_default :
    ∃ policy, OutboundRetryPolicy.new 3 1 60 = .ok policy ∧
      (policy.retryDelaySecs 2).toNat = min (1 * 2 ^ (2 - 1)) 60 := by
  let policy : OutboundRetryPolicy := ⟨3, 1, 60, by decide, by decide, by decide⟩
  have hnew : OutboundRetryPolicy.new 3 1 60 = .ok policy := rfl
  exact ⟨policy, hnew, ((backoff_exact hnew).1 2 (by decide)).1⟩

end FerrisBridge
