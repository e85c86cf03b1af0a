import Mathlib

/-!
# Unsigned machine words

Fixed-width unsigned integers as a linear order with the checked and saturating operations that
systems code uses for timestamps and counters. The type is a definition and not an abbreviation of
`Fin`, so that order automation treats a word as an element of a linear order; arithmetic facts go
through `toNat`.
-/

namespace Foundations

/-- An unsigned integer of `width` bits. -/
def Word (width : ℕ) : Type := Fin (2 ^ width)

namespace Word

variable {width : ℕ}

instance : LinearOrder (Word width) := inferInstanceAs (LinearOrder (Fin (2 ^ width)))
instance : Repr (Word width) := inferInstanceAs (Repr (Fin (2 ^ width)))
instance (value : ℕ) : OfNat (Word width) value := ⟨Fin.ofNat (2 ^ width) value⟩

/-- The word with a given value in range. -/
def ofLt (value : ℕ) (h : value < 2 ^ width) : Word width := Fin.mk value h

def toNat (word : Word width) : ℕ := Fin.val word

@[simp]
theorem toNat_ofLt (value : ℕ) (h : value < 2 ^ width) : (ofLt value h).toNat = value := rfl

theorem toNat_lt (word : Word width) : word.toNat < 2 ^ width := Fin.isLt word

theorem le_iff_toNat {left right : Word width} : left ≤ right ↔ left.toNat ≤ right.toNat := Iff.rfl

theorem lt_iff_toNat {left right : Word width} : left < right ↔ left.toNat < right.toNat := Iff.rfl

theorem toNat_injective {left right : Word width} (h : left.toNat = right.toNat) : left = right :=
  Fin.ext h

/-- The largest value of the type. -/
def maxValue : Word width :=
  ofLt (2 ^ width - 1) (Nat.sub_lt (Nat.two_pow_pos width) Nat.one_pos)

theorem toNat_maxValue : (maxValue : Word width).toNat = 2 ^ width - 1 := rfl

/-- The natural number clamped to the largest value of the type. -/
def clamp (value : ℕ) : Word width :=
  if h : value < 2 ^ width then ofLt value h else maxValue

theorem toNat_clamp (value : ℕ) :
    (clamp value : Word width).toNat = min value (2 ^ width - 1) := by
  have := Nat.two_pow_pos width
  by_cases h : value < 2 ^ width
  · rw [clamp, dif_pos h, toNat_ofLt]
    omega
  · rw [clamp, dif_neg h, toNat_maxValue]
    omega

def saturatingAdd (left right : Word width) : Word width := clamp (left.toNat + right.toNat)

theorem le_saturatingAdd (left right : Word width) : left ≤ saturatingAdd left right := by
  have := left.toNat_lt
  rw [le_iff_toNat, saturatingAdd, toNat_clamp]
  omega

theorem toNat_saturatingAdd (left right : Word width) :
    (saturatingAdd left right).toNat = min (left.toNat + right.toNat) (2 ^ width - 1) :=
  toNat_clamp _

def saturatingMul (left right : Word width) : Word width := clamp (left.toNat * right.toNat)

theorem toNat_saturatingMul (left right : Word width) :
    (saturatingMul left right).toNat = min (left.toNat * right.toNat) (2 ^ width - 1) :=
  toNat_clamp _

def saturatingSub (left right : Word width) : Word width := clamp (left.toNat - right.toNat)

theorem toNat_saturatingSub (left right : Word width) :
    (saturatingSub left right).toNat = left.toNat - right.toNat := by
  have := left.toNat_lt
  rw [saturatingSub, toNat_clamp]
  omega

theorem toNat_min (left right : Word width) :
    (min left right).toNat = min left.toNat right.toNat := by
  rcases le_total left right with h | h
  · rw [min_eq_left h, min_eq_left (le_iff_toNat.mp h)]
  · rw [min_eq_right h, min_eq_right (le_iff_toNat.mp h)]

/-- Addition that reports overflow. -/
def checkedAdd (left right : Word width) : Option (Word width) :=
  if h : left.toNat + right.toNat < 2 ^ width then some (ofLt _ h) else none

theorem toNat_of_checkedAdd {left right sum : Word width} (h : checkedAdd left right = some sum) :
    sum.toNat = left.toNat + right.toNat := by
  unfold checkedAdd at h
  split at h
  · rw [← Option.some.inj h]
    rfl
  · cases h

/-- Addition that wraps around. -/
def wrappingAdd (left right : Word width) : Word width :=
  ofLt ((left.toNat + right.toNat) % 2 ^ width) (Nat.mod_lt _ (Nat.two_pow_pos width))

theorem toNat_wrappingAdd {left right : Word width} (h : left.toNat + right.toNat < 2 ^ width) :
    (left.wrappingAdd right).toNat = left.toNat + right.toNat :=
  Nat.mod_eq_of_lt h

/-- Left shift that reports a shift by the width of the type or more; bits shifted out are lost. -/
def checkedShl (word : Word width) (shift : ℕ) : Option (Word width) :=
  if shift < width then
    some (ofLt (word.toNat * 2 ^ shift % 2 ^ width) (Nat.mod_lt _ (Nat.two_pow_pos width)))
  else none

/-- Shifting one gives a power of two, or nothing when the power is out of range. -/
theorem toNat_one_checkedShl (hone : (1 : Word width).toNat = 1) (shift : ℕ) :
    (((1 : Word width).checkedShl shift).getD maxValue).toNat = min (2 ^ shift) (2 ^ width - 1) := by
  unfold checkedShl
  by_cases h : shift < width
  · have hpow : 2 ^ shift < 2 ^ width := Nat.pow_lt_pow_right (by omega) h
    rw [if_pos h, Option.getD_some, toNat_ofLt, hone, one_mul, Nat.mod_eq_of_lt hpow]
    omega
  · have hpow : 2 ^ width ≤ 2 ^ shift := Nat.pow_le_pow_right (by omega) (not_lt.mp h)
    rw [if_neg h, Option.getD_none, toNat_maxValue]
    exact (min_eq_right ((Nat.sub_le _ _).trans hpow)).symm

end Word

/-- Unix seconds, delays and other unsigned 64-bit values. -/
abbrev U64 := Word 64

/-- Unsigned 32-bit counters. -/
abbrev U32 := Word 32

end Foundations
