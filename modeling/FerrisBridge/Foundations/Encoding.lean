import Mathlib

/-!
# Prefix-free encodings

An encoding is prefix-free when a text can begin with the encoding of one value only. Such encodings
can be joined in any number and taken apart again. A text in front of which its length stands, and a
number that is followed by a character that is no digit, are prefix-free.
-/

namespace Foundations

variable {α α' β : Type}

/-- A list begins with the encoding of at most one value. -/
def PrefixFree (encode : α → List β) : Prop :=
  ∀ a b s t, encode a ++ s = encode b ++ t → a = b ∧ s = t

namespace PrefixFree

variable {encode : α → List β} {encode' : α' → List β}

theorem injective (h : PrefixFree encode) : Function.Injective encode :=
  fun a b hab ↦ (h a b [] [] (congrArg (· ++ []) hab)).1

/-- Two encodings with a fixed separator between them. -/
theorem join (h : PrefixFree encode) (h' : PrefixFree encode') (separator : List β) :
    PrefixFree fun pair : α × α' ↦ encode pair.1 ++ (separator ++ encode' pair.2) := by
  rintro ⟨a, a'⟩ ⟨b, b'⟩ s t heq
  simp only [List.append_assoc] at heq
  obtain ⟨rfl, hrest⟩ := h _ _ _ _ heq
  obtain ⟨rfl, hst⟩ := h' _ _ _ _ (List.append_cancel_left hrest)
  exact ⟨rfl, hst⟩

/-- An injective encoding that a character ends which does not occur in it. -/
theorem ended (hinjective : Function.Injective encode) {last : β} (hlast : ∀ a, last ∉ encode a) :
    PrefixFree fun a ↦ encode a ++ [last] := by
  intro a b s t heq
  simp only [List.append_assoc, List.singleton_append] at heq
  rcases List.append_eq_append_iff.mp heq with ⟨between, hb, hrest⟩ | ⟨between, ha, hrest⟩
  · cases between with
    | nil => exact ⟨(hinjective (by simpa using hb)).symm, by simpa using hrest⟩
    | cons c between =>
      obtain ⟨rfl, -⟩ := List.cons.inj hrest
      exact absurd (hb ▸ List.mem_append_right _ List.mem_cons_self) (hlast b)
  · cases between with
    | nil => exact ⟨hinjective (by simpa using ha), by simpa using hrest.symm⟩
    | cons c between =>
      obtain ⟨rfl, -⟩ := List.cons.inj hrest
      exact absurd (ha ▸ List.mem_append_right _ List.mem_cons_self) (hlast a)

/-- A prefix-free encoding of the size of a value, and a payload whose length the size determines. -/
theorem sized {header : ℕ → List β} (hheader : PrefixFree header) {payload : α → List β}
    {size : α → ℕ} (hpayload : Function.Injective payload)
    (hlength : ∀ a b, size a = size b → (payload a).length = (payload b).length) :
    PrefixFree fun a ↦ header (size a) ++ payload a := by
  intro a b s t heq
  simp only [List.append_assoc] at heq
  obtain ⟨hsize, hrest⟩ := hheader _ _ _ _ heq
  obtain ⟨hab, hst⟩ := List.append_inj hrest (hlength a b hsize)
  exact ⟨hpayload hab, hst⟩

end PrefixFree

/-! ## Decimal digits -/

theorem decimal_injective : Function.Injective (Nat.toDigits 10) := by
  intro a b h
  calc
    a = Nat.ofDigitChars 10 (Nat.toDigits 10 a) 0 := Nat.ofDigitChars_ten_toDigits.symm
    _ = Nat.ofDigitChars 10 (Nat.toDigits 10 b) 0 := by rw [h]
    _ = b := Nat.ofDigitChars_ten_toDigits

theorem isDigit_of_mem_decimal {value : ℕ} {c : Char} (h : c ∈ Nat.toDigits 10 value) :
    c.isDigit = true :=
  Nat.isDigit_of_mem_toDigits (by decide) (by decide) h

/-! ## Hexadecimal digits -/

theorem digitChar_injective {a b : ℕ} (ha : a < 16) (hb : b < 16)
    (h : Nat.digitChar a = Nat.digitChar b) : a = b :=
  (by decide : ∀ a < 16, ∀ b < 16, Nat.digitChar a = Nat.digitChar b → a = b) a ha b hb h

theorem exists_digitChar_of_mem_toDigits {value : ℕ} {c : Char} (h : c ∈ Nat.toDigits 16 value) :
    ∃ digit < 16, c = Nat.digitChar digit := by
  induction value using Nat.strongRecOn with
  | ind value ih =>
    rw [Nat.toDigits_eq_if (by decide)] at h
    by_cases hlt : value < 16
    · rw [if_pos hlt] at h
      exact ⟨value, hlt, List.mem_singleton.mp h⟩
    · rw [if_neg hlt] at h
      rcases List.mem_append.mp h with h | h
      · exact ih _ (by omega) h
      · exact ⟨_, Nat.mod_lt _ (by decide), List.mem_singleton.mp h⟩

theorem toDigits_injective : Function.Injective (Nat.toDigits 16) := by
  intro a
  induction a using Nat.strongRecOn with
  | ind a ih =>
    intro b h
    have hpos (value : ℕ) : 0 < (Nat.toDigits 16 value).length := Nat.length_toDigits_pos
    rw [Nat.toDigits_eq_if (by decide), @Nat.toDigits_eq_if 16 b (by decide)] at h
    by_cases ha : a < 16
    · by_cases hb : b < 16
      · rw [if_pos ha, if_pos hb] at h
        exact digitChar_injective ha hb (List.singleton_inj.mp h)
      · rw [if_pos ha, if_neg hb] at h
        have hlength := congrArg List.length h
        rw [List.length_append, List.length_singleton, List.length_singleton] at hlength
        exact absurd hlength (by have := hpos (b / 16); omega)
    · by_cases hb : b < 16
      · rw [if_neg ha, if_pos hb] at h
        have hlength := congrArg List.length h
        rw [List.length_append, List.length_singleton, List.length_singleton] at hlength
        exact absurd hlength (by have := hpos (a / 16); omega)
      · rw [if_neg ha, if_neg hb] at h
        obtain ⟨hhigh, hlow⟩ := List.append_inj' h rfl
        have hquotient := ih (a / 16) (by omega) hhigh
        have hremainder := digitChar_injective (Nat.mod_lt a (by decide)) (Nat.mod_lt b (by decide))
          (List.singleton_inj.mp hlow)
        omega

/-- The digits of a byte. -/
def hexByte (byte : UInt8) : List Char :=
  [Nat.digitChar (byte.toNat / 16), Nat.digitChar (byte.toNat % 16)]

theorem hexByte_injective : Function.Injective hexByte := by
  intro a b h
  have ha := a.toNat_lt
  have hb := b.toNat_lt
  obtain ⟨hhigh, hlow⟩ : Nat.digitChar (a.toNat / 16) = Nat.digitChar (b.toNat / 16) ∧
      Nat.digitChar (a.toNat % 16) = Nat.digitChar (b.toNat % 16) := by
    simpa [hexByte] using h
  have hquotient := digitChar_injective (by omega) (by omega) hhigh
  have hremainder := digitChar_injective (Nat.mod_lt _ (by decide)) (Nat.mod_lt _ (by decide)) hlow
  exact UInt8.toNat_inj.mp (by omega)

theorem length_flatMap_hexByte (bytes : List UInt8) :
    (bytes.flatMap hexByte).length = 2 * bytes.length := by
  induction bytes with
  | nil => rfl
  | cons byte rest ih =>
    rw [List.flatMap_cons, List.length_append, ih, List.length_cons]
    simp only [hexByte, List.length_cons, List.length_nil]
    omega

theorem flatMap_hexByte_injective : Function.Injective fun bytes : List UInt8 ↦ bytes.flatMap hexByte := by
  intro bytes
  induction bytes with
  | nil =>
    intro bytes' h
    cases bytes' with
    | nil => rfl
    | cons byte rest => simp [hexByte] at h
  | cons byte rest ih =>
    intro bytes' h
    cases bytes' with
    | nil => simp [hexByte] at h
    | cons byte' rest' =>
      simp only [List.flatMap_cons] at h
      obtain ⟨hbyte, hrest⟩ := List.append_inj h rfl
      rw [hexByte_injective hbyte, ih hrest]

end Foundations
