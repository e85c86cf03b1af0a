import FerrisBridge.Foundations.Encoding
import FerrisBridge.Runtime.Event

/-!
# Canonical identities

The identifiers of sessions and of platform deliveries are built from the canonical encodings of
their components: the byte length in hexadecimal, an underscore, and the bytes in hexadecimal. The
underscore also joins the components, and still an identifier can be taken apart in one way only.
-/

open Foundations

namespace FerrisBridge

/-! ## Identifiers -/

/-- The text of a session identifier. -/
def sessionIdText (platform scope : String) : String :=
  "session_v1_" ++ encodeCanonicalComponent platform ++ "_" ++ encodeCanonicalComponent scope

/-- The text of the identifier of a platform delivery. -/
def platformDeliveryIdText (platform scope deliveryId : String) : String :=
  "platform_delivery_v1_" ++ encodeCanonicalComponent platform ++ "_" ++
    encodeCanonicalComponent scope ++ "_" ++ encodeCanonicalComponent deliveryId

def EventId.forPlatformDelivery (platform scope deliveryId : String) : Except String EventId := do
  rejectIf (isBlank platform = true) "event platform namespace must not be empty"
  rejectIf (isBlank scope = true) "event scope namespace must not be empty"
  rejectIf (isBlank deliveryId = true) "event delivery id must not be empty"
  EventId.new (platformDeliveryIdText platform scope deliveryId)

theorem EventId.forPlatformDelivery_eq_ok {platform scope deliveryId : String} {id : EventId}
    (h : forPlatformDelivery platform scope deliveryId = .ok id) :
    id.asStr = platformDeliveryIdText platform scope deliveryId := by
  simp only [forPlatformDelivery, except_bind_unit_eq_ok] at h
  obtain ⟨-, -, -, hnew⟩ := h
  unfold EventId.new at hnew
  by_cases hblank : isBlank (platformDeliveryIdText platform scope deliveryId) = true
  · rw [dif_pos hblank] at hnew
    cases hnew
  · rw [dif_neg hblank] at hnew
    cases hnew
    rfl

/-! ## Encoded components -/

/-- The number of bytes, ended by an underscore. -/
def lengthHeader (size : ℕ) : List Char := Nat.toDigits 16 size ++ ['_']

theorem prefixFree_lengthHeader : PrefixFree lengthHeader := by
  refine .ended toDigits_injective fun size h ↦ ?_
  obtain ⟨digit, hdigit, h⟩ := exists_digitChar_of_mem_toDigits h
  exact (by decide : ∀ digit < 16, '_' ≠ Nat.digitChar digit) digit hdigit h

def bytesOf (value : String) : List UInt8 := value.toUTF8.data.toList

theorem bytesOf_injective : Function.Injective bytesOf := fun _ _ h ↦
  String.toByteArray_inj.mp (ByteArray.ext (Array.toList_inj.mp h))

theorem length_bytesOf (value : String) : (bytesOf value).length = value.utf8ByteSize := rfl

theorem toList_encodeCanonicalComponent (value : String) :
    (encodeCanonicalComponent value).toList =
      lengthHeader value.utf8ByteSize ++ (bytesOf value).flatMap hexByte := by
  rw [encodeCanonicalComponent, String.toList_ofList]
  rfl

/-- No encoded component is the beginning of another one. -/
theorem prefixFree_encodeCanonicalComponent :
    PrefixFree fun value ↦ (encodeCanonicalComponent value).toList := by
  have hlength : ∀ value value' : String, value.utf8ByteSize = value'.utf8ByteSize →
      ((bytesOf value).flatMap hexByte).length = ((bytesOf value').flatMap hexByte).length := by
    intro value value' hsize
    rw [length_flatMap_hexByte, length_flatMap_hexByte, length_bytesOf, length_bytesOf, hsize]
  have hsized := prefixFree_lengthHeader.sized
    (flatMap_hexByte_injective.comp bytesOf_injective) hlength
  intro value value' s t h
  simp only [toList_encodeCanonicalComponent] at h
  exact hsized value value' s t h

/-- Three encoded components behind a label, whatever separates them. -/
theorem joined_injective (label separator : String) {first second third first' second' third' : String}
    (h : label ++ encodeCanonicalComponent first ++ separator ++ encodeCanonicalComponent second ++
        separator ++ encodeCanonicalComponent third =
      label ++ encodeCanonicalComponent first' ++ separator ++ encodeCanonicalComponent second' ++
        separator ++ encodeCanonicalComponent third') :
    first = first' ∧ second = second' ∧ third = third' := by
  have hencode := prefixFree_encodeCanonicalComponent
  have hlist := congrArg String.toList h
  simp only [String.toList_append, List.append_assoc, List.append_right_inj] at hlist
  have htriple := (hencode.join (hencode.join hencode separator.toList) separator.toList).injective
  have := @htriple (first, second, third) (first', second', third') hlist
  simpa only [Prod.mk.injEq] using this

theorem sessionIdText_injective {platform scope platform' scope' : String}
    (h : sessionIdText platform scope = sessionIdText platform' scope') :
    platform = platform' ∧ scope = scope' := by
  have h := congrArg (· ++ "_" ++ encodeCanonicalComponent "") h
  obtain ⟨hplatform, hscope, -⟩ := joined_injective "session_v1_" "_" h
  exact ⟨hplatform, hscope⟩

theorem platformDeliveryIdText_injective {platform scope deliveryId platform' scope' deliveryId' : String}
    (h : platformDeliveryIdText platform scope deliveryId =
      platformDeliveryIdText platform' scope' deliveryId') :
    platform = platform' ∧ scope = scope' ∧ deliveryId = deliveryId' :=
  joined_injective "platform_delivery_v1_" "_" h

/-! ## What the identifiers identify -/

theorem SessionId.forScope_injective : Function.Injective SessionId.forScope := by
  intro scope scope' h
  obtain ⟨hplatform, hscope⟩ := sessionIdText_injective (congrArg SessionId.asStr h)
  exact SessionScope.ext hplatform hscope

/-- The identifier of any platform and scope passes the check that reading it makes. -/
theorem SessionId.new_sessionIdText (scope : SessionScope) :
    SessionId.new (sessionIdText scope.platform scope.scope) = .ok (.forScope scope) :=
  dif_pos (SessionId.isValidId_forScope scope)

theorem EventId.forPlatformDelivery_injective {platform scope deliveryId platform' scope' deliveryId' : String}
    {id : EventId} (h : forPlatformDelivery platform scope deliveryId = .ok id)
    (h' : forPlatformDelivery platform' scope' deliveryId' = .ok id) :
    platform = platform' ∧ scope = scope' ∧ deliveryId = deliveryId' :=
  platformDeliveryIdText_injective
    ((forPlatformDelivery_eq_ok h).symm.trans (forPlatformDelivery_eq_ok h'))

/-- A session identifier is tied to one scope. -/
theorem Session.scope_eq_of_id_eq {session session' : Session} (h : session.Valid) (h' : session'.Valid)
    (hid : session.id = session'.id) : session.scope = session'.scope :=
  SessionId.forScope_injective ((h.id_eq.symm.trans hid).trans h'.id_eq)

end FerrisBridge
