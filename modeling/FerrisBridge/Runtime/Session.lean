import FerrisBridge.Foundations.Checked
import FerrisBridge.Foundations.Word

/-!
# Sessions

A session is identified by its platform and scope: `SessionId.forScope` encodes both into one
identifier, and `Session.validate` ties the identifier of a session to its scope. Identifier types
carry the proof of the check their constructor makes, so an invalid identifier cannot be built.
-/

open Foundations

namespace FerrisBridge

/-! ## Text -/

/-- Unicode `White_Space`, which `str::trim` removes. -/
def isWhitespace (c : Char) : Bool :=
  let code := c.toNat
  (0x09 ≤ code && code ≤ 0x0d) || code == 0x20 || code == 0x85 || code == 0xa0 || code == 0x1680 ||
    (0x2000 ≤ code && code ≤ 0x200a) || code == 0x2028 || code == 0x2029 || code == 0x202f ||
    code == 0x205f || code == 0x3000

/-- `value.trim().is_empty()`. -/
def isBlank (value : String) : Bool := value.toList.all isWhitespace

theorem isBlank_eq_false {value : String} (h : ¬isBlank value = true) : isBlank value = false :=
  Bool.eq_false_of_not_eq_true h

/-- A character of an identifier; all of them are ASCII, so bytes and characters agree. -/
def isIdChar (c : Char) : Bool :=
  c.isAlphanum || c == '_' || c == '-' || c == '.' || c == ':'

def isValidId (value : String) : Bool := !value.toList.isEmpty && value.toList.all isIdChar

/-- The byte length in hexadecimal, an underscore, and two hexadecimal digits for each byte. -/
def encodeCanonicalComponent (value : String) : String :=
  String.ofList (Nat.toDigits 16 value.utf8ByteSize ++ ['_'] ++
    value.toUTF8.data.toList.flatMap fun byte ↦
      [Nat.digitChar (byte.toNat / 16), Nat.digitChar (byte.toNat % 16)])

theorem isIdChar_digitChar {digit : ℕ} (h : digit < 16) : isIdChar (Nat.digitChar digit) = true :=
  (by decide : ∀ digit < 16, isIdChar (Nat.digitChar digit) = true) digit h

theorem isIdChar_of_mem_toDigits {value : ℕ} {c : Char} (h : c ∈ Nat.toDigits 16 value) :
    isIdChar c = true := by
  induction value using Nat.strongRecOn with
  | ind value ih =>
    rw [Nat.toDigits_eq_if (by decide)] at h
    split at h
    · rename_i hlt
      rw [List.mem_singleton.mp h]
      exact isIdChar_digitChar hlt
    · rename_i hge
      rcases List.mem_append.mp h with h | h
      · exact ih _ (by omega) h
      · rw [List.mem_singleton.mp h]
        exact isIdChar_digitChar (Nat.mod_lt _ (by decide))

theorem isIdChar_of_mem_encodeCanonicalComponent {value : String} {c : Char}
    (h : c ∈ (encodeCanonicalComponent value).toList) : isIdChar c = true := by
  simp only [encodeCanonicalComponent, String.toList_ofList, List.mem_append, List.mem_flatMap,
    List.mem_cons, List.not_mem_nil, or_false] at h
  rcases h with (h | rfl) | ⟨byte, -, rfl | rfl⟩
  · exact isIdChar_of_mem_toDigits h
  · rfl
  · exact isIdChar_digitChar (by have := byte.toNat_lt; omega)
  · exact isIdChar_digitChar (Nat.mod_lt _ (by decide))

/-! ## Scopes and session identifiers -/

/-- A platform and a scope on it, neither of them blank. -/
@[ext]
structure SessionScope where
  platform : String
  scope : String
  platform_nonblank : isBlank platform = false
  scope_nonblank : isBlank scope = false
  deriving Repr

instance : DecidableEq SessionScope := fun _ _ ↦ decidable_of_iff _ SessionScope.ext_iff.symm

def SessionScope.new (platform scope : String) : Except String SessionScope :=
  if hp : isBlank platform then .error "session platform must not be empty"
  else if hs : isBlank scope then .error "session scope must not be empty"
  else .ok ⟨platform, scope, isBlank_eq_false hp, isBlank_eq_false hs⟩

structure SessionId where
  asStr : String
  valid : isValidId asStr = true
  deriving DecidableEq, Repr

namespace SessionId

instance : ToString SessionId := ⟨asStr⟩

theorem asStr_injective : Function.Injective asStr := by
  rintro ⟨left, _⟩ ⟨right, _⟩ h
  simpa using h

/-- The derived order is the order of the UTF-8 bytes, which is that of the code points. -/
instance : LinearOrder SessionId := LinearOrder.lift' asStr asStr_injective

def new (value : String) : Except String SessionId :=
  if h : isValidId value then .ok ⟨value, h⟩ else .error s!"invalid session id `{value}`"

theorem isValidId_forScope (scope : SessionScope) :
    isValidId ("session_v1_" ++ encodeCanonicalComponent scope.platform ++ "_" ++
      encodeCanonicalComponent scope.scope) = true := by
  have hcomponent (value : String) : (encodeCanonicalComponent value).toList.all isIdChar = true :=
    List.all_eq_true.mpr fun c ↦ isIdChar_of_mem_encodeCanonicalComponent
  simp only [isValidId, String.toList_append, List.all_append, hcomponent, Bool.and_true]
  simp
  decide

def forScope (scope : SessionScope) : SessionId :=
  ⟨_, isValidId_forScope scope⟩

end SessionId

/-! ## Session records -/

structure Session where
  id : SessionId
  scope : SessionScope
  createdAtUnix : U64
  updatedAtUnix : U64
  deriving DecidableEq, Repr

namespace Session

/-- A session first seen at `now`. -/
def new (scope : SessionScope) (now : U64) : Session :=
  { id := .forScope scope, scope, createdAtUnix := now, updatedAtUnix := now }

def refreshFrom (session replacement : Session) : Session :=
  { session with updatedAtUnix := max session.updatedAtUnix replacement.updatedAtUnix }

/-- The scope check of the source is the invariant that `SessionScope` carries. -/
def validate (session : Session) : Except String Unit := do
  let expectedId := SessionId.forScope session.scope
  rejectIf (session.id ≠ expectedId)
    s!"session {session.id} does not match derived id {expectedId} for scope"
  rejectIf (session.updatedAtUnix < session.createdAtUnix)
    s!"session {session.id} has updated_at_unix before created_at_unix"

/-- What `validate` accepts. -/
structure Valid (session : Session) : Prop where
  id_eq : session.id = .forScope session.scope
  created_le : session.createdAtUnix ≤ session.updatedAtUnix

theorem validate_eq_ok {session : Session} {u : Unit} : session.validate = .ok u ↔ session.Valid := by
  simp only [validate, except_bind_unit_eq_ok, rejectIf_eq_ok, not_not, not_lt]
  exact ⟨fun h ↦ ⟨h.1, h.2⟩, fun h ↦ ⟨h.1, h.2⟩⟩

theorem valid_new (scope : SessionScope) (now : U64) : (new scope now).Valid := ⟨rfl, le_rfl⟩

@[simp]
theorem refreshFrom_id (session replacement : Session) :
    (session.refreshFrom replacement).id = session.id := rfl

theorem Valid.refreshFrom {session : Session} (h : session.Valid) (replacement : Session) :
    (session.refreshFrom replacement).Valid :=
  ⟨h.id_eq, h.created_le.trans (le_max_left _ _)⟩

end Session

end FerrisBridge
