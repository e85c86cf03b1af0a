import FerrisBridge.Format.Text
import FerrisBridge.Foundations.PathText
import FerrisBridge.Foundations.SortedMap

/-!
# The configuration

The configuration of the bridge, its check and its document. Paths are texts. The reader ignores what it
does not know, and a configuration that is written is read back. The paths that the check accepts lead
into the runtime directory and nowhere else.
-/

open Foundations

namespace FerrisBridge

def configVersion : U32 := 1

inductive SecretInput
  | env (name : String)
  | file (path : String)
  deriving DecidableEq, Repr

structure RuntimeConfig where
  stateFile : String
  logFile : String
  deriving DecidableEq, Repr

structure BridgeConfig where
  version : U32
  profile : String
  runtime : RuntimeConfig
  secret : Option SecretInput
  deriving DecidableEq

/-! ## Checks -/

def SecretInput.validate : SecretInput → Except String Unit
  | .env name => rejectIf (isBlank name = true) "secret env name must not be empty"
  | .file path => rejectIf (path = "") "secret file path must not be empty"

def validateRuntimeFilePath (name path : String) : Except String Unit := do
  rejectIf (path = "") s!"runtime {name} must not be empty"
  rejectIf ((PathBuf.ofText path).isAbsolute = true) s!"runtime {name} must be relative"
  rejectIf ((PathBuf.ofText path).components.any (!·.isNormal) = true)
    s!"runtime {name} must stay within the runtime directory"

namespace RuntimeConfig

def validate (self : RuntimeConfig) : Except String Unit := do
  validateRuntimeFilePath "state_file" self.stateFile
  validateRuntimeFilePath "log_file" self.logFile

def default : RuntimeConfig := ⟨"runtime.state.json", "runtime.log"⟩

end RuntimeConfig

namespace BridgeConfig

def new (profile : String) : BridgeConfig := ⟨configVersion, profile, .default, none⟩

def default : BridgeConfig := new "default"

def validate (self : BridgeConfig) : Except String Unit := do
  rejectIf (self.version ≠ configVersion)
    s!"unsupported config version {self.version.toNat}; expected {configVersion.toNat}"
  rejectIf (isBlank self.profile = true) "config profile must not be empty"
  self.runtime.validate
  match self.secret with
  | some secret => secret.validate
  | none => return ()

end BridgeConfig

/-- A path leads from a directory to names below it. -/
def LeadsInto (path : String) : Prop :=
  ∃ names : List String, names ≠ [] ∧ ∀ (tree : FileTree) (home found : List String),
    Direct tree.nodes home → (∀ below target, tree.nodes (home ++ below) ≠ some (.link target)) →
    tree.resolve ((PathBuf.ofNames home).join (.ofText path)) = some found → found = home ++ names

theorem leadsInto_of_validate {name path : String} (h : validateRuntimeFilePath name path = .ok ()) :
    LeadsInto path := by
  simp only [validateRuntimeFilePath, except_bind_unit_eq_ok, rejectIf_eq_ok] at h
  obtain ⟨hempty, -, hnormal⟩ := h
  have hall : (PathBuf.ofText path).components.all PathBuf.Component.isNormal = true := by
    rw [List.any_eq_true] at hnormal
    push Not at hnormal
    rw [List.all_eq_true]
    intro component hcomponent
    simpa using hnormal component hcomponent
  obtain ⟨hstart, names, hparts⟩ := PathBuf.all_isNormal_iff.mp hall
  refine ⟨names, ?_, fun tree home found hhome hlinks hfound ↦ ?_⟩
  · rintro rfl
    exact PathBuf.parts_ofText_ne_nil hempty hstart hparts
  · exact PathBuf.resolve_join_names hhome hlinks hstart hparts hfound

theorem BridgeConfig.leadsInto_of_validate {config : BridgeConfig} (h : config.validate = .ok ()) :
    LeadsInto config.runtime.stateFile ∧ LeadsInto config.runtime.logFile := by
  simp only [validate, RuntimeConfig.validate, except_bind_unit_eq_ok] at h
  obtain ⟨-, -, ⟨hstate, hlog⟩, -⟩ := h
  exact ⟨FerrisBridge.leadsInto_of_validate hstate, FerrisBridge.leadsInto_of_validate hlog⟩

/-! ## The document -/

namespace SecretInput

def serialize : SecretInput → Json
  | .env name => .object [("source", .string "env"), ("name", .string name)]
  | .file path => .object [("source", .string "file"), ("path", .string path)]

/-- The tag chooses the fields of the variant. -/
def deserialize (document : Json) : Except String SecretInput := do
  let (variant, content) ← document.asTagged "source"
  if variant = "env" then
    let fields ← content.asOpenStruct ["name"]
    return .env (← fields.required "name" Json.asString)
  else if variant = "file" then
    let fields ← content.asOpenStruct ["path"]
    return .file (← fields.required "path" Json.asString)
  else throw s!"unknown variant {variant}"

theorem deserialize_serialize (secret : SecretInput) : deserialize secret.serialize = .ok secret := by
  cases secret <;> rfl

end SecretInput

namespace RuntimeConfig

def serialize (config : RuntimeConfig) : Json :=
  .object [("state_file", .string config.stateFile), ("log_file", .string config.logFile)]

def deserialize (document : Json) : Except String RuntimeConfig := do
  let fields ← document.asOpenStruct ["state_file", "log_file"]
  let stateFile ← fields.required "state_file" Json.asString
  let logFile ← fields.required "log_file" Json.asString
  return { stateFile, logFile }

theorem deserialize_serialize (config : RuntimeConfig) : deserialize config.serialize = .ok config := by
  rw [deserialize, serialize, Json.asOpenStruct_object]
  · rfl
  · rfl
  · decide

end RuntimeConfig

namespace BridgeConfig

def serialize (config : BridgeConfig) : Json :=
  .object [
    ("version", .ofWord config.version),
    ("profile", .string config.profile),
    ("runtime", config.runtime.serialize),
    ("secret", .ofOption SecretInput.serialize config.secret)]

def deserialize (document : Json) : Except String BridgeConfig := do
  let fields ← document.asOpenStruct ["version", "profile", "runtime", "secret"]
  let version ← fields.required "version" Json.asWord
  let profile ← fields.required "profile" Json.asString
  let runtime ← fields.required "runtime" RuntimeConfig.deserialize
  let secret ← fields.optional "secret" SecretInput.deserialize
  return { version, profile, runtime, secret }

theorem deserialize_serialize (config : BridgeConfig) : deserialize config.serialize = .ok config := by
  have hsecret := Json.asOption_ofOption (fun secret h ↦ by cases secret <;> cases h)
    SecretInput.deserialize_serialize config.secret
  rw [deserialize, serialize, Json.asOpenStruct_object]
  · simp only [except_bind_eq_ok, Json.Fields.required_eq_ok, except_pure_eq_ok]
    exact ⟨_, rfl, _, ⟨_, rfl, Json.asWord_ofWord _⟩, _, ⟨_, rfl, rfl⟩,
      _, ⟨_, rfl, config.runtime.deserialize_serialize⟩, _, hsecret, rfl⟩
  · rfl
  · decide

theorem printable_serialize (config : BridgeConfig) : config.serialize.Printable := by
  have hsecret (secret : SecretInput) : secret.serialize.Printable := by
    cases secret <;> simp [SecretInput.serialize]
  simp [serialize, RuntimeConfig.serialize, hsecret]

end BridgeConfig

end FerrisBridge
