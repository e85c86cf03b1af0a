import FerrisBridge.Format.Record
import FerrisBridge.Runtime.Identity

/-!
# The access policy

Who may do what in which scope. The policy keeps the scopes that it allows under their session
identifiers, so that a decision is about the identifier of a scope and not about the scope itself.
-/

open Foundations

namespace FerrisBridge

inductive PolicyDecision (R : Type)
  | allowed
  | denied (reason : R)
  deriving DecidableEq, Repr

/-- A platform and a subject on it, neither of them blank. -/
@[ext]
structure AccessPrincipal where
  platform : String
  subject : String
  platform_nonblank : isBlank platform = false
  subject_nonblank : isBlank subject = false
  deriving Repr

instance : DecidableEq AccessPrincipal := fun _ _ ↦ decidable_of_iff _ AccessPrincipal.ext_iff.symm

def AccessPrincipal.new (platform subject : String) : Except String AccessPrincipal :=
  if hp : isBlank platform then .error "access principal platform must not be empty"
  else if hs : isBlank subject then .error "access principal subject must not be empty"
  else .ok ⟨platform, subject, isBlank_eq_false hp, isBlank_eq_false hs⟩

inductive AccessAction
  | invokeAgent
  | administerBridge
  deriving DecidableEq, Repr

inductive AccessDenialReason
  | principalNotAllowed
  | scopeNotAllowed
  | administratorRequired
  deriving DecidableEq, Repr

/-- The constructor checks that every administrator is allowed. -/
structure AccessPolicy where
  allowedPrincipals : Finset AccessPrincipal
  allowedScopes : AList fun _ : SessionId ↦ SessionScope
  administrators : Finset AccessPrincipal
  administrators_subset : administrators ⊆ allowedPrincipals

namespace AccessPolicy

/-- `collect` into a map: a later entry replaces an earlier one with its key. -/
def collectScopes (allowedScopes : List SessionScope) : AList fun _ : SessionId ↦ SessionScope :=
  allowedScopes.foldl (fun scopes scope ↦ scopes.insert (.forScope scope) scope) ∅

def new (allowedPrincipals : List AccessPrincipal) (allowedScopes : List SessionScope)
    (administrators : List AccessPrincipal) : Except String AccessPolicy :=
  if h : administrators.toFinset ⊆ allowedPrincipals.toFinset then
    .ok ⟨allowedPrincipals.toFinset, collectScopes allowedScopes, administrators.toFinset, h⟩
  else .error "every administrator must also be an allowed principal"

def evaluate (self : AccessPolicy) (principal : AccessPrincipal) (scope : SessionScope)
    (action : AccessAction) : PolicyDecision AccessDenialReason :=
  if principal ∉ self.allowedPrincipals then .denied .principalNotAllowed
  else if SessionId.forScope scope ∉ self.allowedScopes then .denied .scopeNotAllowed
  else if action = .administerBridge ∧ principal ∉ self.administrators then
    .denied .administratorRequired
  else .allowed

variable {allowedPrincipals administrators : List AccessPrincipal} {allowedScopes : List SessionScope}
  {policy : AccessPolicy} {principal : AccessPrincipal} {scope : SessionScope}
  {action : AccessAction} {id : SessionId}

theorem new_eq_ok (h : new allowedPrincipals allowedScopes administrators = .ok policy) :
    policy.allowedPrincipals = allowedPrincipals.toFinset ∧
      policy.allowedScopes = collectScopes allowedScopes ∧
      policy.administrators = administrators.toFinset := by
  unfold new at h
  by_cases hsubset : administrators.toFinset ⊆ allowedPrincipals.toFinset
  · rw [dif_pos hsubset] at h
    cases h
    exact ⟨rfl, rfl, rfl⟩
  · rw [dif_neg hsubset] at h
    cases h

theorem exists_new (allowedScopes : List SessionScope) (h : administrators ⊆ allowedPrincipals) :
    ∃ policy, new allowedPrincipals allowedScopes administrators = .ok policy :=
  ⟨_, dif_pos fun _ hmem ↦ List.mem_toFinset.mpr (h (List.mem_toFinset.mp hmem))⟩

/-- The keys of the map are the identifiers of the configured scopes. -/
theorem mem_collectScopes :
    id ∈ collectScopes allowedScopes ↔ ∃ scope ∈ allowedScopes, SessionId.forScope scope = id := by
  have hfold (scopes : AList fun _ : SessionId ↦ SessionScope) :
      id ∈ allowedScopes.foldl (fun scopes scope ↦ scopes.insert (.forScope scope) scope) scopes ↔
        id ∈ scopes ∨ ∃ scope ∈ allowedScopes, SessionId.forScope scope = id := by
    induction allowedScopes generalizing scopes with
    | nil => simp
    | cons scope rest ih =>
      rw [List.foldl_cons, ih, AList.mem_insert, List.exists_mem_cons_iff, eq_comm]
      tauto
  rw [collectScopes, hfold]
  exact or_iff_right (AList.notMem_empty id)

/-- What the policy allows. -/
theorem evaluate_eq_allowed : policy.evaluate principal scope action = .allowed ↔
    principal ∈ policy.allowedPrincipals ∧ SessionId.forScope scope ∈ policy.allowedScopes ∧
      (action = .administerBridge → principal ∈ policy.administrators) := by
  unfold evaluate
  by_cases hprincipal : principal ∈ policy.allowedPrincipals
  · by_cases hscope : SessionId.forScope scope ∈ policy.allowedScopes
    · by_cases hadministrator : action = .administerBridge ∧ principal ∉ policy.administrators
      · simp [hprincipal, hscope, hadministrator]
      · simp only [hprincipal, hscope, hadministrator, not_true_eq_false, if_false, true_iff, true_and]
        exact fun haction ↦ by_contra fun h ↦ hadministrator ⟨haction, h⟩
    · simp [hprincipal, hscope]
  · simp [hprincipal]

/-- A policy allows the scopes it is configured with, and no others. -/
theorem evaluate_eq_allowed_iff
    (h : new allowedPrincipals allowedScopes administrators = .ok policy) :
    policy.evaluate principal scope action = .allowed ↔
      principal ∈ allowedPrincipals ∧ scope ∈ allowedScopes ∧
        (action = .administerBridge → principal ∈ administrators) := by
  obtain ⟨hprincipals, hscopes, hadministrators⟩ := new_eq_ok h
  have hscope : SessionId.forScope scope ∈ collectScopes allowedScopes ↔ scope ∈ allowedScopes := by
    rw [mem_collectScopes]
    constructor
    · rintro ⟨scope', hmem, hid⟩
      exact SessionId.forScope_injective hid ▸ hmem
    · exact fun hmem ↦ ⟨scope, hmem, rfl⟩
  rw [evaluate_eq_allowed, hprincipals, hscopes, hadministrators, List.mem_toFinset, hscope,
    List.mem_toFinset]

end AccessPolicy

/-- Canonical identities never collide. For all strings, the text of a session identifier determines
its platform and scope, and the text of the identifier of a platform delivery its three components;
the identifier of every scope is accepted when it is read, also from the state file. So a valid
session id stands for one scope, and a policy allows no scope that it is not configured with. -/
theorem canonical_identities_injective :
    (∀ platform scope platform' scope',
      sessionIdText platform scope = sessionIdText platform' scope' →
        platform = platform' ∧ scope = scope') ∧
    (∀ platform scope deliveryId platform' scope' deliveryId',
      platformDeliveryIdText platform scope deliveryId =
          platformDeliveryIdText platform' scope' deliveryId' →
        platform = platform' ∧ scope = scope' ∧ deliveryId = deliveryId') ∧
    Function.Injective SessionId.forScope ∧
    (∀ platform scope deliveryId platform' scope' deliveryId' id,
      EventId.forPlatformDelivery platform scope deliveryId = .ok id →
      EventId.forPlatformDelivery platform' scope' deliveryId' = .ok id →
        platform = platform' ∧ scope = scope' ∧ deliveryId = deliveryId') ∧
    (∀ scope, (SessionId.forScope scope).asStr = sessionIdText scope.platform scope.scope ∧
      SessionId.new (SessionId.forScope scope).asStr = .ok (.forScope scope) ∧
      SessionId.deserialize (SessionId.forScope scope).serialize = .ok (.forScope scope)) ∧
    (∀ session session' : Session, session.validate = .ok () → session'.validate = .ok () →
      session.id = session'.id → session.scope = session'.scope) ∧
    ∀ allowedPrincipals allowedScopes administrators policy,
      AccessPolicy.new allowedPrincipals allowedScopes administrators = .ok policy →
        ∀ principal scope action, policy.evaluate principal scope action = .allowed →
          scope ∈ allowedScopes := by
  refine ⟨fun _ _ _ _ ↦ sessionIdText_injective, fun _ _ _ _ _ _ ↦ platformDeliveryIdText_injective,
    SessionId.forScope_injective, fun _ _ _ _ _ _ _ ↦ EventId.forPlatformDelivery_injective,
    fun scope ↦ ⟨rfl, SessionId.new_sessionIdText scope, SessionId.deserialize_serialize _⟩,
    fun session session' hvalid hvalid' ↦ ?_, ?_⟩
  · exact Session.scope_eq_of_id_eq (Session.validate_eq_ok.mp hvalid) (Session.validate_eq_ok.mp hvalid')
  · intro _ _ _ _ hnew _ _ _ hallowed
    exact ((AccessPolicy.evaluate_eq_allowed_iff hnew).mp hallowed).2.1

/-- A channel, and the one member that may invoke the agent there. -/
def channel : SessionScope := ⟨"slack", "channel:C1", by decide, by decide⟩

@[inherit_doc channel]
def member : AccessPrincipal := ⟨"slack", "user:U1", by decide, by decide⟩

theorem canonical_identities_injective_channel : ∃ policy,
    AccessPolicy.new [member] [channel] [] = .ok policy ∧
      policy.evaluate member channel .invokeAgent = .allowed ∧ channel ∈ [channel] := by
  obtain ⟨policy, hnew⟩ := AccessPolicy.exists_new [channel] (List.nil_subset [member])
  have hallowed : policy.evaluate member channel .invokeAgent = .allowed :=
    (AccessPolicy.evaluate_eq_allowed_iff hnew).mpr ⟨by simp, by simp, fun h ↦ by cases h⟩
  exact ⟨policy, hnew, hallowed,
    canonical_identities_injective.2.2.2.2.2.2 _ _ _ _ hnew _ _ _ hallowed⟩

end FerrisBridge
