import FerrisBridge.Daemon.Lifecycle

/-!
# Exclusion by the lifecycle lock

Whoever recovers a lock checks the file and then removes whatever is at the path. When every removal
finds the file that was seen last, at most one live process has a guard; a run in which two waiters
recover the same lock shows that the code does not see to it.
-/

open Foundations

namespace FerrisBridge

/-! ## Conditions on a run -/

namespace LockDirectory

/-- The process has created the lock file of the token, and has not dropped it. -/
def Keeps (directory : LockDirectory) (pid : U32) (token : String) : Prop :=
  directory.stage pid = .creating token ∨ directory.stage pid = .guarding token

instance (directory : LockDirectory) (pid : U32) (token : String) :
    Decidable (directory.Keeps pid token) := inferInstanceAs (Decidable (_ ∨ _))

/-- No live process keeps the lock past the time after which it counts as stale. -/
def Prompt (directory : LockDirectory) : Prop :=
  ∀ file ∈ directory.file, directory.alive file.pid = true → directory.Keeps file.pid file.token →
    directory.clock ≤ file.modified + lifecycleLockStaleTtl

instance (directory : LockDirectory) : Decidable directory.Prompt :=
  inferInstanceAs (Decidable (∀ file ∈ directory.file, _))

/-- At most one live process has a guard. -/
def AtMostOneGuard (directory : LockDirectory) : Prop :=
  ∀ pid other token token', directory.alive pid = true → directory.alive other = true →
    directory.stage pid = .guarding token → directory.stage other = .guarding token' → pid = other

end LockDirectory

/-- The assumptions on every operation: live processes are prompt, and tokens are unique. -/
def lockAssumptions : Machine.Condition U32 LockDirectory LockOp LockOutcome LockEvent where
  operation directory pid op outcome :=
    directory.Prompt ∧ (op = .createNew → generateToken pid outcome.nanos ∉ directory.tokens)
  event _ _ := True

instance (directory : LockDirectory) (pid : U32) (op : LockOp) (outcome : LockOutcome) :
    Decidable (lockAssumptions.operation directory pid op outcome) :=
  inferInstanceAs (Decidable (_ ∧ _))

instance (directory : LockDirectory) (event : LockEvent) :
    Decidable (lockAssumptions.event directory event) := inferInstanceAs (Decidable True)

/-- A process that removes the lock file finds the file that it has created or seen last, or none. -/
def removesWhatItSaw : Machine.Condition U32 LockDirectory LockOp LockOutcome LockEvent where
  operation directory pid op _ :=
    op = .removeFile → ∀ file ∈ directory.file, directory.seen pid = some file.token
  event _ _ := True

instance (directory : LockDirectory) (pid : U32) (op : LockOp) (outcome : LockOutcome) :
    Decidable (removesWhatItSaw.operation directory pid op outcome) :=
  inferInstanceAs (Decidable (op = .removeFile → ∀ file ∈ directory.file, _))

instance (directory : LockDirectory) (event : LockEvent) :
    Decidable (removesWhatItSaw.event directory event) := inferInstanceAs (Decidable True)

/-! ## The protocol -/

namespace LockDirectory

/-- The lock file of a live process that keeps it is at the path. -/
structure Inv (directory : LockDirectory) : Prop where
  kept : ∀ pid token, directory.alive pid = true → directory.Keeps pid token →
    ∃ file, directory.file = some file ∧ file.token = token ∧ file.pid = pid
  issued : ∀ file ∈ directory.file, file.token ∈ directory.tokens

/-- What the others may do to a process between its operations. -/
structure Other (pid : U32) (before after : LockDirectory) : Prop where
  stage : after.stage pid = before.stage pid
  seen : after.seen pid = before.seen pid
  alive : ∀ other, after.alive other = true → before.alive other = true
  clock : before.clock ≤ after.clock
  tokens : before.tokens ⊆ after.tokens
  fresh : ∀ other token, after.alive other = true → after.Keeps other token →
    before.Keeps other token ∨ token ∉ before.tokens

theorem Other.refl (pid : U32) (directory : LockDirectory) : Other pid directory directory where
  stage := rfl
  seen := rfl
  alive _ h := h
  clock := le_rfl
  tokens := List.Subset.refl _
  fresh _ _ _ h := .inl h

theorem Other.trans (pid : U32) (a b c : LockDirectory) (hab : Other pid a b) (hbc : Other pid b c) :
    Other pid a c where
  stage := hbc.stage.trans hab.stage
  seen := hbc.seen.trans hab.seen
  alive other h := hab.alive other (hbc.alive other h)
  clock := hab.clock.trans hbc.clock
  tokens := List.Subset.trans hab.tokens hbc.tokens
  fresh other token halive hkeeps := by
    rcases hbc.fresh other token halive hkeeps with h | h
    · exact hab.fresh other token (hbc.alive other halive) h
    · exact .inr fun hmem ↦ h (hab.tokens hmem)

theorem occur_keeps (directory : LockDirectory) (event : LockEvent) (h : directory.Inv) :
    (occur event directory).Inv ∧ ∀ pid, Other pid directory (occur event directory) := by
  cases event with
  | tick elapsed =>
    exact ⟨⟨h.kept, h.issued⟩, fun pid ↦ ⟨rfl, rfl, fun _ h ↦ h, Nat.le_add_right _ _,
      List.Subset.refl _, fun _ _ _ h ↦ .inl h⟩⟩
  | die pid =>
    have halive (other : U32) (hother : Function.update directory.alive pid false other = true) :
        directory.alive other = true := by
      by_cases heq : other = pid
      · subst heq
        rw [Function.update_self] at hother
        cases hother
      · rwa [Function.update_of_ne heq] at hother
    exact ⟨⟨fun other token hother ↦ h.kept other token (halive other hother), h.issued⟩,
      fun _ ↦ ⟨rfl, rfl, halive, le_rfl, List.Subset.refl _, fun _ _ _ h ↦ .inl h⟩⟩

end LockDirectory

/-- The assumptions, the condition on removals, and what processes rely on. -/
def lockProtocol : Protocol lockMachine where
  condition :=
    { operation := fun directory pid op outcome ↦
        lockAssumptions.operation directory pid op outcome ∧
          removesWhatItSaw.operation directory pid op outcome
      event := fun _ _ ↦ True }
  inv := LockDirectory.Inv
  other := LockDirectory.Other
  other_refl := LockDirectory.Other.refl
  other_trans := LockDirectory.Other.trans
  event_keeps directory event h _ := directory.occur_keeps event h

namespace LockDirectory

variable {directory : LockDirectory} {pid : U32}

/-! ### What a process guarantees -/

theorem keeps_look (h : directory.Inv) :
    lockProtocol.Keeps pid directory (directory.look pid) where
  inv := ⟨h.kept, h.issued⟩
  others _ hother :=
    { stage := rfl
      seen := Function.update_of_ne hother _ _
      alive := fun _ h ↦ h
      clock := le_rfl
      tokens := List.Subset.refl _
      fresh := fun _ _ _ h ↦ .inl h }

theorem keeps_write (h : directory.Inv) (token : String) (written : LockFile → ℕ) :
    lockProtocol.Keeps pid directory (directory.write token written) where
  inv :=
    { kept := by
        intro other kept halive hkeeps
        obtain ⟨file, hfile, htoken, hpid⟩ := h.kept other kept halive hkeeps
        simp only [write, hfile, Option.map_some]
        split_ifs
        · exact ⟨_, rfl, htoken, hpid⟩
        · exact ⟨file, rfl, htoken, hpid⟩
      issued := by
        intro file hfile
        obtain ⟨file, hbefore, rfl⟩ := Option.map_eq_some_iff.mp hfile
        split_ifs
        · exact h.issued file hbefore
        · exact h.issued file hbefore }
  others _ _ := ⟨rfl, rfl, fun _ h ↦ h, le_rfl, List.Subset.refl _, fun _ _ _ h ↦ .inl h⟩

theorem keeps_setStage_of_ne {stage : LockStage} {other : U32} {token : String} (hother : other ≠ pid) :
    (directory.setStage pid stage).Keeps other token ↔ directory.Keeps other token := by
  simp only [Keeps, setStage, Function.update_of_ne hother]

/-- A process only goes on with a lock that it keeps already. -/
theorem keeps_setStage (h : directory.Inv) {stage : LockStage}
    (hstage : ∀ token, stage = .creating token ∨ stage = .guarding token → directory.Keeps pid token) :
    lockProtocol.Keeps pid directory (directory.setStage pid stage) := by
  have hkeeps (other : U32) (token : String) (hafter : (directory.setStage pid stage).Keeps other token) :
      directory.Keeps other token := by
    by_cases hother : other = pid
    · subst hother
      apply hstage
      simpa only [Keeps, setStage, Function.update_self] using hafter
    · exact (keeps_setStage_of_ne hother).mp hafter
  exact
    { inv := ⟨fun other token halive hafter ↦ h.kept other token halive (hkeeps other token hafter), h.issued⟩
      others := fun other hother ↦
        { stage := Function.update_of_ne hother _ _
          seen := rfl
          alive := fun _ h ↦ h
          clock := le_rfl
          tokens := List.Subset.refl _
          fresh := fun other token _ hafter ↦ .inl (hkeeps other token hafter) } }

theorem keeps_create (h : directory.Inv) {outcome : LockOutcome} (hfile : directory.file = none)
    (hfresh : generateToken pid outcome.nanos ∉ directory.tokens) :
    lockProtocol.Keeps pid directory (directory.create pid outcome) := by
  have hkeeps (other : U32) (token : String) (hafter : (directory.create pid outcome).Keeps other token) :
      directory.Keeps other token ∨ other = pid ∧ token = generateToken pid outcome.nanos := by
    by_cases hother : other = pid
    · subst hother
      simp only [Keeps, create, Function.update_self, LockStage.creating.injEq, reduceCtorEq,
        or_false] at hafter
      exact .inr ⟨rfl, hafter.symm⟩
    · simp only [Keeps, create, Function.update_of_ne hother] at hafter
      exact .inl hafter
  exact
    { inv :=
        { kept := by
            intro other token halive hafter
            obtain hbefore | ⟨rfl, rfl⟩ := hkeeps other token hafter
            · -- a lock file that a live process keeps would still be at the path
              obtain ⟨file, hsome, _⟩ := h.kept other token halive hbefore
              rw [hfile] at hsome
              cases hsome
            · exact ⟨_, rfl, rfl, rfl⟩
          issued := by
            intro file hmem
            obtain rfl := Option.some.inj hmem
            exact List.mem_cons_self }
      others := fun other hother ↦
        { stage := Function.update_of_ne hother _ _
          seen := Function.update_of_ne hother _ _
          alive := fun _ h ↦ h
          clock := le_rfl
          tokens := List.subset_cons_self _ _
          fresh := by
            intro other token _ hafter
            obtain hbefore | ⟨rfl, rfl⟩ := hkeeps other token hafter
            · exact .inl hbefore
            · exact .inr hfresh } }

/-- The file that is removed is kept by no other live process. -/
theorem keeps_remove (h : directory.Inv)
    (hfile : ∀ file ∈ directory.file, ∀ other, directory.alive other = true →
      directory.Keeps other file.token → other = pid) :
    lockProtocol.Keeps pid directory { directory.setStage pid .idle with file := none } := by
  have hidle : lockProtocol.Keeps pid directory (directory.setStage pid .idle) :=
    keeps_setStage h (by simp)
  exact
    { inv :=
        { kept := by
            intro other token halive hafter
            have hother : other ≠ pid := by
              rintro rfl
              simp [Keeps, setStage] at hafter
            have hbefore := (keeps_setStage_of_ne hother).mp hafter
            obtain ⟨file, hsome, rfl, -⟩ := h.kept other token halive hbefore
            exact absurd (hfile file hsome other halive hbefore) hother
          issued := by
            intro file hmem
            cases hmem }
      others := fun other hother ↦
        { stage := (hidle.others other hother).stage
          seen := rfl
          alive := fun _ h ↦ h
          clock := le_rfl
          tokens := List.Subset.refl _
          fresh := (hidle.others other hother).fresh } }

end LockDirectory

/-! ## The programs -/

namespace LockDirectory

/-- No live process keeps the lock of the token, and none will. -/
def Gone (token : String) (directory : LockDirectory) : Prop :=
  token ∈ directory.tokens ∧
    ∀ other, directory.alive other = true → ¬directory.Keeps other token

/-- Only the process may keep the lock of the token. -/
def Attributed (owner : U32) (token : String) (directory : LockDirectory) : Prop :=
  token ∈ directory.tokens ∧
    ∀ other, directory.alive other = true → directory.Keeps other token → other = owner

/-- The file was last written longer ago than a live process keeps its lock. -/
def Old (snapshot : FileSnapshot) (directory : LockDirectory) : Prop :=
  snapshot.modified + lifecycleLockStaleTtl < directory.clock

def At (pid : U32) (stage : LockStage) (directory : LockDirectory) : Prop :=
  directory.stage pid = stage

/-- The lock that the process has seen last. -/
def Saw (pid : U32) (token : String) (directory : LockDirectory) : Prop :=
  directory.seen pid = some token

theorem Attributed.gone {owner : U32} {token : String} {directory : LockDirectory}
    (h : directory.Attributed owner token) (hdead : directory.alive owner = false) :
    directory.Gone token := by
  refine ⟨h.1, fun other halive hkeeps ↦ ?_⟩
  rw [h.2 other halive hkeeps, hdead] at halive
  cases halive

end LockDirectory

open LockDirectory

/-- What neither the others nor a look of the process itself at the lock file destroys. -/
structure Lasting (pid : U32) (fact : LockDirectory → Prop) : Prop where
  stable : lockProtocol.Stable pid fact
  look : ∀ directory, fact directory → fact (directory.look pid)

namespace Lasting

variable {pid : U32} {fact fact' : LockDirectory → Prop}

theorem and (h : Lasting pid fact) (h' : Lasting pid fact') :
    Lasting pid fun directory ↦ fact directory ∧ fact' directory :=
  ⟨h.stable.and h'.stable, fun directory hboth ↦ ⟨h.look directory hboth.1, h'.look directory hboth.2⟩⟩

theorem stage (pid : U32) (stage : LockStage) : Lasting pid (At pid stage) :=
  ⟨fun _ _ h hother _ ↦ hother.stage.trans h, fun _ h ↦ h⟩

theorem gone (pid : U32) (token : String) : Lasting pid (Gone token) := by
  refine ⟨?_, fun _ h ↦ h⟩
  rintro before after ⟨hissued, hgone⟩ hother _
  refine ⟨hother.tokens hissued, fun other halive hkeeps ↦ ?_⟩
  rcases hother.fresh other token halive hkeeps with hbefore | hnew
  · exact hgone other (hother.alive other halive) hbefore
  · exact hnew hissued

theorem attributed (pid owner : U32) (token : String) : Lasting pid (Attributed owner token) := by
  refine ⟨?_, fun _ h ↦ h⟩
  rintro before after ⟨hissued, howner⟩ hother _
  refine ⟨hother.tokens hissued, fun other halive hkeeps ↦ ?_⟩
  rcases hother.fresh other token halive hkeeps with hbefore | hnew
  · exact howner other (hother.alive other halive) hbefore
  · exact absurd hissued hnew

theorem old (pid : U32) (snapshot : FileSnapshot) : Lasting pid (Old snapshot) :=
  ⟨fun _ _ h hother _ ↦ lt_of_lt_of_le h hother.clock, fun _ h ↦ h⟩

theorem dead (pid owner : U32) : Lasting pid fun directory ↦ directory.alive owner = false := by
  refine ⟨fun before after h hother _ ↦ ?_, fun _ h ↦ h⟩
  cases halive : after.alive owner with
  | false => rfl
  | true =>
    rw [hother.alive owner halive] at h
    cases h

theorem implies {condition : Prop} (h : condition → Lasting pid fact) :
    Lasting pid fun directory ↦ condition → fact directory :=
  ⟨fun before after hfact hother hrunning hc ↦ (h hc).stable before after (hfact hc) hother hrunning,
    fun directory hfact hc ↦ (h hc).look directory (hfact hc)⟩

end Lasting

theorem stable_saw (pid : U32) (token : String) : lockProtocol.Stable pid (Saw pid token) :=
  fun _ _ h hother _ ↦ hother.seen.trans h

section Operations

variable {pid : U32} {fact : LockDirectory → Prop}

/-- An operation that asks for something else than the lock file. -/
theorem triple_query (op : LockOp) (hstable : lockProtocol.Stable pid fact)
    (hstate : ∀ outcome (directory : LockDirectory), (directory.exec pid op outcome).2 = directory) :
    lockProtocol.Triple pid fact op.run fun _ ↦ fact :=
  Protocol.Triple.read hstable hstate fun _ _ _ _ hfact _ ↦ hfact

theorem triple_countRounds (hstable : lockProtocol.Stable pid fact) :
    lockProtocol.Triple pid fact countRounds fun _ ↦ fact :=
  triple_query .countRounds hstable fun _ _ ↦ rfl

theorem triple_isProcessRunning (other : U32) (hstable : lockProtocol.Stable pid fact) :
    lockProtocol.Triple pid fact (isProcessRunning other) fun running directory ↦
      fact directory ∧ (running = false → directory.alive other = false) :=
  Protocol.Triple.read hstable (fun _ _ ↦ rfl) fun _ _ _ _ hfact _ ↦ ⟨hfact, fun h ↦ h⟩

theorem triple_isStale (snapshot : FileSnapshot) (hstable : lockProtocol.Stable pid fact) :
    lockProtocol.Triple pid fact snapshot.isStale fun stale directory ↦
      fact directory ∧ (stale = true → directory.Old snapshot) := by
  have hnow : lockProtocol.Triple pid fact LockOp.now.run fun (now : ℕ) directory ↦
      fact directory ∧ now = directory.clock :=
    Protocol.Triple.read hstable (fun _ _ ↦ rfl) fun _ _ _ _ hfact _ ↦ ⟨hfact, rfl⟩
  apply hnow.andThen
  intro now
  apply Protocol.Triple.pure
  rintro directory ⟨hfact, rfl⟩
  exact ⟨hfact, of_decide_eq_true⟩

/-- A file at the path is kept by its creator only. -/
theorem LockDirectory.Inv.attributed {directory : LockDirectory} {file : LockFile}
    (hinv : directory.Inv) (hfile : directory.file = some file) :
    directory.Attributed file.pid file.token := by
  refine ⟨hinv.issued file hfile, fun other halive hkeeps ↦ ?_⟩
  obtain ⟨kept, hkept, -, hpid⟩ := hinv.kept other file.token halive hkeeps
  rw [← hpid, Option.some.inj (hfile.symm.trans hkept)]

/-- A file that is older than live processes keep one is kept by none. -/
theorem LockDirectory.Inv.gone_of_old {directory : LockDirectory} {file : LockFile}
    (hinv : directory.Inv) (hprompt : directory.Prompt) (hfile : directory.file = some file)
    (hold : directory.Old file.snapshot) : directory.Gone file.token := by
  refine ⟨hinv.issued file hfile, fun other halive hkeeps ↦ ?_⟩
  obtain rfl := (hinv.attributed hfile).2 other halive hkeeps
  exact absurd (hprompt file hfile halive hkeeps) (not_le_of_gt hold)

theorem triple_fromPath (h : Lasting pid fact) :
    lockProtocol.Triple pid fact FileSnapshot.fromPath fun result directory ↦
      fact directory ∧ ∀ snapshot, result = .ok (some snapshot) →
        ∃ token, directory.Saw pid token ∧ (directory.Old snapshot → directory.Gone token) := by
  apply Protocol.Triple.perform h.stable
  intro directory outcome hinv _ hfact hcondition
  cases hrefused : outcome.refused with
  | true =>
    simp only [lockMachine, exec, hrefused, if_true]
    exact ⟨.refl hinv, hfact, fun _ hresult ↦ by cases hresult⟩
  | false =>
    simp only [lockMachine, exec, hrefused, Bool.false_eq_true, if_false]
    refine ⟨keeps_look hinv, h.look directory hfact, fun snapshot hresult ↦ ?_⟩
    obtain ⟨file, hfile, rfl⟩ := Option.map_eq_some_iff.mp (Except.ok.inj hresult)
    refine ⟨file.token, ?_, hinv.gone_of_old hcondition.1.1 hfile⟩
    simp only [Saw, look, Function.update_self, hfile, Option.map_some]

theorem triple_readLifecycleLock (h : Lasting pid fact) :
    lockProtocol.Triple pid fact readLifecycleLock fun result directory ↦
      fact directory ∧ ∀ record, result = .ok (some (.complete record)) →
        directory.Saw pid record.token ∧ directory.Attributed record.pid record.token := by
  have hread : lockProtocol.Triple pid fact LockOp.read.run fun result directory ↦
      fact directory ∧ ∀ text, result = .ok (some text) → ∃ file : LockFile, text = file.text ∧
        directory.Saw pid file.token ∧ directory.Attributed file.pid file.token := by
    apply Protocol.Triple.perform h.stable
    intro directory outcome hinv _ hfact _
    cases hrefused : outcome.refused with
    | true =>
      simp only [lockMachine, exec, hrefused, if_true]
      exact ⟨.refl hinv, hfact, fun _ hresult ↦ by cases hresult⟩
    | false =>
      simp only [lockMachine, exec, hrefused, Bool.false_eq_true, if_false]
      refine ⟨keeps_look hinv, h.look directory hfact, fun text hresult ↦ ?_⟩
      obtain ⟨file, hfile, rfl⟩ := Option.map_eq_some_iff.mp (Except.ok.inj hresult)
      refine ⟨file, rfl, ?_, hinv.attributed hfile⟩
      simp only [Saw, look, Function.update_self, hfile, Option.map_some]
  apply hread.andThen
  intro result
  cases result with
  | error err => exact Protocol.Triple.pure fun _ hpost ↦ ⟨hpost.1, fun _ hresult ↦ by cases hresult⟩
  | ok content =>
    apply Protocol.Triple.pure
    rintro directory ⟨hfact, htext⟩
    refine ⟨hfact, fun record hresult ↦ ?_⟩
    obtain ⟨text, rfl, hparse⟩ := Option.map_eq_some_iff.mp (Except.ok.inj hresult)
    obtain ⟨file, rfl, hsaw, hattributed⟩ := htext text rfl
    obtain ⟨hpid, htoken⟩ := eq_of_torn_complete (singleLine_generateToken _ _) hparse
    rw [hpid, htoken]
    exact ⟨hsaw, hattributed⟩

/-- Whoever removes the lock that it has seen last keeps it itself, or nobody does. -/
theorem triple_removeFileIfExists (token : String) :
    lockProtocol.Triple pid
      (fun directory ↦ directory.Saw pid token ∧ (directory.Gone token ∨ directory.Keeps pid token))
      removeFileIfExists fun _ ↦ At pid .idle := by
  have hstable : lockProtocol.Stable pid fun directory ↦
      directory.Saw pid token ∧ (directory.Gone token ∨ directory.Keeps pid token) := by
    apply (stable_saw pid token).and
    rintro before after (hgone | hkeeps) hother hrunning
    · exact .inl ((Lasting.gone pid token).stable before after hgone hother hrunning)
    · refine .inr ?_
      rw [Keeps, hother.stage]
      exact hkeeps
  have hremove : lockProtocol.Triple pid
      (fun directory ↦ directory.Saw pid token ∧ (directory.Gone token ∨ directory.Keeps pid token))
      LockOp.removeFile.run fun _ ↦ At pid .idle := by
    apply Protocol.Triple.perform hstable
    rintro directory outcome hinv hrunning ⟨hsaw, hremovable⟩ ⟨-, hsees⟩
    have hidle (other : LockDirectory) : At pid .idle (other.setStage pid .idle) :=
      Function.update_self _ _ _
    cases hrefused : outcome.refused with
    | true =>
      simp only [lockMachine, exec, hrefused, if_true]
      exact ⟨keeps_setStage hinv (by simp), hidle directory⟩
    | false =>
      simp only [lockMachine, exec, hrefused, Bool.false_eq_true, if_false]
      refine ⟨keeps_remove hinv fun file hfile other halive hkeeps ↦ ?_, hidle directory⟩
      obtain rfl := Option.some.inj (hsaw.symm.trans (hsees rfl file hfile))
      rcases hremovable with hgone | hmine
      · exact absurd hkeeps (hgone.2 other halive)
      · rw [(hinv.attributed hfile).2 other halive hkeeps,
          (hinv.attributed hfile).2 pid hrunning hmine]
  apply hremove.andThen
  intro removed
  exact Protocol.Triple.pure fun _ h ↦ h

end Operations

section Recovery

variable {pid : U32} {fact : LockDirectory → Prop}

theorem triple_isSomeProcessRunning (other : Option U32) (hstable : lockProtocol.Stable pid fact) :
    lockProtocol.Triple pid fact (isSomeProcessRunning other) fun _ ↦ fact := by
  cases other with
  | none => exact Protocol.Triple.pure fun _ h ↦ h
  | some other => exact (triple_isProcessRunning other hstable).imp_post fun _ _ h ↦ h.1

theorem triple_matchesPath (expected : FileSnapshot) (h : Lasting pid fact) :
    lockProtocol.Triple pid fact expected.matchesPath fun result directory ↦
      fact directory ∧ (result = .ok true →
        ∃ token, directory.Saw pid token ∧ (directory.Old expected → directory.Gone token)) := by
  apply (triple_fromPath h).andThen
  intro result
  cases result with
  | error err => exact Protocol.Triple.pure fun _ hpost ↦ ⟨hpost.1, fun hresult ↦ by cases hresult⟩
  | ok current =>
    apply Protocol.Triple.pure
    rintro directory ⟨hfact, hsnapshot⟩
    refine ⟨hfact, fun hresult ↦ hsnapshot expected ?_⟩
    rw [of_decide_eq_true (Except.ok.inj hresult)]

/-- The lock of a dead process is seen to be gone, and an incomplete one to be old. -/
theorem triple_inspectStaleLifecycleLock (h : Lasting pid fact) :
    lockProtocol.Triple pid fact inspectStaleLifecycleLock fun stale directory ↦
      fact directory ∧ (∀ token, stale = .owned token → directory.Gone token) ∧
        ∀ snapshot, stale = .incomplete snapshot → directory.Old snapshot := by
  have hnotStale : lockProtocol.Triple pid fact (pure StaleLifecycleLock.notStale) fun stale directory ↦
      fact directory ∧ (∀ token, stale = .owned token → directory.Gone token) ∧
        ∀ snapshot, stale = .incomplete snapshot → directory.Old snapshot := by
    apply Protocol.Triple.pure
    intro directory hfact
    refine ⟨hfact, fun token hstale ↦ ?_, fun snapshot hstale ↦ ?_⟩
    · cases hstale
    · cases hstale
  have hincomplete (snapshot : FileSnapshot) : lockProtocol.Triple pid
      (fun directory ↦ fact directory ∧ directory.Old snapshot)
      (pure (StaleLifecycleLock.incomplete snapshot)) fun stale directory ↦
        fact directory ∧ (∀ token, stale = .owned token → directory.Gone token) ∧
          ∀ snapshot, stale = .incomplete snapshot → directory.Old snapshot := by
    apply Protocol.Triple.pure
    rintro directory ⟨hfact, hold⟩
    refine ⟨hfact, fun token hstale ↦ ?_, fun other hstale ↦ ?_⟩
    · cases hstale
    · rwa [← StaleLifecycleLock.incomplete.inj hstale]
  apply (triple_fromPath h).andThen
  intro result
  cases result with
  | error err => exact hnotStale.imp_pre fun _ hpre ↦ hpre.1
  | ok current =>
    cases current with
    | none => exact hnotStale.imp_pre fun _ hpre ↦ hpre.1
    | some snapshot =>
      apply ((triple_isStale snapshot h.stable).imp_pre fun _ hpre ↦ hpre.1).andThen
      intro stale
      cases stale with
      | false => exact hnotStale.imp_pre fun _ hpre ↦ hpre.1
      | true =>
        have hlasting := h.and (Lasting.old pid snapshot)
        apply ((triple_readLifecycleLock hlasting).imp_pre fun _ hpre ↦ ⟨hpre.1, hpre.2 rfl⟩).andThen
        intro content
        cases content with
        | error err => exact (hincomplete snapshot).imp_pre fun _ hpre ↦ hpre.1
        | ok content =>
          cases content with
          | none => exact (hincomplete snapshot).imp_pre fun _ hpre ↦ hpre.1
          | some content =>
            cases content with
            | complete record =>
              have howned := h.and (Lasting.attributed pid record.pid record.token)
              apply ((triple_isProcessRunning record.pid howned.stable).imp_pre
                fun _ hpre ↦ ⟨hpre.1.1, (hpre.2 record rfl).2⟩).andThen
              intro running
              cases running with
              | true => exact hnotStale.imp_pre fun _ hpre ↦ hpre.1.1
              | false =>
                apply Protocol.Triple.pure
                rintro directory ⟨⟨hfact, hattributed⟩, hdead⟩
                refine ⟨hfact, fun token hstale ↦ ?_, fun snapshot hstale ↦ ?_⟩
                · rw [← StaleLifecycleLock.owned.inj hstale]
                  exact hattributed.gone (hdead rfl)
                · cases hstale
            | incomplete owner =>
              apply ((triple_isSomeProcessRunning owner hlasting.stable).imp_pre
                fun _ hpre ↦ hpre.1).andThen
              intro running
              cases running with
              | true => exact hnotStale.imp_pre fun _ hpre ↦ hpre.1
              | false => exact hincomplete snapshot

/-- A lock is removed by its token when it is gone, or by the process that keeps it. -/
theorem triple_removeLifecycleLockIfMatches {stage : LockStage} (token : String)
    (hremovable : stage = .guarding token ∨ stage = .idle) :
    lockProtocol.Triple pid
      (fun directory ↦ directory.At pid stage ∧ (stage = .idle → directory.Gone token))
      (removeLifecycleLockIfMatches token)
      fun _ directory ↦ directory.At pid stage ∨ directory.At pid .idle := by
  have hlasting : Lasting pid fun directory ↦
      directory.At pid stage ∧ (stage = .idle → directory.Gone token) :=
    (Lasting.stage pid stage).and (Lasting.implies fun _ ↦ Lasting.gone pid token)
  apply (triple_readLifecycleLock hlasting).andThen
  intro content
  have hkept (result : Except LockError Bool) : lockProtocol.Triple pid
      (fun directory ↦ (directory.At pid stage ∧ (stage = .idle → directory.Gone token)) ∧
        ∀ record, content = .ok (some (.complete record)) →
          directory.Saw pid record.token ∧ directory.Attributed record.pid record.token)
      (pure result) fun _ directory ↦ directory.At pid stage ∨ directory.At pid .idle :=
    Protocol.Triple.pure fun _ hpre ↦ .inl hpre.1.1
  cases content with
  | error err => exact hkept _
  | ok content =>
    cases content with
    | none => exact hkept _
    | some content =>
      cases content with
      | incomplete owner => exact hkept _
      | complete record =>
        by_cases htoken : record.token = token
        · simp only [if_pos htoken]
          refine (triple_removeFileIfExists token).imp ?_ fun _ _ hidle ↦ .inr hidle
          rintro directory ⟨⟨hstage, hgone⟩, hrecord⟩
          refine ⟨htoken ▸ (hrecord record rfl).1, ?_⟩
          rcases hremovable with rfl | rfl
          · exact .inr (.inr hstage)
          · exact .inl (hgone rfl)
        · simp only [if_neg htoken]
          exact hkept _

theorem triple_removeLifecycleLockIfUnchanged (expected : FileSnapshot) :
    lockProtocol.Triple pid (fun directory ↦ directory.At pid .idle ∧ directory.Old expected)
      (removeLifecycleLockIfUnchanged expected) fun _ ↦ At pid .idle := by
  have hlasting := (Lasting.stage pid .idle).and (Lasting.old pid expected)
  apply (triple_matchesPath expected hlasting).andThen
  intro result
  cases result with
  | error err => exact Protocol.Triple.pure fun _ hpre ↦ hpre.1.1
  | ok unchanged =>
    cases unchanged with
    | false => exact Protocol.Triple.pure fun _ hpre ↦ hpre.1.1
    | true =>
      rintro directory ⟨⟨_, hold⟩, hsaw⟩
      obtain ⟨token, hsaw, hgone⟩ := hsaw rfl
      exact triple_removeFileIfExists token directory ⟨hsaw, .inl (hgone hold)⟩

theorem triple_cleanupIncompleteLifecycleLockIfMatches (expected : FileSnapshot) :
    lockProtocol.Triple pid (fun directory ↦ directory.At pid .idle ∧ directory.Old expected)
      (cleanupIncompleteLifecycleLockIfMatches expected) fun _ ↦ At pid .idle := by
  have hlasting := (Lasting.stage pid .idle).and (Lasting.old pid expected)
  have hkept (result : Except LockError Bool) : lockProtocol.Triple pid
      (fun directory ↦ directory.At pid .idle ∧ directory.Old expected) (pure result)
      fun _ ↦ At pid .idle := Protocol.Triple.pure fun _ hpre ↦ hpre.1
  apply (triple_matchesPath expected hlasting).andThen
  intro result
  cases result with
  | error err => exact (hkept _).imp_pre fun _ hpre ↦ hpre.1
  | ok unchanged =>
    cases unchanged with
    | false => exact (hkept _).imp_pre fun _ hpre ↦ hpre.1
    | true =>
      apply ((triple_isStale expected hlasting.stable).imp_pre fun _ hpre ↦ hpre.1).andThen
      intro stale
      cases stale with
      | false => exact (hkept _).imp_pre fun _ hpre ↦ hpre.1
      | true =>
        apply ((triple_readLifecycleLock hlasting).imp_pre fun _ hpre ↦ hpre.1).andThen
        intro content
        have hremove : lockProtocol.Triple pid
            (fun directory ↦ directory.At pid .idle ∧ directory.Old expected)
            (removeLifecycleLockIfUnchanged expected) fun _ ↦ At pid .idle :=
          triple_removeLifecycleLockIfUnchanged expected
        cases content with
        | error err => exact (hkept _).imp_pre fun _ hpre ↦ hpre.1
        | ok content =>
          cases content with
          | none => exact hremove.imp_pre fun _ hpre ↦ hpre.1
          | some content =>
            cases content with
            | complete record => exact (hkept _).imp_pre fun _ hpre ↦ hpre.1
            | incomplete owner =>
              apply ((triple_isSomeProcessRunning owner hlasting.stable).imp_pre
                fun _ hpre ↦ hpre.1).andThen
              intro running
              cases running with
              | true => exact hkept _
              | false => exact hremove

end Recovery

section Acquisition

variable {pid : U32}

/-- The process has created the lock file of the token, and nothing of it has been seen since. -/
def Creating (pid : U32) (token : String) (directory : LockDirectory) : Prop :=
  directory.At pid (.creating token) ∧ directory.Saw pid token

theorem stable_creating (pid : U32) (token : String) : lockProtocol.Stable pid (Creating pid token) :=
  (Lasting.stage pid _).stable.and (stable_saw pid token)

/-- What an attempt to create the lock file leaves. -/
def Created (pid : U32) : Except LockError String → LockDirectory → Prop
  | .ok token => Creating pid token
  | .error _ => At pid .idle

theorem triple_createNew :
    lockProtocol.Triple pid (At pid .idle) LockOp.createNew.run (Created pid) := by
  apply Protocol.Triple.perform (Lasting.stage pid _).stable
  intro directory outcome hinv _ hidle hcondition
  have hsame : lockProtocol.Keeps pid directory directory := .refl hinv
  cases hrefused : outcome.refused with
  | true =>
    simp only [lockMachine, exec, hrefused, if_true]
    exact ⟨hsame, hidle⟩
  | false =>
    cases hfile : directory.file with
    | some file =>
      simp only [lockMachine, exec, hrefused, Bool.false_eq_true, if_false, hfile]
      exact ⟨hsame, hidle⟩
    | none =>
      simp only [lockMachine, exec, hrefused, Bool.false_eq_true, if_false, hfile]
      exact ⟨keeps_create hinv hfile (hcondition.1.2 rfl), Function.update_self _ _ _,
        Function.update_self _ _ _⟩

theorem triple_writeLifecycleLockContents (token : String) :
    lockProtocol.Triple pid (Creating pid token) (writeLifecycleLockContents token)
      fun _ ↦ Creating pid token := by
  have hchunk : lockProtocol.Triple pid (Creating pid token) (LockOp.writeChunk token).run
      fun _ ↦ Creating pid token :=
    Protocol.Triple.perform (stable_creating pid token) fun _ _ hinv _ hcreating _ ↦
      ⟨keeps_write hinv token _, hcreating⟩
  have hfinish : lockProtocol.Triple pid (Creating pid token) (LockOp.finishWrite token).run
      fun _ ↦ Creating pid token := by
    apply Protocol.Triple.perform (stable_creating pid token)
    intro directory outcome hinv _ hcreating _
    cases hrefused : outcome.refused with
    | true =>
      simp only [lockMachine, exec, hrefused, if_true]
      exact ⟨keeps_write hinv token _, hcreating⟩
    | false =>
      simp only [lockMachine, exec, hrefused, Bool.false_eq_true, if_false]
      exact ⟨keeps_write hinv token _, hcreating⟩
  apply (triple_countRounds (stable_creating pid token)).andThen
  intro count
  have hround : lockProtocol.Triple pid (Creating pid token)
      (do
        (LockOp.writeChunk token).run
        return (none : Option Unit)) fun result directory ↦
          result.elim (Creating pid token directory) fun _ ↦ Creating pid token directory :=
    hchunk.andThen fun _ ↦ Protocol.Triple.pure fun _ h ↦ h
  exact (hround.rounds (fun _ h ↦ h) count).andThen fun _ ↦ hfinish

theorem triple_setPrivateFilePermissions (token : String) :
    lockProtocol.Triple pid (Creating pid token) (setPrivateFilePermissions token)
      fun done directory ↦
        if done then directory.At pid (.guarding token) else Creating pid token directory := by
  apply Protocol.Triple.perform (stable_creating pid token)
  intro directory outcome hinv _ hcreating _
  cases hrefused : outcome.refused with
  | true =>
    simp only [lockMachine, exec, hrefused, if_true, Bool.false_eq_true, if_false]
    exact ⟨.refl hinv, hcreating⟩
  | false =>
    simp only [lockMachine, exec, hrefused, Bool.false_eq_true, if_false, if_true]
    refine ⟨keeps_setStage hinv fun other hother ↦ ?_, Function.update_self _ _ _⟩
    simp only [reduceCtorEq, false_or, LockStage.guarding.injEq] at hother
    rw [← hother]
    exact .inl hcreating.1

/-- What an attempt at the lock leaves of the stage of the process. -/
def Attempted (pid : U32) : Except LockError String → LockDirectory → Prop
  | .ok token => At pid (.guarding token)
  | .error _ => At pid .idle

theorem triple_createLifecycleLock :
    lockProtocol.Triple pid (At pid .idle) createLifecycleLock (Attempted pid) := by
  apply triple_createNew.andThen
  intro result
  cases result with
  | error err => exact Protocol.Triple.pure fun _ h ↦ h
  | ok token =>
    have habandon : lockProtocol.Triple pid (Creating pid token) createLifecycleLock.abandon
        (Attempted pid) := by
      have hremove : lockProtocol.Triple pid (Creating pid token) removeFileIfExists
          fun _ ↦ At pid .idle :=
        (triple_removeFileIfExists token).imp_pre fun _ hcreating ↦
          ⟨hcreating.2, .inr (.inl hcreating.1)⟩
      exact hremove.andThen fun _ ↦ Protocol.Triple.pure fun _ h ↦ h
    apply (triple_writeLifecycleLockContents token).andThen
    intro written
    cases written with
    | false => exact habandon
    | true =>
      apply (triple_setPrivateFilePermissions token).andThen
      intro done
      cases done with
      | false => exact habandon
      | true => exact Protocol.Triple.pure fun _ h ↦ h

theorem triple_acquireLifecycleLockRound :
    lockProtocol.Triple pid (At pid .idle) acquireLifecycleLockRound fun result directory ↦
      result.elim (directory.At pid .idle) fun result ↦ Attempted pid result directory := by
  apply triple_createLifecycleLock.andThen
  intro result
  cases result with
  | ok token => exact Protocol.Triple.pure fun _ h ↦ h
  | error err =>
    cases err with
    | timedOut => exact Protocol.Triple.pure fun _ h ↦ h
    | other => exact Protocol.Triple.pure fun _ h ↦ h
    | alreadyExists =>
      apply (triple_inspectStaleLifecycleLock (Lasting.stage pid .idle)).andThen
      intro stale
      cases stale with
      | owned token =>
        have hremove : lockProtocol.Triple pid
            (fun directory ↦ directory.At pid .idle ∧ directory.Gone token)
            (removeLifecycleLockIfMatches token) fun _ ↦ At pid .idle :=
          (triple_removeLifecycleLockIfMatches token (Or.inr rfl)).imp
            (fun _ hpre ↦ ⟨hpre.1, fun _ ↦ hpre.2⟩) fun _ _ hpost ↦ hpost.elim id id
        exact (hremove.imp_pre fun _ hpre ↦ ⟨hpre.1, hpre.2.1 token rfl⟩).andThen fun _ ↦
          Protocol.Triple.pure fun _ h ↦ h
      | incomplete snapshot =>
        exact ((triple_cleanupIncompleteLifecycleLockIfMatches snapshot).imp_pre
          fun _ hpre ↦ ⟨hpre.1, hpre.2.2 snapshot rfl⟩).andThen fun _ ↦
            Protocol.Triple.pure fun _ h ↦ h
      | notStale =>
        have htimeout : lockProtocol.Triple pid (At pid .idle) isTimedOut fun _ ↦ At pid .idle :=
          triple_query .isTimedOut (Lasting.stage pid .idle).stable fun _ _ ↦ rfl
        apply (htimeout.imp_pre fun _ hpre ↦ hpre.1).andThen
        intro timedOut
        cases timedOut with
        | true => exact Protocol.Triple.pure fun _ h ↦ h
        | false => exact Protocol.Triple.pure fun _ h ↦ h

theorem triple_acquireLifecycleLock :
    lockProtocol.Triple pid (At pid .idle) acquireLifecycleLock (Attempted pid) := by
  apply (triple_countRounds (Lasting.stage pid .idle).stable).andThen
  intro count
  apply triple_acquireLifecycleLockRound.rounds _ count
  exact fun _ h ↦ h

theorem triple_dropLifecycleLock (token : String) :
    lockProtocol.Triple pid (At pid (.guarding token)) (dropLifecycleLock token)
      fun _ ↦ At pid .idle := by
  have hforget : lockProtocol.Triple pid (fun _ ↦ True) LockOp.forget.run fun _ ↦ At pid .idle :=
    Protocol.Triple.perform (fun _ _ _ _ _ ↦ trivial) fun _ _ hinv _ _ _ ↦
      ⟨keeps_setStage hinv (by simp), Function.update_self _ _ _⟩
  have hremove : lockProtocol.Triple pid (At pid (.guarding token))
      (removeLifecycleLockIfMatches token) fun _ _ ↦ True := by
    refine (triple_removeLifecycleLockIfMatches token (Or.inl rfl)).imp ?_ fun _ _ _ ↦ trivial
    intro directory hguard
    exact ⟨hguard, fun hidle ↦ by cases hidle⟩
  exact hremove.andThen fun _ ↦ hforget

theorem triple_useLifecycleLock :
    lockProtocol.Triple pid (At pid .idle) useLifecycleLock fun _ ↦ At pid .idle := by
  apply (triple_countRounds (Lasting.stage pid .idle).stable).andThen
  intro count
  have hround : lockProtocol.Triple pid (At pid .idle)
      (do
        match ← acquireLifecycleLock with
        | .ok token =>
          dropLifecycleLock token
          return none
        | .error _ => return (none : Option Unit)) fun result directory ↦
          result.elim (directory.At pid .idle) fun _ ↦ directory.At pid .idle := by
    apply triple_acquireLifecycleLock.andThen
    intro result
    cases result with
    | error err => exact Protocol.Triple.pure fun _ h ↦ h
    | ok token =>
      exact (triple_dropLifecycleLock token).andThen fun _ ↦ Protocol.Triple.pure fun _ h ↦ h
  exact hround.rounds (fun _ h ↦ h) count

end Acquisition

/-! ## Exclusion -/

/-- As long as every removal of the lock file finds the file that the process has created or seen
last, at most one live process has a guard. -/
theorem lifecycle_lock_exclusive (file : Option LockFile) (clock : ℕ) (alive : U32 → Bool)
    {turns : List (Turn U32 LockOutcome LockEvent)}
    (hassumptions : ∀ moment ∈ lockMachine.run (lockUsers file clock alive) turns,
      lockMachine.Meets lockAssumptions moment)
    (hremovals : ∀ moment ∈ lockMachine.run (lockUsers file clock alive) turns,
      lockMachine.Meets removesWhatItSaw moment) :
    ∀ moment ∈ lockMachine.run (lockUsers file clock alive) turns,
      moment.before.shared.AtMostOneGuard ∧ moment.after.shared.AtMostOneGuard := by
  have hguard {directory : LockDirectory} (h : directory.Inv) : directory.AtMostOneGuard := by
    intro pid other token token' hpid hother hguarding hguarding'
    obtain ⟨file, hfile, -, rfl⟩ := h.kept pid token hpid (.inr hguarding)
    obtain ⟨file', hfile', -, rfl⟩ := h.kept other token' hother (.inr hguarding')
    rw [Option.some.inj (hfile.symm.trans hfile')]
  suffices hinv : ∀ moment ∈ lockMachine.run (lockUsers file clock alive) turns,
      moment.before.shared.Inv ∧ moment.after.shared.Inv by
    intro moment hmoment
    exact ⟨hguard (hinv moment hmoment).1, hguard (hinv moment hmoment).2⟩
  apply lockProtocol.run_invariant
  · refine ⟨fun pid token _ hkeeps ↦ ?_, fun leftover hleftover ↦ ?_⟩
    · rcases hkeeps with hkeeps | hkeeps <;> cases hkeeps
    · exact List.mem_map_of_mem (Option.mem_toList.mpr hleftover)
  · intro pid
    have hidle : (lockUsers file clock alive).shared.At pid .idle := rfl
    exact (triple_useLifecycleLock _ hidle).mono fun _ _ _ ↦ trivial
  · intro moment hmoment
    have hassumed := hassumptions moment hmoment
    have hremoves := hremovals moment hmoment
    cases hturn : moment.input with
    | event event => simp only [Machine.Meets, hturn, lockProtocol]
    | step pid outcome =>
      simp only [Machine.Meets, hturn] at hassumed hremoves ⊢
      exact fun hrunning op next hprogram ↦
        ⟨hassumed hrunning op next hprogram, hremoves hrunning op next hprogram⟩

/-! ### A lock that is recovered -/

abbrev LockTurn := Turn U32 LockOutcome LockEvent

def takes (pid : U32) (outcomes : List LockOutcome) : List LockTurn := outcomes.map (.step pid)

/-- The process uses the lock once, in at most so many rounds. -/
def opening (rounds : ℕ) : List LockOutcome := [{ count := 1 }, { count := rounds }]

def creation (nanos : ℕ) : List LockOutcome := [{ nanos }, {}, {}, {}]

/-- A waiter finds the lock of a dead process, and reads its token again. -/
def inspection : List LockOutcome := [{}, {}, {}, {}, {}, {}]

/-- The first process dies with the lock, which becomes stale. -/
def abandonment : List LockTurn :=
  takes 1 (opening 1 ++ creation 1) ++ [.event (.die 1), .event (.tick 15000000001)]

/-- One waiter recovers the lock. -/
def recovery : List LockTurn :=
  abandonment ++ takes 2 (opening 2 ++ inspection) ++ takes 2 ({} :: creation 2)

/-- Two waiters have both read the token again before the first of them removes the file. -/
def recoveryRace : List LockTurn :=
  abandonment ++ takes 2 (opening 2 ++ inspection) ++ takes 3 (opening 2 ++ inspection) ++
    takes 2 ({} :: creation 2) ++ takes 3 ({} :: creation 3)

theorem lifecycle_lock_exclusive_recovery :
    ∃ moment ∈ lockMachine.run (lockUsers none 0 fun _ ↦ true) recovery,
      moment.after.shared.stage 2 = .guarding "2-2" ∧ moment.after.shared.AtMostOneGuard := by
  have hguard : ∃ moment ∈ lockMachine.run (lockUsers none 0 fun _ ↦ true) recovery,
      moment.after.shared.stage 2 = .guarding "2-2" := by decide +kernel
  obtain ⟨moment, hmoment, hstage⟩ := hguard
  have hexclusive := lifecycle_lock_exclusive none 0 (fun _ ↦ true) (by decide +kernel)
    (by decide +kernel) moment hmoment
  exact ⟨moment, hmoment, hstage, hexclusive.2⟩

/-- The second waiter removes the lock of the first, and both have a guard. -/
theorem lifecycle_lock_guarded_twice :
    (∀ moment ∈ lockMachine.run (lockUsers none 0 fun _ ↦ true) recoveryRace,
      lockMachine.Meets lockAssumptions moment) ∧
    ∃ moment ∈ lockMachine.run (lockUsers none 0 fun _ ↦ true) recoveryRace,
      ¬moment.after.shared.AtMostOneGuard := by
  have hguards : ∃ moment ∈ lockMachine.run (lockUsers none 0 fun _ ↦ true) recoveryRace,
      (moment.after.shared.alive 2 = true ∧ moment.after.shared.alive 3 = true) ∧
        moment.after.shared.stage 2 = .guarding "2-2" ∧
        moment.after.shared.stage 3 = .guarding "3-3" := by decide +kernel
  obtain ⟨moment, hmoment, ⟨hfirst, hsecond⟩, hstage, hstage'⟩ := hguards
  refine ⟨by decide +kernel, moment, hmoment, fun hexclusive ↦ ?_⟩
  exact absurd (hexclusive 2 3 _ _ hfirst hsecond hstage hstage') (by decide)

end FerrisBridge
