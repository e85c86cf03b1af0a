import FerrisBridge.Daemon.Ownership

/-!
# One daemon in every run

Every program of the daemon keeps to the protocol: a cleanup, a stop and a start remove or replace a
record file only when no live process is past its record writes. So at most one is in any run, and both
files are its own.
-/

open Foundations

namespace FerrisBridge.Daemon

open Host

section Cleanup

variable {pid : U32} {fact : Host → Prop}

theorem triple_rounds {α : Type} {pre : Host → Prop} {post : α → Host → Prop}
    {body : DaemonProgram (Option α)} {otherwise : α} (hstable : protocol.Stable pid pre)
    (hbody : protocol.Triple pid pre body fun result host ↦
      result.elim (pre host) fun a ↦ post a host)
    (hotherwise : ∀ host, pre host → post otherwise host) :
    protocol.Triple pid pre (do Program.rounds body otherwise (← countRounds)) post :=
  (triple_ask .countRounds hstable fun _ _ ↦ rfl).andThen fun count ↦ hbody.rounds hotherwise count

/-- The content of a file is removed when none serves with such a record. -/
theorem triple_removeRecordFile_read {p : DaemonRecord → Prop} {record : DaemonRecord}
    (file : RecordFile) (h : LastingHeld pid fact)
    (hserved : ∀ host, host.Inv → fact host → host.Unserved p) (hp : p record) :
    protocol.Triple pid (Holding pid fun host ↦ fact host ∧ Reading (.ok (some record)) host)
      (removeRecordFile file) fun _ ↦ Holding pid fact := by
  have hidle (host : Host) (hinv : host.Inv)
      (hknown : fact host ∧ Reading (.ok (some record)) host) : host.Idle :=
    hknown.2.1.idle (hserved host hinv hknown.1) hp
  apply (triple_removeRecordFile file (h.and (lastingHeld_reading pid _)) hidle).imp_post
  exact fun _ host hpost ↦ hpost.mono fun _ hknown ↦ hknown.1

theorem triple_removeRecordFileIfMatchesUnlocked (file : RecordFile) (expected : DaemonRecord)
    (h : LastingHeld pid fact) (hserved : ∀ host, host.Inv → fact host →
      host.Unserved fun record ↦ recordIdentityMatches record expected = true) :
    protocol.Triple pid (Holding pid fact) (removeRecordFileIfMatchesUnlocked file expected)
      fun _ ↦ Holding pid fact := by
  apply (triple_readRecord file h).andThen
  intro answer
  have hkept (result : Except Unit Bool) : protocol.Triple pid
      (Holding pid fun host ↦ fact host ∧ Reading answer host)
      (pure result : DaemonProgram (Except Unit Bool)) fun _ ↦ Holding pid fact :=
    Protocol.Triple.pure fun _ hpre ↦ hpre.mono fun _ hknown ↦ hknown.1
  cases answer with
  | error err => exact hkept _
  | ok content =>
    cases content with
    | none => exact hkept _
    | some record =>
      by_cases hmatches : recordIdentityMatches record expected = true
      · simp only [if_pos hmatches]
        apply (triple_removeRecordFile_read file h hserved hmatches).andThen
        intro removed
        cases removed with
        | true => exact Protocol.Triple.pure fun _ hpre ↦ hpre
        | false => exact Protocol.Triple.pure fun _ hpre ↦ hpre
      · simp only [if_neg hmatches]
        exact hkept _

theorem triple_removeRecordFileIfTokenUnlocked (file : RecordFile) (token : String)
    (h : LastingHeld pid fact) (hserved : ∀ host, host.Inv → fact host →
      host.Unserved fun record ↦ record.token = token) :
    protocol.Triple pid (Holding pid fact) (removeRecordFileIfTokenUnlocked file token)
      fun _ ↦ Holding pid fact := by
  apply (triple_readRecord file h).andThen
  intro answer
  have hkept : protocol.Triple pid (Holding pid fun host ↦ fact host ∧ Reading answer host)
      (pure () : DaemonProgram Unit) fun _ ↦ Holding pid fact :=
    Protocol.Triple.pure fun _ hpre ↦ hpre.mono fun _ hknown ↦ hknown.1
  cases answer with
  | error err => exact hkept
  | ok content =>
    cases content with
    | none => exact hkept
    | some record =>
      by_cases htoken : record.token = token
      · simp only [if_pos htoken]
        apply (triple_removeRecordFile_read file h hserved htoken).andThen
        exact fun _ ↦ Protocol.Triple.pure fun _ hpre ↦ hpre
      · simp only [if_neg htoken]
        exact hkept

theorem triple_removeStopFileIfMatchesUnlocked (token : String) (h : LastingHeld pid fact) :
    protocol.Triple pid (Holding pid fact) (removeStopFileIfMatchesUnlocked token)
      fun _ ↦ Holding pid fact := by
  apply (triple_ask .readStopFile h.stable fun _ _ ↦ rfl).andThen
  intro content
  by_cases hmatches : (content.any fun content ↦ trim content = token) = true
  · simp only [if_pos hmatches]
    apply (triple_removeStopFile h.stable h.stop).andThen
    exact fun _ ↦ Protocol.Triple.pure fun _ hpre ↦ hpre
  · simp only [if_neg hmatches]
    exact Protocol.Triple.pure fun _ hpre ↦ hpre

theorem triple_cleanupStateFilesForRecordUnlocked (record : DaemonRecord)
    (h : LastingHeld pid fact) (hserved : ∀ host, host.Inv → fact host →
      host.Unserved fun served ↦ recordIdentityMatches served record = true) :
    protocol.Triple pid (Holding pid fact) (cleanupStateFilesForRecordUnlocked record)
      fun _ ↦ Holding pid fact :=
  (triple_removeRecordFileIfMatchesUnlocked .state record h hserved).andThen fun _ ↦
    triple_removeStopFileIfMatchesUnlocked record.token h

theorem triple_cleanupRuntimeFilesForRecordUnlocked (record : DaemonRecord)
    (h : LastingHeld pid fact) (hserved : ∀ host, host.Inv → fact host →
      host.Unserved fun served ↦ recordIdentityMatches served record = true) :
    protocol.Triple pid (Holding pid fact) (cleanupRuntimeFilesForRecordUnlocked record)
      fun _ ↦ Holding pid fact :=
  (triple_removeRecordFileIfMatchesUnlocked .lock record h hserved).andThen fun _ ↦
    triple_cleanupStateFilesForRecordUnlocked record h hserved

theorem triple_cleanupRuntimeFilesForTokenUnlocked (token : String) (h : LastingHeld pid fact)
    (hserved : ∀ host, host.Inv → fact host → host.Unserved fun record ↦ record.token = token) :
    protocol.Triple pid (Holding pid fact) (cleanupRuntimeFilesForTokenUnlocked token)
      fun _ ↦ Holding pid fact :=
  (triple_removeRecordFileIfTokenUnlocked .lock token h hserved).andThen fun _ ↦
    (triple_removeRecordFileIfTokenUnlocked .state token h hserved).andThen fun _ ↦
      triple_removeStopFileIfMatchesUnlocked token h

/-- The children that a process has launched with its token are dead when it cleans up. -/
theorem triple_cleanupRuntimeFilesForToken (token : String) (children : List U32) :
    protocol.Triple pid
      (fun host ↦ host.Issued pid token children ∧ ∀ child ∈ children, host.status child = .dead)
      (cleanupRuntimeFilesForToken token) fun _ _ ↦ True := by
  have hlasting := (lasting_issued pid token children).and (lasting_dead pid children)
  apply (triple_acquireLifecycleLock hlasting).andThen
  intro acquired
  cases acquired with
  | false => exact Protocol.Triple.pure fun _ _ ↦ trivial
  | true =>
    have hserved (host : Host) (hinv : host.Inv) (hknown : host.Issued pid token children ∧
        ∀ child ∈ children, host.status child = .dead) :
        host.Unserved fun record ↦ record.token = token := hknown.1.unserved hinv hknown.2
    apply (triple_cleanupRuntimeFilesForTokenUnlocked token hlasting.held hserved).andThen
    exact fun _ ↦ (triple_releaseLifecycleLock hlasting).imp_post fun _ _ _ ↦ trivial

theorem triple_cleanupInvalidStateFilesUnlocked (h : LastingHeld pid fact) :
    protocol.Triple pid (Holding pid fact) cleanupInvalidStateFilesUnlocked
      fun _ ↦ Holding pid fact := by
  apply (triple_readRecord .state h).andThen
  intro answer
  cases answer with
  | ok content => exact Protocol.Triple.pure fun _ hpre ↦ hpre.mono fun _ hknown ↦ hknown.1
  | error err =>
    have hlasting := h.and (lastingHeld_reading pid (.error err))
    apply (triple_removeRecordFile .state hlasting fun _ _ hknown ↦ hknown.2).andThen
    intro removed
    apply (triple_removeStopFile hlasting.stable hlasting.stop).andThen
    exact fun _ ↦ Protocol.Triple.pure fun _ hpre ↦ hpre.mono fun _ hknown ↦ hknown.1

/-- No live process is past its record writes with the identity of a stale record. -/
def Stale : Option DaemonRecord → Host → Prop
  | some record, host => host.Unserved fun served ↦ recordIdentityMatches served record = true
  | none, _ => True

theorem lastingHeld_stale (pid : U32) (record : Option DaemonRecord) :
    LastingHeld pid (Stale record) := by
  cases record with
  | none => exact (lasting_true pid).held
  | some record => exact LastingHeld.unserved pid _

theorem triple_cleanupStaleFilesUnlocked (record : Option DaemonRecord) :
    protocol.Triple pid (Holding pid (Stale record)) (cleanupStaleFilesUnlocked record)
      fun _ ↦ Holding pid (Stale record) := by
  have hlasting := lastingHeld_stale pid record
  cases record with
  | none => exact triple_cleanupInvalidStateFilesUnlocked hlasting
  | some record =>
    exact triple_cleanupRuntimeFilesForRecordUnlocked record hlasting fun _ _ hstale ↦ hstale

end Cleanup

/-! ## Status -/

section Status

variable {pid : U32} {fact : Host → Prop}

theorem unserved_of_pid {host : Host} {record : DaemonRecord}
    (h : host.Unserved fun served ↦ served.pid = record.pid) : Stale (some record) host := by
  apply h.mono
  intro served hmatches
  simp only [recordIdentityMatches, Bool.and_eq_true, beq_iff_eq] at hmatches
  exact hmatches.1.1.1

/-- What a status says of the records of the others. -/
def DaemonStatus.Known : DaemonStatus → Host → Prop
  | .stale record, host => Stale record host
  | _, _ => True

theorem triple_startingLockIsLive (record : DaemonRecord) (h : LastingHeld pid fact) :
    protocol.Triple pid (Holding pid fact) (startingLockIsLive record) fun _ ↦
      Holding pid fact := by
  apply (triple_ask .nowUnixSeconds h.stable fun _ _ ↦ rfl).andThen
  intro (now : U64)
  by_cases hfresh : now.toNat - record.startedAtUnix.toNat ≤ startingLockTtl
  · simp only [if_pos hfresh]
    exact triple_ask (.isProcessRunning record.pid) h.stable fun _ _ ↦ rfl
  · simp only [if_neg hfresh]
    exact Protocol.Triple.pure fun _ hpre ↦ hpre

theorem triple_inspectRecordStatus (record : DaemonRecord) (h : LastingHeld pid fact) :
    protocol.Triple pid (Holding pid fact) (inspectRecordStatus record) fun status ↦
      Holding pid fun host ↦ fact host ∧ status.Known host := by
  apply (triple_isProcessRunning record.pid h).andThen
  intro running
  cases running with
  | false =>
    exact Protocol.Triple.pure fun _ hpre ↦ hpre.mono fun _ hknown ↦
      ⟨hknown.1, unserved_of_pid (hknown.2 rfl)⟩
  | true =>
    have hask : protocol.Triple pid (Holding pid fact) (inspectProcessIdentity record) fun _ ↦
        Holding pid fact := triple_ask (.inspectProcessIdentity record) h.stable fun _ _ ↦ rfl
    apply (hask.imp_pre fun _ hpre ↦ hpre.mono fun _ hknown ↦ hknown.1).andThen
    intro identity
    cases identity with
    | verified => exact Protocol.Triple.pure fun _ hpre ↦ hpre.mono fun _ hfact ↦ ⟨hfact, trivial⟩
    | unverified => exact Protocol.Triple.pure fun _ hpre ↦ hpre.mono fun _ hfact ↦ ⟨hfact, trivial⟩
    | mismatch => exact Protocol.Triple.pure fun _ hpre ↦ hpre.mono fun _ hfact ↦ ⟨hfact, trivial⟩

theorem triple_inspectLockWithoutState (issue : StateFileIssue) (h : LastingHeld pid fact) :
    protocol.Triple pid (Holding pid fact) (inspectLockWithoutState issue) fun status ↦
      Holding pid fun host ↦ fact host ∧ status.Known host := by
  apply (triple_readRecord .lock h).andThen
  intro answer
  have hplain (status : DaemonStatus) (hstatus : ∀ host, status.Known host) :
      protocol.Triple pid (Holding pid fun host ↦ fact host ∧ Reading answer host)
        (pure status : DaemonProgram DaemonStatus) fun status ↦
          Holding pid fun host ↦ fact host ∧ status.Known host :=
    Protocol.Triple.pure fun _ hpre ↦ hpre.mono fun host hknown ↦ ⟨hknown.1, hstatus host⟩
  cases answer with
  | error err => exact hplain (.stale none) fun _ ↦ trivial
  | ok content =>
    cases content with
    | none =>
      by_cases hmissing : issue = .missing
      · simp only [if_pos hmissing]
        exact hplain .stopped fun _ ↦ trivial
      · simp only [if_neg hmissing]
        exact hplain (.stale none) fun _ ↦ trivial
    | some record =>
      by_cases hmode : record.mode = .starting
      · simp only [if_pos hmode]
        have hlasting := h.and (lastingHeld_reading pid (.ok (some record)))
        apply (triple_startingLockIsLive record hlasting).andThen
        intro live
        cases live with
        | true => exact hplain (.starting record) fun _ ↦ trivial
        | false =>
          exact Protocol.Triple.pure fun _ hpre ↦ hpre.mono fun _ hknown ↦
            ⟨hknown.1, (hknown.2.2 hmode).unserved _⟩
      · simp only [if_neg hmode]
        apply ((triple_inspectRecordStatus record h).imp_pre fun _ hpre ↦
          hpre.mono fun _ hknown ↦ hknown.1).andThen
        intro status
        cases status with
        | stale record => exact Protocol.Triple.pure fun _ hpre ↦ hpre
        | starting _ => exact Protocol.Triple.pure fun _ hpre ↦ hpre
        | running _ => exact Protocol.Triple.pure fun _ hpre ↦ hpre
        | runningUnverified _ => exact Protocol.Triple.pure fun _ hpre ↦ hpre
        | stopped => exact Protocol.Triple.pure fun _ hpre ↦ hpre
        | unowned => exact Protocol.Triple.pure fun _ hpre ↦ hpre

theorem triple_inspectStatus (h : LastingHeld pid fact) :
    protocol.Triple pid (Holding pid fact) inspectStatus fun status ↦
      Holding pid fun host ↦ fact host ∧ status.Known host := by
  apply ((triple_readRecord .state h).imp_post fun _ _ hpost ↦
    hpost.mono fun _ hknown ↦ hknown.1).andThen
  intro answer
  cases answer with
  | error err => exact triple_inspectLockWithoutState .invalid h
  | ok content =>
    cases content with
    | none => exact triple_inspectLockWithoutState .missing h
    | some record => exact triple_inspectRecordStatus record h

end Status

/-! ## Startup -/

section Startup

variable {pid : U32} {fact : Host → Prop}

def StartLockStatus.Known : StartLockStatus → Host → Prop
  | .stale record, host => Stale record host
  | _, _ => True

theorem triple_inspectStartLock (h : LastingHeld pid fact) :
    protocol.Triple pid (Holding pid fact) inspectStartLock fun status ↦
      Holding pid fun host ↦ fact host ∧ status.Known host := by
  apply (triple_readRecord .lock h).andThen
  intro answer
  have hplain (status : StartLockStatus) (hstatus : ∀ host, status.Known host) :
      protocol.Triple pid (Holding pid fact) (pure status : DaemonProgram StartLockStatus)
        fun status ↦ Holding pid fun host ↦ fact host ∧ status.Known host :=
    Protocol.Triple.pure fun _ hpre ↦ hpre.mono fun host hknown ↦ ⟨hknown, hstatus host⟩
  have hread (host : Host) (hpre : Holding pid (fun host ↦ fact host ∧ Reading answer host) host) :
      Holding pid fact host := hpre.mono fun _ hknown ↦ hknown.1
  cases answer with
  | error err => exact (hplain .dangerous fun _ ↦ trivial).imp_pre hread
  | ok content =>
    cases content with
    | none => exact (hplain (.stale none) fun _ ↦ trivial).imp_pre hread
    | some record =>
      by_cases hmode : record.mode = .starting
      · simp only [if_pos hmode]
        have hlasting := h.and (lastingHeld_reading pid (.ok (some record)))
        apply (triple_startingLockIsLive record hlasting).andThen
        intro live
        cases live with
        | true => exact (hplain .live fun _ ↦ trivial).imp_pre hread
        | false =>
          exact Protocol.Triple.pure fun _ hpre ↦ hpre.mono fun _ hknown ↦
            ⟨hknown.1, (hknown.2.2 hmode).unserved _⟩
      · simp only [if_neg hmode]
        apply ((triple_isProcessRunning record.pid h).imp_pre hread).andThen
        intro running
        cases running with
        | false =>
          exact Protocol.Triple.pure fun _ hpre ↦ hpre.mono fun _ hknown ↦
            ⟨hknown.1, unserved_of_pid (hknown.2 rfl)⟩
        | true =>
          have hask : protocol.Triple pid (Holding pid fact) (inspectProcessIdentity record)
              fun _ ↦ Holding pid fact :=
            triple_ask (.inspectProcessIdentity record) h.stable fun _ _ ↦ rfl
          apply (hask.imp_pre fun _ hpre ↦ hpre.mono fun _ hknown ↦ hknown.1).andThen
          intro identity
          cases identity with
          | verified => exact hplain .live fun _ ↦ trivial
          | unverified => exact hplain .live fun _ ↦ trivial
          | mismatch => exact hplain .dangerous fun _ ↦ trivial

theorem triple_acquireStartLockRound (record : DaemonRecord) (h : LastingHeld pid fact) :
    protocol.Triple pid (Holding pid fact) (acquireStartLockRound record) fun _ ↦
      Holding pid fact := by
  apply (triple_writeNewRecord record h).andThen
  intro created
  cases created with
  | ok _ => exact Protocol.Triple.pure fun _ hpre ↦ hpre
  | error err =>
    cases err with
    | other => exact Protocol.Triple.pure fun _ hpre ↦ hpre
    | alreadyExists =>
      apply (triple_inspectStartLock h).andThen
      intro status
      cases status with
      | live => exact Protocol.Triple.pure fun _ hpre ↦ hpre.mono fun _ hknown ↦ hknown.1
      | dangerous => exact Protocol.Triple.pure fun _ hpre ↦ hpre.mono fun _ hknown ↦ hknown.1
      | stale record =>
        cases record with
        | none => exact Protocol.Triple.pure fun _ hpre ↦ hpre.mono fun _ hknown ↦ hknown.1
        | some stale =>
          have hlasting := h.and (lastingHeld_stale pid (some stale))
          apply (triple_removeRecordFileIfMatchesUnlocked .lock stale hlasting
            fun _ _ hknown ↦ hknown.2).andThen
          intro removed
          cases removed with
          | ok _ => exact Protocol.Triple.pure fun _ hpre ↦ hpre.mono fun _ hknown ↦ hknown.1
          | error _ => exact Protocol.Triple.pure fun _ hpre ↦ hpre.mono fun _ hknown ↦ hknown.1

theorem triple_currentExeString (hstable : protocol.Stable pid fact) :
    protocol.Triple pid fact currentExeString fun _ ↦ fact :=
  (triple_ask .currentExe hstable fun _ _ ↦ rfl).andThen fun _ ↦
    Protocol.Triple.pure fun _ hpre ↦ hpre

/-- A new record has the process id, the token and the mode that it is built from. -/
theorem triple_newRecord (token exe : String) (mode : Mode) (hstable : protocol.Stable pid fact) :
    protocol.Triple pid fact (DaemonRecord.new pid token exe mode) fun record host ↦
      fact host ∧ record.pid = pid ∧ record.token = token ∧ record.mode = mode :=
  (triple_ask .nowUnixSeconds hstable fun _ _ ↦ rfl).andThen fun _ ↦
    Protocol.Triple.pure fun _ hpre ↦ ⟨hpre, rfl, rfl, rfl⟩

theorem triple_acquireStartLock (token : String) (h : LastingHeld pid fact) :
    protocol.Triple pid (Holding pid fact) (acquireStartLock pid token) fun _ ↦
      Holding pid fact := by
  apply (triple_currentExeString h.stable).andThen
  intro exe
  apply ((triple_newRecord token exe .starting h.stable).imp_post fun _ _ hpost ↦ hpost.1).andThen
  intro record
  have hround : protocol.Triple pid (Holding pid fact) (acquireStartLockRound record)
      fun result host ↦ result.elim (Holding pid fact host) fun _ ↦ Holding pid fact host := by
    apply (triple_acquireStartLockRound record h).imp_post
    intro result host hpost
    cases result with
    | none => exact hpost
    | some _ => exact hpost
  exact triple_rounds h.stable hround fun _ hpre ↦ hpre

/-- The startup lock of a validated daemon is still the one of its starter. -/
theorem triple_validateStartupLock (token : String) (starterPid : U32) (h : LastingHeld pid fact) :
    protocol.Triple pid (Holding pid fact) (validateStartupLock token starterPid) fun valid ↦
      Holding pid fun host ↦ fact host ∧ (valid = true → host.Idle) := by
  apply (triple_readRecord .lock h).andThen
  intro answer
  have hinvalid : protocol.Triple pid (Holding pid fun host ↦ fact host ∧ Reading answer host)
      (pure false : DaemonProgram Bool) fun valid ↦
        Holding pid fun host ↦ fact host ∧ (valid = true → host.Idle) :=
    Protocol.Triple.pure fun _ hpre ↦ hpre.mono fun _ hknown ↦
      ⟨hknown.1, fun hvalid ↦ absurd hvalid Bool.false_ne_true⟩
  cases answer with
  | error err => exact hinvalid
  | ok content =>
    cases content with
    | none => exact hinvalid
    | some record =>
      by_cases hmode : record.mode = .starting
      · by_cases htoken : record.token = token
        · by_cases hstarter : record.pid = starterPid
          · simp only [hmode, htoken, hstarter, ne_eq, not_true_eq_false, if_false]
            have hlasting := h.and (lastingHeld_reading pid (.ok (some record)))
            have hask : protocol.Triple pid
                (Holding pid fun host ↦ fact host ∧ Reading (.ok (some record)) host)
                (isProcessRunning starterPid) fun _ ↦
                  Holding pid fun host ↦ fact host ∧ Reading (.ok (some record)) host :=
              triple_ask (.isProcessRunning starterPid) hlasting.stable fun _ _ ↦ rfl
            exact hask.imp_post fun _ _ hpost ↦ hpost.mono fun _ hknown ↦
              ⟨hknown.1, fun _ ↦ hknown.2.2 hmode⟩
          · simp only [hmode, htoken, ne_eq, not_true_eq_false, if_false, hstarter,
              not_false_eq_true, if_true]
            exact hinvalid
        · simp only [hmode, htoken, ne_eq, not_true_eq_false, if_false, not_false_eq_true, if_true]
          exact hinvalid
      · simp only [hmode, ne_eq, not_false_eq_true, if_true]
        exact hinvalid

end Startup

/-! ## Commands -/

section Start

variable {pid : U32}

/-- A start that goes on holds the lifecycle lock, and its token is its own. -/
def StartPreparation.Known (pid : U32) : StartPreparation → Host → Prop
  | .ready token, host => Holding pid (Issued pid token []) host
  | _, _ => True

theorem triple_prepareStart_leave {fact : Host → Prop} (result : StartPreparation)
    (h : Lasting pid fact) (hresult : ∀ host, result.Known pid host) :
    protocol.Triple pid (Holding pid fact) (prepareStart.leave result) fun result ↦
      result.Known pid :=
  (triple_releaseLifecycleLock h).andThen fun _ ↦ Protocol.Triple.pure fun host _ ↦ hresult host

theorem triple_prepareStart_enter :
    protocol.Triple pid (Holding pid fun _ ↦ True) (prepareStart.enter pid) fun result ↦
      result.Known pid := by
  apply (triple_generateToken (lasting_true pid).held).andThen
  intro token
  have hissued := lasting_issued pid token []
  apply (triple_acquireStartLock token hissued.held).andThen
  intro acquired
  cases acquired with
  | true => exact Protocol.Triple.pure fun _ hpre ↦ hpre
  | false => exact triple_prepareStart_leave .refused hissued fun _ ↦ trivial

theorem triple_prepareStart :
    protocol.Triple pid (fun _ ↦ True) (prepareStart pid) fun result ↦ result.Known pid := by
  have htrue := lasting_true pid
  apply (triple_ask .prepareRuntimeDir htrue.stable fun _ _ ↦ rfl).andThen
  intro prepared
  cases prepared with
  | false => exact Protocol.Triple.pure fun _ _ ↦ trivial
  | true =>
    apply (triple_acquireLifecycleLock htrue).andThen
    intro acquired
    cases acquired with
    | false => exact Protocol.Triple.pure fun _ _ ↦ trivial
    | true =>
      apply (triple_inspectStatus htrue.held).andThen
      intro status
      have hleave (result : StartPreparation) (hresult : ∀ host, result.Known pid host) :
          protocol.Triple pid (Holding pid fun host ↦ True ∧ status.Known host)
            (prepareStart.leave result) fun result ↦ result.Known pid :=
        (triple_prepareStart_leave result htrue hresult).imp_pre fun _ hpre ↦
          hpre.mono fun _ _ ↦ trivial
      cases status with
      | starting _ => exact hleave .refused fun _ ↦ trivial
      | running _ => exact hleave .alreadyRunning fun _ ↦ trivial
      | runningUnverified _ => exact hleave .alreadyRunning fun _ ↦ trivial
      | unowned => exact hleave .refused fun _ ↦ trivial
      | stopped =>
        exact triple_prepareStart_enter.imp_pre fun _ hpre ↦ hpre.mono fun _ _ ↦ trivial
      | stale record =>
        apply ((triple_cleanupStaleFilesUnlocked record).imp_pre fun _ hpre ↦
          hpre.mono fun _ hknown ↦ hknown.2).andThen
        exact fun _ ↦ triple_prepareStart_enter.imp_pre fun _ hpre ↦ hpre.mono fun _ _ ↦ trivial

/-- No daemon has been launched with the token of a start that gives up. -/
theorem triple_abandonStart (token : String) :
    protocol.Triple pid (Holding pid (Issued pid token [])) (abandonStart token) fun _ _ ↦ True := by
  have hissued := lasting_issued pid token []
  have hserved (host : Host) (hinv : host.Inv) (h : host.Issued pid token []) :
      host.Unserved fun record ↦ record.token = token := by
    apply h.unserved hinv
    intro child hchild
    cases hchild
  apply (triple_cleanupRuntimeFilesForTokenUnlocked token hissued.held hserved).andThen
  exact fun _ ↦ (triple_releaseLifecycleLock hissued).imp_post fun _ _ _ ↦ trivial

theorem triple_readyRecordMatches {fact : Host → Prop} (file : RecordFile) (child : U32)
    (token : String) (hstable : protocol.Stable pid fact) :
    protocol.Triple pid fact (readyRecordMatches file child token) fun _ ↦ fact := by
  apply (triple_ask (.readRecord file) hstable fun _ _ ↦ rfl).andThen
  intro answer
  cases answer with
  | error err => exact Protocol.Triple.pure fun _ hpre ↦ hpre
  | ok content =>
    cases content with
    | none => exact Protocol.Triple.pure fun _ hpre ↦ hpre
    | some record => exact Protocol.Triple.pure fun _ hpre ↦ hpre

theorem triple_waitForRunning {fact : Host → Prop} (child : U32) (token : String)
    (hstable : protocol.Stable pid fact) :
    protocol.Triple pid fact (waitForRunning child token) fun _ ↦ fact := by
  apply triple_rounds hstable _ fun _ hpre ↦ hpre
  apply (triple_ask (.isProcessRunning child) hstable fun _ _ ↦ rfl).andThen
  intro running
  cases running with
  | false => exact Protocol.Triple.pure fun _ hpre ↦ hpre
  | true =>
    apply (triple_readyRecordMatches .lock child token hstable).andThen
    intro lockReady
    cases lockReady with
    | error err => exact Protocol.Triple.pure fun _ hpre ↦ hpre
    | ok lockReady =>
      cases lockReady with
      | false => exact Protocol.Triple.pure fun _ hpre ↦ hpre
      | true =>
        apply (triple_readyRecordMatches .state child token hstable).andThen
        intro stateReady
        cases stateReady with
        | error err => exact Protocol.Triple.pure fun _ hpre ↦ hpre
        | ok stateReady =>
          cases stateReady with
          | false => exact Protocol.Triple.pure fun _ hpre ↦ hpre
          | true => exact Protocol.Triple.pure fun _ hpre ↦ hpre

theorem triple_waitForChildExit {fact : Host → Prop} (child : U32)
    (hstable : protocol.Stable pid fact) :
    protocol.Triple pid fact (waitForChildExit child) fun exited host ↦
      fact host ∧ (exited = true → host.status child = .dead) := by
  apply triple_rounds hstable _ fun _ hpre ↦ ⟨hpre, fun hexited ↦ absurd hexited Bool.false_ne_true⟩
  apply (triple_tryWait child hstable).andThen
  intro exited
  cases exited with
  | false => exact Protocol.Triple.pure fun _ hpre ↦ hpre.1
  | true => exact Protocol.Triple.pure fun _ hpre ↦ ⟨hpre.1, fun _ ↦ hpre.2 rfl⟩

theorem forall_mem_singleton_dead {host : Host} {child : U32} (h : host.status child = .dead) :
    ∀ other ∈ [child], host.status other = .dead := by
  intro other hother
  rwa [List.mem_singleton.mp hother]

theorem triple_cleanupFailedStart (child : U32) (token : String) :
    protocol.Triple pid (Issued pid token [child]) (cleanupFailedStart child token)
      fun _ _ ↦ True := by
  have hissued := lasting_issued pid token [child]
  have hcleanup : protocol.Triple pid
      (fun host ↦ host.Issued pid token [child] ∧ ∀ other ∈ [child], host.status other = .dead)
      (cleanupRuntimeFilesForToken token) fun _ _ ↦ True :=
    triple_cleanupRuntimeFilesForToken token [child]
  apply (triple_writeStopFile token hissued.stable hissued.stop).andThen
  intro written
  apply (triple_waitForChildExit child hissued.stable).andThen
  intro exited
  cases exited with
  | true => exact hcleanup.imp_pre fun _ hpre ↦ ⟨hpre.1, forall_mem_singleton_dead (hpre.2 rfl)⟩
  | false =>
    apply ((triple_kill child token [child]).imp_pre fun _ hpre ↦ hpre.1).andThen
    intro killed
    apply (triple_wait child hissued.stable).andThen
    exact fun _ ↦ hcleanup.imp_pre fun _ hpre ↦ ⟨hpre.1, forall_mem_singleton_dead hpre.2⟩

theorem triple_waitForStartReady (child : U32) (token : String) :
    protocol.Triple pid (Issued pid token [child]) (waitForStartReady child token)
      fun ready host ↦ ready = true → Issued pid token [child] host := by
  have hissued := lasting_issued pid token [child]
  apply (triple_waitForRunning child token hissued.stable).andThen
  intro running
  cases running with
  | true => exact Protocol.Triple.pure fun _ hpre _ ↦ hpre
  | false =>
    apply (triple_cleanupFailedStart child token).andThen
    exact fun _ ↦ Protocol.Triple.pure fun _ _ hready ↦ absurd hready Bool.false_ne_true

theorem triple_startBackground :
    protocol.Triple pid (fun _ ↦ True) (startBackground pid) fun _ _ ↦ True := by
  apply triple_prepareStart.andThen
  intro preparation
  cases preparation with
  | refused => exact Protocol.Triple.pure fun _ _ ↦ trivial
  | alreadyRunning => exact Protocol.Triple.pure fun _ _ ↦ trivial
  | ready token =>
    have hissued := (lasting_issued pid token []).held
    apply (triple_ask .currentExe hissued.stable fun _ _ ↦ rfl).andThen
    intro exe
    cases exe with
    | none => exact triple_abandonStart token
    | some _ =>
      apply (triple_ask .openLog hissued.stable fun _ _ ↦ rfl).andThen
      intro opened
      cases opened with
      | false => exact triple_abandonStart token
      | true =>
        apply (triple_spawn token false).andThen
        intro child
        cases child with
        | none => exact triple_abandonStart token
        | some child =>
          apply (triple_releaseLifecycleLock (lasting_issued pid token [child])).andThen
          intro released
          apply (triple_waitForStartReady child token).andThen
          exact fun _ ↦ Protocol.Triple.pure fun _ _ ↦ trivial

theorem triple_runForeground :
    protocol.Triple pid (fun _ ↦ True) (runForeground pid) fun _ _ ↦ True := by
  apply triple_prepareStart.andThen
  intro preparation
  cases preparation with
  | refused => exact Protocol.Triple.pure fun _ _ ↦ trivial
  | alreadyRunning => exact Protocol.Triple.pure fun _ _ ↦ trivial
  | ready token =>
    have hissued := (lasting_issued pid token []).held
    apply (triple_ask .currentExe hissued.stable fun _ _ ↦ rfl).andThen
    intro exe
    cases exe with
    | none => exact triple_abandonStart token
    | some _ =>
      apply (triple_spawn token true).andThen
      intro child
      cases child with
      | none => exact triple_abandonStart token
      | some child =>
        have hchild := lasting_issued pid token [child]
        apply (triple_releaseLifecycleLock hchild).andThen
        intro released
        apply (triple_waitForStartReady child token).andThen
        intro ready
        cases ready with
        | false => exact Protocol.Triple.pure fun _ _ ↦ trivial
        | true =>
          apply ((triple_wait child hchild.stable).imp_pre fun _ hpre ↦ hpre rfl).andThen
          intro success
          cases success with
          | true => exact Protocol.Triple.pure fun _ _ ↦ trivial
          | false =>
            exact (triple_cleanupRuntimeFilesForToken token [child]).imp_pre fun _ hpre ↦
              ⟨hpre.1, forall_mem_singleton_dead hpre.2⟩

end Start

section Stop

variable {pid : U32} {fact : Host → Prop}

/-- The answer of a wait that has found no live process with the process id of a record. -/
theorem triple_pure_stopped {known : Host → Prop} (other : U32)
    (hknown : ∀ host, known host → fact host ∧ host.Unserved fun served ↦ served.pid = other) :
    protocol.Triple pid (Holding pid known) (pure (some true) : DaemonProgram (Option Bool))
      fun result host ↦ result.elim (Holding pid fact host) fun stopped ↦
        Holding pid (fun host ↦ fact host ∧
          (stopped = true → host.Unserved fun served ↦ served.pid = other)) host := by
  apply Protocol.Triple.pure
  intro host hpre
  obtain ⟨hfact, hunserved⟩ := hknown host hpre.2
  exact ⟨hpre.1, hfact, fun _ ↦ hunserved⟩

/-- The daemon of a record has stopped when its process has, or when the state file is gone. -/
theorem triple_waitForStop (other : U32) (h : LastingHeld pid fact) :
    protocol.Triple pid (Holding pid fact) (waitForStop other) fun stopped ↦
      Holding pid fun host ↦ fact host ∧
        (stopped = true → host.Unserved fun served ↦ served.pid = other) := by
  apply triple_rounds h.stable
  · apply (triple_isProcessRunning other h).andThen
    intro running
    cases running with
    | false => exact triple_pure_stopped other fun _ hknown ↦ ⟨hknown.1, hknown.2 rfl⟩
    | true =>
      apply ((triple_stateFileExists h).imp_pre fun _ hpre ↦
        hpre.mono fun _ hknown ↦ hknown.1).andThen
      intro present
      cases present with
      | true => exact Protocol.Triple.pure fun _ hpre ↦ hpre.mono fun _ hknown ↦ hknown.1
      | false =>
        exact triple_pure_stopped other fun _ hknown ↦ ⟨hknown.1, (hknown.2 rfl).unserved _⟩
  · exact fun _ hpre ↦ hpre.mono fun _ hfact ↦
      ⟨hfact, fun hstopped ↦ absurd hstopped Bool.false_ne_true⟩

theorem triple_waitForProcessToExit (other : U32) (h : LastingHeld pid fact) :
    protocol.Triple pid (Holding pid fact) (waitForProcessToExit other) fun exited ↦
      Holding pid fun host ↦ fact host ∧
        (exited = true → host.Unserved fun served ↦ served.pid = other) := by
  apply triple_rounds h.stable
  · apply (triple_isProcessRunning other h).andThen
    intro running
    cases running with
    | false => exact triple_pure_stopped other fun _ hknown ↦ ⟨hknown.1, hknown.2 rfl⟩
    | true => exact Protocol.Triple.pure fun _ hpre ↦ hpre.mono fun _ hknown ↦ hknown.1
  · exact fun _ hpre ↦ hpre.mono fun _ hfact ↦
      ⟨hfact, fun hexited ↦ absurd hexited Bool.false_ne_true⟩

/-- A stop request is followed by a wait that may find the daemon of the record stopped. -/
theorem triple_request {waiting : U32 → DaemonProgram Bool} (record : DaemonRecord)
    (h : LastingHeld pid fact)
    (hwaiting : protocol.Triple pid (Holding pid fact) (waiting record.pid) fun stopped ↦
      Holding pid fun host ↦ fact host ∧
        (stopped = true → host.Unserved fun served ↦ served.pid = record.pid)) :
    protocol.Triple pid (Holding pid fact)
      (do
        if ← writeStopFile record.token then
          let stopped : Bool ← waiting record.pid
          return some stopped
        else return none)
      fun result ↦ Holding pid fun host ↦ fact host ∧
        (result = some true → host.Unserved fun served ↦ served.pid = record.pid) := by
  apply (triple_writeStopFile record.token h.stable h.stop).andThen
  intro written
  cases written with
  | false =>
    exact Protocol.Triple.pure fun _ hpre ↦ hpre.mono fun _ hfact ↦
      ⟨hfact, fun hresult ↦ by cases hresult⟩
  | true =>
    apply hwaiting.andThen
    intro stopped
    exact Protocol.Triple.pure fun _ hpre ↦ hpre.mono fun _ hknown ↦
      ⟨hknown.1, fun hresult ↦ hknown.2 (Option.some.inj hresult)⟩

theorem triple_forceStopVerified (record : DaemonRecord) (h : LastingHeld pid fact) :
    protocol.Triple pid (Holding pid fact) (forceStopVerified record) fun stopped ↦
      Holding pid fun host ↦ fact host ∧
        (stopped = true → host.Unserved fun served ↦ served.pid = record.pid) := by
  have hrefused : protocol.Triple pid (Holding pid fact) (pure false : DaemonProgram Bool)
      fun stopped ↦ Holding pid fun host ↦ fact host ∧
        (stopped = true → host.Unserved fun served ↦ served.pid = record.pid) :=
    Protocol.Triple.pure fun _ hpre ↦ hpre.mono fun _ hfact ↦
      ⟨hfact, fun hstopped ↦ absurd hstopped Bool.false_ne_true⟩
  apply (triple_readRecord .state h).andThen
  intro answer
  have hread (host : Host) (hpre : Holding pid (fun host ↦ fact host ∧ Reading answer host) host) :
      Holding pid fact host := hpre.mono fun _ hknown ↦ hknown.1
  cases answer with
  | error err => exact hrefused.imp_pre hread
  | ok content =>
    cases content with
    | none =>
      exact Protocol.Triple.pure fun _ hpre ↦ hpre.mono fun _ hknown ↦
        ⟨hknown.1, fun _ ↦ Idle.unserved hknown.2 _⟩
    | some current =>
      by_cases hmatches : recordIdentityMatches current record = true
      · simp only [if_pos hmatches]
        apply ((triple_isProcessRunning record.pid h).imp_pre hread).andThen
        intro running
        cases running with
        | false =>
          exact Protocol.Triple.pure fun _ hpre ↦ hpre.mono fun _ hknown ↦
            ⟨hknown.1, fun _ ↦ hknown.2 rfl⟩
        | true =>
          have hask : protocol.Triple pid (Holding pid fact) (inspectProcessIdentity record)
              fun _ ↦ Holding pid fact :=
            triple_ask (.inspectProcessIdentity record) h.stable fun _ _ ↦ rfl
          apply (hask.imp_pre fun _ hpre ↦ hpre.mono fun _ hknown ↦ hknown.1).andThen
          intro identity
          cases identity with
          | unverified => exact hrefused
          | mismatch => exact hrefused
          | verified =>
            apply (triple_ask (.terminateProcess record.pid) h.stable fun _ _ ↦ rfl).andThen
            intro terminated
            cases terminated with
            | false => exact hrefused
            | true => exact triple_waitForProcessToExit record.pid h
      · simp only [if_neg hmatches]
        exact hrefused.imp_pre hread

theorem triple_stop : protocol.Triple pid (fun _ ↦ True) stop fun _ _ ↦ True := by
  have htrue := lasting_true pid
  have hrelease {fact : Host → Prop} :
      protocol.Triple pid (Holding pid fact) releaseLifecycleLock fun _ _ ↦ True :=
    (triple_releaseLifecycleLock htrue).imp_pre fun _ hpre ↦ hpre.mono fun _ _ ↦ trivial
  have hstopped (record : DaemonRecord) : protocol.Triple pid
      (Holding pid (Stale (some record))) (stop.stopped record) fun _ _ ↦ True :=
    (triple_cleanupRuntimeFilesForRecordUnlocked record (lastingHeld_stale pid (some record))
      fun _ _ hstale ↦ hstale).andThen fun _ ↦ hrelease
  apply (triple_ask .runtimeDirExists htrue.stable fun _ _ ↦ rfl).andThen
  intro present
  cases present with
  | false => exact Protocol.Triple.pure fun _ _ ↦ trivial
  | true =>
    apply (triple_acquireLifecycleLock htrue).andThen
    intro acquired
    cases acquired with
    | false => exact Protocol.Triple.pure fun _ _ ↦ trivial
    | true =>
      apply (triple_inspectStatus htrue.held).andThen
      intro status
      cases status with
      | starting _ => exact hrelease
      | stopped => exact hrelease
      | unowned => exact hrelease
      | stale record =>
        apply ((triple_cleanupStaleFilesUnlocked record).imp_pre fun _ hpre ↦
          hpre.mono fun _ hknown ↦ hknown.2).andThen
        exact fun _ ↦ hrelease
      | running record =>
        apply ((triple_request record htrue.held
          (triple_waitForStop record.pid htrue.held)).imp_pre fun _ hpre ↦
            hpre.mono fun _ _ ↦ trivial).andThen
        intro result
        cases result with
        | none => exact hrelease
        | some graceful =>
          cases graceful with
          | true =>
            exact (hstopped record).imp_pre fun _ hpre ↦
              hpre.mono fun _ hknown ↦ unserved_of_pid (hknown.2 rfl)
          | false =>
            apply ((triple_forceStopVerified record htrue.held).imp_pre fun _ hpre ↦
              hpre.mono fun _ _ ↦ trivial).andThen
            intro forced
            cases forced with
            | true =>
              exact (hstopped record).imp_pre fun _ hpre ↦
                hpre.mono fun _ hknown ↦ unserved_of_pid (hknown.2 rfl)
            | false => exact hrelease
      | runningUnverified record =>
        apply ((triple_request record htrue.held
          (triple_waitForProcessToExit record.pid htrue.held)).imp_pre fun _ hpre ↦
            hpre.mono fun _ _ ↦ trivial).andThen
        intro result
        cases result with
        | none => exact hrelease
        | some exited =>
          cases exited with
          | false => exact hrelease
          | true =>
            have hlasting := lastingHeld_stale pid (some record)
            apply ((triple_cleanupRuntimeFilesForRecordUnlocked record hlasting
              fun _ _ hstale ↦ hstale).imp_pre fun _ hpre ↦
                hpre.mono fun _ hknown ↦ unserved_of_pid (hknown.2 rfl)).andThen
            intro cleaned
            apply (triple_cleanupInvalidStateFilesUnlocked hlasting).andThen
            exact fun _ ↦ hrelease

end Stop

section Run

variable {pid : U32}

theorem triple_serve (token : String) :
    protocol.Triple pid (fun _ ↦ True) (serve token) fun _ _ ↦ True := by
  have htrue := (lasting_true pid).stable
  have hshould : protocol.Triple pid (fun _ ↦ True) (shouldStop token) fun _ _ ↦ True :=
    (triple_ask .readStopFile htrue fun _ _ ↦ rfl).andThen fun _ ↦
      Protocol.Triple.pure fun _ _ ↦ trivial
  apply triple_rounds htrue _ fun _ _ ↦ trivial
  apply hshould.andThen
  intro requested
  cases requested with
  | false => exact Protocol.Triple.pure fun _ _ ↦ trivial
  | true =>
    apply (triple_ask .openLog htrue fun _ _ ↦ rfl).andThen
    exact fun _ ↦ Protocol.Triple.pure fun _ _ ↦ trivial

theorem triple_runDaemon (token : String) (starterPid : U32) (foreground : Bool) {mode : Mode}
    (hmode : mode ≠ .starting) :
    protocol.Triple pid
      (fun host ↦ host.arguments pid = some (.daemon token starterPid foreground))
      (runDaemon pid token starterPid mode) fun _ _ ↦ True := by
  have harguments := lasting_arguments pid pid (.daemon token starterPid foreground)
  have hrelease : protocol.Triple pid (Holding pid fun _ ↦ True) releaseLifecycleLock fun _ _ ↦ True :=
    triple_releaseLifecycleLock (lasting_true pid)
  apply (triple_ask .prepareRuntimeDir harguments.stable fun _ _ ↦ rfl).andThen
  intro prepared
  cases prepared with
  | false => exact Protocol.Triple.pure fun _ _ ↦ trivial
  | true =>
    apply (triple_acquireLifecycleLock harguments).andThen
    intro acquired
    cases acquired with
    | false => exact Protocol.Triple.pure fun _ _ ↦ trivial
    | true =>
      apply (triple_validateStartupLock token starterPid harguments.held).andThen
      intro valid
      cases valid with
      | false => exact hrelease.imp_pre fun _ hpre ↦ hpre.mono fun _ _ ↦ trivial
      | true =>
        have hlasting := (LastingHeld.unserved pid fun _ ↦ True).and harguments.held
        apply ((triple_currentExeString hlasting.stable).imp_pre fun _ hpre ↦
          hpre.mono fun _ hknown ↦ ⟨hknown.2 rfl, hknown.1⟩).andThen
        intro exe
        apply (triple_newRecord token exe mode hlasting.stable).andThen
        intro record
        apply Protocol.Triple.of_pure
        rintro ⟨hpid, rfl, rfl⟩
        apply (triple_writeRecord_lock record hlasting fun _ hknown ↦ hknown.1).andThen
        intro written
        cases written with
        | false => exact hrelease.imp_pre fun _ hpre ↦ hpre.1.mono fun _ _ ↦ trivial
        | true =>
          apply ((triple_writeRecord_state hpid hmode).imp_pre fun _ hpre ↦
            ⟨hpre.1, hpre.2 rfl⟩).andThen
          intro serving
          cases serving with
          | false => exact hrelease
          | true =>
            apply hrelease.andThen
            intro released
            apply (triple_ask .openLog (lasting_true pid).stable fun _ _ ↦ rfl).andThen
            intro opened
            cases opened with
            | false => exact Protocol.Triple.pure fun _ _ ↦ trivial
            | true => exact triple_serve record.token

/-- Whatever a process is launched with, it keeps to the protocol. -/
theorem triple_main : protocol.Triple pid (fun _ ↦ True) (main pid) fun _ _ ↦ True := by
  apply triple_arguments.andThen
  intro answer
  cases answer with
  | none => exact Protocol.Triple.pure fun _ _ ↦ trivial
  | some launched =>
    cases launched with
    | start => exact triple_startBackground.imp_pre fun _ _ ↦ trivial
    | run => exact triple_runForeground.imp_pre fun _ _ ↦ trivial
    | stop => exact triple_stop.imp_pre fun _ _ ↦ trivial
    | daemon token starterPid foreground =>
      cases foreground with
      | true => exact triple_runDaemon token starterPid true (by decide)
      | false => exact triple_runDaemon token starterPid false (by decide)

end Run

/-! ## Runs -/

theorem inv_leftBehind (files : RecordFile → Option Content) (stopFile : Option String)
    (status : U32 → Status) : (leftBehind files stopFile status).shared.Inv where
  files pid record hserves := by cases hserves.2
  own pid record hserving := by cases hserving
  born pid record hserving := by cases hserving
  unborn _ _ := rfl
  issued pid token htoken := by cases htoken

/-- In every run of starts, stops and daemons, from whatever has been left behind, at most one live
process is past its record writes, and both files hold its record. -/
theorem single_daemon_ownership (files : RecordFile → Option Content) (stopFile : Option String)
    (status : U32 → Status) (turns : List (Turn U32 Outcome Event))
    (hmeets : ∀ moment ∈ machine.run (leftBehind files stopFile status) turns,
      machine.Meets assumptions moment) :
    ∀ moment ∈ machine.run (leftBehind files stopFile status) turns,
      moment.before.shared.SingleDaemon ∧ moment.after.shared.SingleDaemon := by
  have hprograms (pid : U32) : protocol.Wp pid ((leftBehind files stopFile status).program pid)
      (fun _ _ ↦ True) (leftBehind files stopFile status).shared := triple_main _ trivial
  have hrun := protocol.run_invariant (inv_leftBehind files stopFile status) hprograms hmeets
  intro moment hmoment
  exact ⟨(hrun moment hmoment).1.singleDaemon, (hrun moment hmoment).2.singleDaemon⟩

/-- A start whose child gets past its record writes. -/
def launchedDaemon : List (Turn U32 Outcome Event) :=
  let outcome : Outcome := { exe := some "ferris-agent-bridge", count := 1, child := 2 }
  .event (.launch 1 .start) ::
    (List.replicate 14 (.step 1 outcome) ++ List.replicate 10 (.step 2 outcome))

theorem single_daemon_ownership_start :
    ∃ moment ∈ machine.run (leftBehind (fun _ ↦ none) none fun _ ↦ .unborn) launchedDaemon,
      (∃ record, moment.after.shared.Serves 2 record) ∧ moment.after.shared.SingleDaemon := by
  have hserves : ∃ moment ∈ machine.run (leftBehind (fun _ ↦ none) none fun _ ↦ .unborn)
      launchedDaemon, moment.after.shared.status 2 = .live ∧
        (moment.after.shared.serving 2).isSome = true := by decide +kernel
  obtain ⟨moment, hmoment, hlive, hserving⟩ := hserves
  obtain ⟨record, hrecord⟩ := Option.isSome_iff_exists.mp hserving
  have hsingle := single_daemon_ownership (fun _ ↦ none) none (fun _ ↦ .unborn) launchedDaemon
    (by decide +kernel) moment hmoment
  exact ⟨moment, hmoment, ⟨record, hlive, hrecord⟩, hsingle.2⟩

end FerrisBridge.Daemon
