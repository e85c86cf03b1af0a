import FerrisBridge.Daemon.Host

/-!
# The daemon commands

`start`, `run`, `stop` and the internal daemon as programs over single operations. What they print is
left out.
-/

open Foundations

namespace FerrisBridge.Daemon

/-! ## Operations -/

/-- What the process was launched with. -/
def arguments : DaemonProgram (Option Arguments) := Op.arguments.run

def prepareRuntimeDir : DaemonProgram Bool := Op.prepareRuntimeDir.run

def runtimeDirExists : DaemonProgram Bool := Op.runtimeDirExists.run

def acquireLifecycleLock : DaemonProgram Bool := Op.acquireLifecycleLock.run

/-- The guard is dropped. -/
def releaseLifecycleLock : DaemonProgram Unit := Op.releaseLifecycleLock.run

def readRecord (file : RecordFile) : DaemonProgram (Except Unit (Option DaemonRecord)) :=
  (Op.readRecord file).run

def writeNewRecord (record : DaemonRecord) : DaemonProgram (Except CreateError Unit) :=
  (Op.writeNewRecord record).run

def writeRecord (file : RecordFile) (record : DaemonRecord) : DaemonProgram Bool :=
  (Op.writeRecord file record).run

def removeRecordFile (file : RecordFile) : DaemonProgram Bool := (Op.removeRecordFile file).run

def stateFileExists : DaemonProgram Bool := Op.stateFileExists.run

def readStopFile : DaemonProgram (Option String) := Op.readStopFile.run

def writeStopFile (token : String) : DaemonProgram Bool := (Op.writeStopFile token).run

def removeStopFile : DaemonProgram Bool := Op.removeStopFile.run

def isProcessRunning (pid : U32) : DaemonProgram Bool := (Op.isProcessRunning pid).run

def inspectProcessIdentity (record : DaemonRecord) : DaemonProgram ProcessIdentity :=
  (Op.inspectProcessIdentity record).run

def terminateProcess (pid : U32) : DaemonProgram Bool := (Op.terminateProcess pid).run

def nowUnixSeconds : DaemonProgram U64 := Op.nowUnixSeconds.run

def generateToken : DaemonProgram String := Op.generateToken.run

def currentExe : DaemonProgram (Option String) := Op.currentExe.run

def openLog : DaemonProgram Bool := Op.openLog.run

def spawn (token : String) (foreground : Bool) : DaemonProgram (Option U32) :=
  (Op.spawn token foreground).run

def tryWait (child : U32) : DaemonProgram Bool := (Op.tryWait child).run

def kill (child : U32) : DaemonProgram Unit := (Op.kill child).run

def wait (child : U32) : DaemonProgram Bool := (Op.wait child).run

/-- A loop with a timeout, or without an end, runs for any number of rounds. -/
def countRounds : DaemonProgram ℕ := Op.countRounds.run

def currentExeString : DaemonProgram String := do
  return (← currentExe).getD "ferris-agent-bridge"

def DaemonRecord.new (pid : U32) (token exe : String) (mode : Mode) : DaemonProgram DaemonRecord := do
  return { pid, token, exe, startedAtUnix := ← nowUnixSeconds, mode }

/-! ## Status -/

/-- `STARTING_LOCK_TTL` in seconds. -/
def startingLockTtl : ℕ := 15

def startingLockIsLive (record : DaemonRecord) : DaemonProgram Bool := do
  let now : U64 ← nowUnixSeconds
  if now.toNat - record.startedAtUnix.toNat ≤ startingLockTtl then isProcessRunning record.pid
  else return false

inductive DaemonStatus
  | starting (record : DaemonRecord)
  | running (record : DaemonRecord)
  | runningUnverified (record : DaemonRecord)
  | stopped
  | stale (record : Option DaemonRecord)
  | unowned

def inspectRecordStatus (record : DaemonRecord) : DaemonProgram DaemonStatus := do
  if ← isProcessRunning record.pid then
    match ← inspectProcessIdentity record with
    | .verified => return .running record
    | .unverified => return .runningUnverified record
    | .mismatch => return .unowned
  else return .stale (some record)

inductive StateFileIssue
  | missing
  | invalid
  deriving DecidableEq

def inspectLockWithoutState (stateIssue : StateFileIssue) : DaemonProgram DaemonStatus := do
  match ← readRecord .lock with
  | .ok (some record) =>
    if record.mode = .starting then
      if ← startingLockIsLive record then return .starting record
      else return .stale (some record)
    else
      match ← inspectRecordStatus record with
      | .running record => return .runningUnverified record
      | .unowned => return .runningUnverified record
      | other => return other
  | .ok none => if stateIssue = .missing then return .stopped else return .stale none
  | .error _ => return .stale none

def inspectStatus : DaemonProgram DaemonStatus := do
  match ← readRecord .state with
  | .ok (some record) => inspectRecordStatus record
  | .ok none => inspectLockWithoutState .missing
  | .error _ => inspectLockWithoutState .invalid

/-! ## Cleanup -/

/-- Whether the file is to be removed, or the error of its removal. -/
def removeRecordFileIfMatchesUnlocked (file : RecordFile) (expected : DaemonRecord) :
    DaemonProgram (Except Unit Bool) := do
  match ← readRecord file with
  | .ok (some record) =>
    if recordIdentityMatches record expected then
      if ← removeRecordFile file then return .ok true else return .error ()
    else return .ok false
  | .ok none => return .ok false
  | .error _ => return .ok false

def removeRecordFileIfTokenUnlocked (file : RecordFile) (token : String) : DaemonProgram Unit := do
  match ← readRecord file with
  | .ok (some record) =>
    if record.token = token then
      let _ ← removeRecordFile file
      return ()
    else return ()
  | .ok none => return ()
  | .error _ => return ()

/-- `content.trim()`. -/
def trim (content : String) : String :=
  String.ofList
    ((content.toList.dropWhile isWhitespace).reverse.dropWhile isWhitespace).reverse

def removeStopFileIfMatchesUnlocked (token : String) : DaemonProgram Unit := do
  if (← readStopFile).any fun content ↦ trim content = token then
    let _ ← removeStopFile
    return ()
  else return ()

def shouldStop (token : String) : DaemonProgram Bool := do
  return (← readStopFile).any fun content ↦ trim content = token

def cleanupStateFilesForRecordUnlocked (record : DaemonRecord) : DaemonProgram Unit := do
  let _ ← removeRecordFileIfMatchesUnlocked .state record
  removeStopFileIfMatchesUnlocked record.token

def cleanupRuntimeFilesForRecordUnlocked (record : DaemonRecord) : DaemonProgram Unit := do
  let _ ← removeRecordFileIfMatchesUnlocked .lock record
  cleanupStateFilesForRecordUnlocked record

def cleanupRuntimeFilesForTokenUnlocked (token : String) : DaemonProgram Unit := do
  removeRecordFileIfTokenUnlocked .lock token
  removeRecordFileIfTokenUnlocked .state token
  removeStopFileIfMatchesUnlocked token

def cleanupRuntimeFilesForToken (token : String) : DaemonProgram Unit := do
  if ← acquireLifecycleLock then
    cleanupRuntimeFilesForTokenUnlocked token
    releaseLifecycleLock
  else return ()

def cleanupInvalidStateFilesUnlocked : DaemonProgram Unit := do
  match ← readRecord .state with
  | .ok _ => return ()
  | .error _ =>
    let _ ← removeRecordFile .state
    let _ ← removeStopFile
    return ()

def cleanupStaleFilesUnlocked : Option DaemonRecord → DaemonProgram Unit
  | some record => cleanupRuntimeFilesForRecordUnlocked record
  | none => cleanupInvalidStateFilesUnlocked

/-! ## Startup -/

inductive StartLockStatus
  | live
  | stale (record : Option DaemonRecord)
  | dangerous

def inspectStartLock : DaemonProgram StartLockStatus := do
  match ← readRecord .lock with
  | .ok (some record) =>
    if record.mode = .starting then
      if ← startingLockIsLive record then return .live else return .stale (some record)
    else if ← isProcessRunning record.pid then
      match ← inspectProcessIdentity record with
      | .verified => return .live
      | .unverified => return .live
      | .mismatch => return .dangerous
    else return .stale (some record)
  | .ok none => return .stale none
  | .error _ => return .dangerous

/-- One round of the loop of `acquire_start_lock`. -/
def acquireStartLockRound (record : DaemonRecord) : DaemonProgram (Option Bool) := do
  match ← writeNewRecord record with
  | .ok () => return some true
  | .error .alreadyExists =>
    match ← inspectStartLock with
    | .live => return some false
    | .dangerous => return some false
    | .stale none => return none
    | .stale (some stale) =>
      match ← removeRecordFileIfMatchesUnlocked .lock stale with
      | .ok _ => return none
      | .error _ => return some false
  | .error .other => return some false

def acquireStartLock (pid : U32) (token : String) : DaemonProgram Bool := do
  let exe : String ← currentExeString
  let record : DaemonRecord ← DaemonRecord.new pid token exe .starting
  Program.rounds (acquireStartLockRound record) false (← countRounds)

def validateStartupLock (token : String) (starterPid : U32) : DaemonProgram Bool := do
  match ← readRecord .lock with
  | .ok (some record) =>
    if record.mode ≠ .starting then return false
    else if record.token ≠ token then return false
    else if record.pid ≠ starterPid then return false
    else isProcessRunning starterPid
  | .ok none => return false
  | .error _ => return false

/-! ## Commands -/

inductive StartPreparation
  | refused
  | alreadyRunning
  | ready (token : String)

def prepareStart (pid : U32) : DaemonProgram StartPreparation := do
  if ← prepareRuntimeDir then
    if ← acquireLifecycleLock then
      match ← inspectStatus with
      | .starting _ => leave .refused
      | .running _ => leave .alreadyRunning
      | .runningUnverified _ => leave .alreadyRunning
      | .unowned => leave .refused
      | .stale record =>
        cleanupStaleFilesUnlocked record
        enter
      | .stopped => enter
    else return .refused
  else return .refused
where
  leave (result : StartPreparation) : DaemonProgram StartPreparation := do
    releaseLifecycleLock
    return result
  enter : DaemonProgram StartPreparation := do
    let token : String ← generateToken
    if ← acquireStartLock pid token then return .ready token else leave .refused

/-- The cleanup guard of a start that fails before its child is spawned. -/
def abandonStart (token : String) : DaemonProgram Unit := do
  cleanupRuntimeFilesForTokenUnlocked token
  releaseLifecycleLock

def readyRecordMatches (file : RecordFile) (pid : U32) (token : String) :
    DaemonProgram (Except Unit Bool) := do
  match ← readRecord file with
  | .ok (some record) =>
    return .ok (record.pid = pid ∧ record.token = token ∧ record.mode ≠ .starting)
  | .ok none => return .ok false
  | .error _ => return .error ()

def waitForRunning (pid : U32) (token : String) : DaemonProgram Bool := do
  Program.rounds (do
    if ← isProcessRunning pid then
      match ← readyRecordMatches .lock pid token with
      | .error _ => return some false
      | .ok false => return none
      | .ok true =>
        match ← readyRecordMatches .state pid token with
        | .error _ => return some false
        | .ok false => return none
        | .ok true => return some true
    else return some false) false (← countRounds)

def waitForChildExit (child : U32) : DaemonProgram Bool := do
  Program.rounds (do
    if ← tryWait child then return some true else return none) false (← countRounds)

def cleanupFailedStart (child : U32) (token : String) : DaemonProgram Unit := do
  let _ ← writeStopFile token
  if ← waitForChildExit child then cleanupRuntimeFilesForToken token
  else
    kill child
    let _ ← wait child
    cleanupRuntimeFilesForToken token

def waitForStartReady (child : U32) (token : String) : DaemonProgram Bool := do
  if ← waitForRunning child token then return true
  else
    cleanupFailedStart child token
    return false

def startBackground (pid : U32) : DaemonProgram Unit := do
  match ← prepareStart pid with
  | .refused => return ()
  | .alreadyRunning => return ()
  | .ready token =>
    if (← currentExe).isSome then
      if ← openLog then
        match ← spawn token false with
        | some child =>
          releaseLifecycleLock
          let _ ← waitForStartReady child token
          return ()
        | none => abandonStart token
      else abandonStart token
    else abandonStart token

def runForeground (pid : U32) : DaemonProgram Unit := do
  match ← prepareStart pid with
  | .refused => return ()
  | .alreadyRunning => return ()
  | .ready token =>
    if (← currentExe).isSome then
      match ← spawn token true with
      | some child =>
        releaseLifecycleLock
        if ← waitForStartReady child token then
          if ← wait child then return () else cleanupRuntimeFilesForToken token
        else return ()
      | none => abandonStart token
    else abandonStart token

def waitForStop (pid : U32) : DaemonProgram Bool := do
  Program.rounds (do
    if ← isProcessRunning pid then
      if ← stateFileExists then return none else return some true
    else return some true) false (← countRounds)

def waitForProcessToExit (pid : U32) : DaemonProgram Bool := do
  Program.rounds (do
    if ← isProcessRunning pid then return none else return some true) false (← countRounds)

/-- Whether the daemon has stopped in time; none when the request cannot be written. -/
def requestGracefulStop (record : DaemonRecord) : DaemonProgram (Option Bool) := do
  if ← writeStopFile record.token then
    let stopped : Bool ← waitForStop record.pid
    return some stopped
  else return none

def requestGracefulStopForUnverifiedRecord (record : DaemonRecord) :
    DaemonProgram (Option Bool) := do
  if ← writeStopFile record.token then
    let stopped : Bool ← waitForProcessToExit record.pid
    return some stopped
  else return none

def forceStopVerified (record : DaemonRecord) : DaemonProgram Bool := do
  match ← readRecord .state with
  | .ok (some current) =>
    if recordIdentityMatches current record then
      if ← isProcessRunning record.pid then
        match ← inspectProcessIdentity record with
        | .verified =>
          if ← terminateProcess record.pid then waitForProcessToExit record.pid else return false
        | .unverified => return false
        | .mismatch => return false
      else return true
    else return false
  | .ok none => return true
  | .error _ => return false

def stop : DaemonProgram Unit := do
  if ← runtimeDirExists then
    if ← acquireLifecycleLock then
      match ← inspectStatus with
      | .starting _ => releaseLifecycleLock
      | .running record =>
        match ← requestGracefulStop record with
        | none => releaseLifecycleLock
        | some true => stopped record
        | some false =>
          if ← forceStopVerified record then stopped record else releaseLifecycleLock
      | .runningUnverified record =>
        match ← requestGracefulStopForUnverifiedRecord record with
        | some true =>
          cleanupRuntimeFilesForRecordUnlocked record
          cleanupInvalidStateFilesUnlocked
          releaseLifecycleLock
        | some false => releaseLifecycleLock
        | none => releaseLifecycleLock
      | .stopped => releaseLifecycleLock
      | .stale record =>
        cleanupStaleFilesUnlocked record
        releaseLifecycleLock
      | .unowned => releaseLifecycleLock
    else return ()
  else return ()
where
  stopped (record : DaemonRecord) : DaemonProgram Unit := do
    cleanupRuntimeFilesForRecordUnlocked record
    releaseLifecycleLock

/-- The loop of `run_daemon`. -/
def serve (token : String) : DaemonProgram Unit := do
  Program.rounds (do
    if ← shouldStop token then
      let _ ← openLog
      return some ()
    else return none) () (← countRounds)

def runDaemon (pid : U32) (token : String) (starterPid : U32) (mode : Mode) :
    DaemonProgram Unit := do
  if ← prepareRuntimeDir then
    if ← acquireLifecycleLock then
      if ← validateStartupLock token starterPid then
        let exe : String ← currentExeString
        let record : DaemonRecord ← DaemonRecord.new pid token exe mode
        if ← writeRecord .lock record then
          if ← writeRecord .state record then
            releaseLifecycleLock
            if ← openLog then serve token else return ()
          else releaseLifecycleLock
        else releaseLifecycleLock
      else releaseLifecycleLock
    else return ()
  else return ()

/-- What a process runs, once it has been launched. -/
def main (pid : U32) : DaemonProgram Unit := do
  match ← arguments with
  | some .start => startBackground pid
  | some .run => runForeground pid
  | some .stop => stop
  | some (.daemon token starterPid foreground) =>
    runDaemon pid token starterPid (if foreground then .foreground else .background)
  | none => return ()

/-- The processes before any of the commands is launched, among others that may be running, with what
has been left behind in the runtime directory. -/
def leftBehind (files : RecordFile → Option Content) (stopFile : Option String)
    (status : U32 → Status) : Processes U32 Host Op Op.Answer where
  shared :=
    { files
      stopFile
      holder := none
      status
      arguments := fun _ ↦ none
      issuer := fun _ ↦ none
      serving := fun _ ↦ none }
  program := main

end FerrisBridge.Daemon
