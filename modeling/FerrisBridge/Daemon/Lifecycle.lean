import FerrisBridge.Daemon.LifecycleLock

/-!
# Acquiring the lifecycle lock

The code that creates the lock file, recovers the lock of a process that has died, and drops a guard,
as programs over single file operations. The processes share the lock file; what the operating system
answers, and when, is up to the environment.
-/

open Foundations

namespace FerrisBridge

/-! ## The lock file -/

/-- The lock file that a process has created. So much of its contents has been written. -/
structure LockFile where
  pid : U32
  nanos : ℕ
  startedAtUnix : U64
  written : ℕ
  inode : ℕ
  modified : ℕ

def LockFile.token (file : LockFile) : String := generateToken file.pid file.nanos

def LockFile.contents (file : LockFile) : List Char :=
  lifecycleLockContents file.pid file.token file.startedAtUnix

def LockFile.text (file : LockFile) : List Char := file.contents.take file.written

structure FileSnapshot where
  len : ℕ
  modified : ℕ
  inode : ℕ
  deriving DecidableEq

def LockFile.snapshot (file : LockFile) : FileSnapshot :=
  ⟨file.text.length, file.modified, file.inode⟩

/-- How far a process is with a lock of its own: it is creating the file, or has got its guard. -/
inductive LockStage
  | idle
  | creating (token : String)
  | guarding (token : String)
  deriving DecidableEq

/-- The lock file, the clock in nanoseconds, and the processes. The tokens of all lock files so far,
the stages, and the file that each process has created or seen last, are not in the source: they are
there to speak of runs. -/
structure LockDirectory where
  file : Option LockFile
  clock : ℕ
  alive : U32 → Bool
  tokens : List String
  stage : U32 → LockStage
  seen : U32 → Option String

/-- `LIFECYCLE_LOCK_STALE_TTL`, 15 seconds. -/
def lifecycleLockStaleTtl : ℕ := 15000000000

/-! ## File operations -/

inductive LockError
  | alreadyExists
  | timedOut
  | other
  deriving DecidableEq

inductive LockOp
  | createNew
  | writeChunk (token : String)
  | finishWrite (token : String)
  | setPermissions (token : String)
  | stat
  | now
  | read
  | isProcessRunning (pid : U32)
  | isTimedOut
  | countRounds
  | removeFile
  | forget
  deriving DecidableEq

def LockOp.Answer : LockOp → Type
  | createNew => Except LockError String
  | writeChunk _ => Unit
  | finishWrite _ => Bool
  | setPermissions _ => Bool
  | stat => Except LockError (Option FileSnapshot)
  | now => ℕ
  | read => Except LockError (Option (List Char))
  | isProcessRunning _ => Bool
  | isTimedOut => Bool
  | countRounds => ℕ
  | removeFile => Bool
  | forget => Unit

/-- What the environment chooses for an operation: whether the operating system refuses it, the clock
readings and the inode of a new file, how much of a write gets to the disk, and how often a loop
runs. -/
structure LockOutcome where
  refused : Bool := false
  nanos : ℕ := 0
  startedAtUnix : U64 := 0
  inode : ℕ := 0
  amount : ℕ := 0
  timedOut : Bool := false
  count : ℕ := 0

inductive LockEvent
  | tick (elapsed : ℕ)
  | die (pid : U32)

namespace LockDirectory

def setStage (pid : U32) (stage : LockStage) (directory : LockDirectory) : LockDirectory :=
  { directory with stage := Function.update directory.stage pid stage }

/-- A process sees the lock file. -/
def look (pid : U32) (directory : LockDirectory) : LockDirectory :=
  { directory with
    seen := Function.update directory.seen pid (directory.file.map LockFile.token) }

/-- The open file of a process; it may not be at the path any more. -/
def write (token : String) (written : LockFile → ℕ) (directory : LockDirectory) : LockDirectory :=
  { directory with
    file := directory.file.map fun file ↦
      if file.token = token then { file with written := written file, modified := directory.clock }
      else file }

/-- A new lock file, with nothing in it. -/
def create (pid : U32) (outcome : LockOutcome) (directory : LockDirectory) : LockDirectory :=
  let file : LockFile :=
    { pid
      nanos := outcome.nanos
      startedAtUnix := outcome.startedAtUnix
      written := 0
      inode := outcome.inode
      modified := directory.clock }
  { directory with
    file := some file
    tokens := file.token :: directory.tokens
    stage := Function.update directory.stage pid (.creating file.token)
    seen := Function.update directory.seen pid (some file.token) }

def exec (pid : U32) (op : LockOp) (outcome : LockOutcome) (directory : LockDirectory) :
    op.Answer × LockDirectory :=
  match op with
  | .createNew =>
    if outcome.refused then (.error .other, directory)
    else match directory.file with
      | some _ => (.error .alreadyExists, directory)
      | none => (.ok (generateToken pid outcome.nanos), directory.create pid outcome)
  | .writeChunk token => ((), directory.write token fun file ↦ file.written + outcome.amount)
  | .finishWrite token =>
    if outcome.refused then
      (false, directory.write token fun file ↦ file.written + outcome.amount)
    else (true, directory.write token fun file ↦ file.contents.length)
  | .setPermissions token =>
    if outcome.refused then (false, directory)
    else (true, directory.setStage pid (.guarding token))
  | .stat =>
    if outcome.refused then (.error .other, directory)
    else (.ok (directory.file.map LockFile.snapshot), directory.look pid)
  | .now => (directory.clock, directory)
  | .read =>
    if outcome.refused then (.error .other, directory)
    else (.ok (directory.file.map LockFile.text), directory.look pid)
  | .isProcessRunning other => (directory.alive other, directory)
  | .isTimedOut => (outcome.timedOut, directory)
  | .countRounds => (outcome.count, directory)
  | .removeFile =>
    if outcome.refused then (false, directory.setStage pid .idle)
    else (true, { directory.setStage pid .idle with file := none })
  | .forget => ((), directory.setStage pid .idle)

def occur : LockEvent → LockDirectory → LockDirectory
  | .tick elapsed, directory => { directory with clock := directory.clock + elapsed }
  | .die pid, directory => { directory with alive := Function.update directory.alive pid false }

end LockDirectory

/-- Any number of processes on the lock file. -/
def lockMachine : Machine U32 LockDirectory LockOp LockOp.Answer LockOutcome LockEvent where
  running directory pid := directory.alive pid
  exec := LockDirectory.exec
  occur := LockDirectory.occur

/-! ## Programs -/

abbrev LockProgram := Program LockOp LockOp.Answer

namespace LockOp

def run (op : LockOp) : LockProgram op.Answer := Program.perform op

end LockOp

def isProcessRunning (pid : U32) : LockProgram Bool := (LockOp.isProcessRunning pid).run

def countRounds : LockProgram ℕ := LockOp.countRounds.run

namespace FileSnapshot

def fromPath : LockProgram (Except LockError (Option FileSnapshot)) := LockOp.stat.run

/-- The age is asked for after the snapshot was taken. -/
def isStale (snapshot : FileSnapshot) : LockProgram Bool := do
  let now : ℕ ← LockOp.now.run
  return decide (snapshot.modified + lifecycleLockStaleTtl < now)

def matchesPath (snapshot : FileSnapshot) : LockProgram (Except LockError Bool) := do
  match ← fromPath with
  | .ok current => return .ok (decide (current = some snapshot))
  | .error err => return .error err

end FileSnapshot

def readLifecycleLock : LockProgram (Except LockError (Option LifecycleLockContent)) := do
  match ← LockOp.read.run with
  | .ok content => return .ok (content.map parseLifecycleLockContent)
  | .error err => return .error err

/-- `pid.map(is_process_running).unwrap_or(false)`. -/
def isSomeProcessRunning : Option U32 → LockProgram Bool
  | some pid => isProcessRunning pid
  | none => return false

inductive StaleLifecycleLock
  | notStale
  | owned (token : String)
  | incomplete (snapshot : FileSnapshot)

def inspectStaleLifecycleLock : LockProgram StaleLifecycleLock := do
  match ← FileSnapshot.fromPath with
  | .ok (some snapshot) =>
    if ← snapshot.isStale then
      match ← readLifecycleLock with
      | .ok (some (.complete record)) =>
        if ← isProcessRunning record.pid then return .notStale
        else return .owned record.token
      | .ok (some (.incomplete pid)) =>
        if ← isSomeProcessRunning pid then return .notStale else return .incomplete snapshot
      | .ok none => return .incomplete snapshot
      | .error _ => return .incomplete snapshot
    else return .notStale
  | .ok none => return .notStale
  | .error _ => return .notStale

def removeFileIfExists : LockProgram (Except LockError Bool) := do
  let removed : Bool ← LockOp.removeFile.run
  return if removed then .ok true else .error .other

def removeLifecycleLockIfMatches (token : String) : LockProgram (Except LockError Bool) := do
  match ← readLifecycleLock with
  | .ok (some (.complete record)) =>
    if record.token = token then removeFileIfExists else return .ok false
  | .ok _ => return .ok false
  | .error err => return .error err

/-- The second look at the snapshot, and the removal. -/
def removeLifecycleLockIfUnchanged (expected : FileSnapshot) :
    LockProgram (Except LockError Bool) := do
  match ← expected.matchesPath with
  | .ok true => removeFileIfExists
  | .ok false => return .ok false
  | .error err => return .error err

def cleanupIncompleteLifecycleLockIfMatches (expected : FileSnapshot) :
    LockProgram (Except LockError Bool) := do
  match ← expected.matchesPath with
  | .ok true =>
    if ← expected.isStale then
      match ← readLifecycleLock with
      | .ok (some (.complete _)) => return .ok false
      | .ok (some (.incomplete pid)) =>
        if ← isSomeProcessRunning pid then return .ok false
        else removeLifecycleLockIfUnchanged expected
      | .ok none => removeLifecycleLockIfUnchanged expected
      | .error err => return .error err
    else return .ok false
  | .ok false => return .ok false
  | .error err => return .error err

/-- The contents get to the disk in any number of chunks. -/
def writeLifecycleLockContents (token : String) : LockProgram Bool := do
  Program.rounds (do
    (LockOp.writeChunk token).run
    return none) () (← countRounds)
  (LockOp.finishWrite token).run

def setPrivateFilePermissions (token : String) : LockProgram Bool :=
  (LockOp.setPermissions token).run

def createLifecycleLock : LockProgram (Except LockError String) := do
  match ← LockOp.createNew.run with
  | .ok token =>
    if ← writeLifecycleLockContents token then
      if ← setPrivateFilePermissions token then return .ok token
      else abandon
    else abandon
  | .error err => return .error err
where
  abandon : LockProgram (Except LockError String) := do
    let _ ← removeFileIfExists
    return .error .other

/-- `started.elapsed() >= LIFECYCLE_LOCK_TIMEOUT`, which may turn out either way. -/
def isTimedOut : LockProgram Bool := LockOp.isTimedOut.run

/-- One round of the loop of `acquire_lifecycle_lock`. -/
def acquireLifecycleLockRound : LockProgram (Option (Except LockError String)) := do
  match ← createLifecycleLock with
  | .ok token => return some (.ok token)
  | .error .alreadyExists =>
    match ← inspectStaleLifecycleLock with
    | .owned token =>
      let _ ← removeLifecycleLockIfMatches token
      return none
    | .incomplete snapshot =>
      let _ ← cleanupIncompleteLifecycleLockIfMatches snapshot
      return none
    | .notStale =>
      if ← isTimedOut then return some (.error .timedOut) else return none
  | .error err => return some (.error err)

def acquireLifecycleLock : LockProgram (Except LockError String) := do
  Program.rounds acquireLifecycleLockRound (.error .timedOut) (← countRounds)

/-- The guard is dropped. -/
def dropLifecycleLock (token : String) : LockProgram Unit := do
  let _ ← removeLifecycleLockIfMatches token
  LockOp.forget.run

/-- A process that acquires the lock and drops its guard again and again. -/
def useLifecycleLock : LockProgram Unit := do
  Program.rounds (do
    match ← acquireLifecycleLock with
    | .ok token =>
      dropLifecycleLock token
      return none
    | .error _ => return none) () (← countRounds)

/-- The processes at the start, with a lock file that others may have left behind. -/
def lockUsers (file : Option LockFile) (clock : ℕ) (alive : U32 → Bool) :
    Processes U32 LockDirectory LockOp LockOp.Answer where
  shared :=
    { file
      clock
      alive
      tokens := file.toList.map LockFile.token
      stage := fun _ ↦ .idle
      seen := fun _ ↦ none }
  program := fun _ ↦ useLifecycleLock

end FerrisBridge
