import FerrisBridge.Daemon.LifecycleLock

/-!
# Daemon processes and their files

The runtime directory with the record files of the daemon, and the processes that start, run and stop
it, with the single operations that they make on it. The lifecycle lock is taken to be exclusive, a
record is read back as it was written, and the operating system answers truthfully which processes are
running; it may refuse any write or removal, and what it says of the command line of a process is up
to the environment.
-/

open Foundations

namespace FerrisBridge.Daemon

/-! ## Records -/

inductive Mode
  | starting
  | background
  | foreground
  deriving DecidableEq, Repr

structure DaemonRecord where
  pid : U32
  token : String
  exe : String
  startedAtUnix : U64
  mode : Mode
  deriving DecidableEq, Repr

def recordIdentityMatches (left right : DaemonRecord) : Bool :=
  left.pid == right.pid && left.token == right.token &&
    left.startedAtUnix == right.startedAtUnix && left.mode == right.mode

/-- What a record file holds. The mode comes last in a record, so that a record that was not written
to its end does not decode. -/
inductive Content
  | record (record : DaemonRecord)
  | invalid
  deriving DecidableEq, Repr

inductive RecordFile
  | lock
  | state
  deriving DecidableEq, Repr

/-! ## Processes -/

inductive Status
  | unborn
  | live
  | dead
  deriving DecidableEq, Repr

/-- The command of a process. -/
inductive Arguments
  | start
  | run
  | stop
  | daemon (token : String) (starterPid : U32) (foreground : Bool)
  deriving DecidableEq, Repr

/-- The startup token that the internal daemon is launched with. -/
def Arguments.token : Arguments → Option String
  | start => none
  | run => none
  | stop => none
  | daemon token _ _ => some token

/-- The runtime directory and the processes. Who a token was first taken by, and the record of a
process that is past the record writes of the daemon, are not in the source: they are there to speak
of runs. -/
structure Host where
  files : RecordFile → Option Content
  stopFile : Option String
  holder : Option U32
  status : U32 → Status
  arguments : U32 → Option Arguments
  issuer : String → Option U32
  serving : U32 → Option DaemonRecord

inductive ProcessIdentity
  | verified
  | unverified
  | mismatch
  deriving DecidableEq, Repr

/-! ## Operations -/

inductive CreateError
  | alreadyExists
  | other
  deriving DecidableEq, Repr

inductive Op
  | arguments
  | prepareRuntimeDir
  | runtimeDirExists
  | acquireLifecycleLock
  | releaseLifecycleLock
  | readRecord (file : RecordFile)
  | writeNewRecord (record : DaemonRecord)
  | writeRecord (file : RecordFile) (record : DaemonRecord)
  | removeRecordFile (file : RecordFile)
  | stateFileExists
  | readStopFile
  | writeStopFile (token : String)
  | removeStopFile
  | isProcessRunning (pid : U32)
  | inspectProcessIdentity (record : DaemonRecord)
  | terminateProcess (pid : U32)
  | nowUnixSeconds
  | generateToken
  | currentExe
  | openLog
  | spawn (token : String) (foreground : Bool)
  | tryWait (child : U32)
  | kill (child : U32)
  | wait (child : U32)
  | countRounds
  deriving DecidableEq

def Op.Answer : Op → Type
  | arguments => Option Arguments
  | prepareRuntimeDir => Bool
  | runtimeDirExists => Bool
  | acquireLifecycleLock => Bool
  | releaseLifecycleLock => Unit
  | readRecord _ => Except Unit (Option DaemonRecord)
  | writeNewRecord _ => Except CreateError Unit
  | writeRecord _ _ => Bool
  | removeRecordFile _ => Bool
  | stateFileExists => Bool
  | readStopFile => Option String
  | writeStopFile _ => Bool
  | removeStopFile => Bool
  | isProcessRunning _ => Bool
  | inspectProcessIdentity _ => ProcessIdentity
  | terminateProcess _ => Bool
  | nowUnixSeconds => U64
  | generateToken => String
  | currentExe => Option String
  | openLog => Bool
  | spawn _ _ => Option U32
  | tryWait _ => Bool
  | kill _ => Unit
  | wait _ => Bool
  | countRounds => ℕ

/-- How far a write gets that is reported as failed. -/
inductive Reached
  | nothing
  | torn
  | whole
  deriving DecidableEq, Repr

/-- What the environment chooses for an operation. -/
structure Outcome where
  refused : Bool := false
  reached : Reached := .nothing
  text : Option String := none
  nanos : ℕ := 0
  now : U64 := 0
  exe : Option String := none
  identity : ProcessIdentity := .verified
  child : U32 := 0
  success : Bool := true
  count : ℕ := 0

/-- A command is launched by hand, or a process exits or is killed. -/
inductive Event
  | launch (pid : U32) (arguments : Arguments)
  | die (pid : U32)

namespace Host

def setFile (file : RecordFile) (content : Option Content) (host : Host) : Host :=
  { host with files := Function.update host.files file content }

@[simp] theorem files_setFile (file : RecordFile) (content : Option Content) (host : Host) :
    (host.setFile file content).files = Function.update host.files file content := rfl

/-- `read_record`. The text of a record is taken to decode to it, which `Content.ofText_encode` shows of
paths that have no line feed and do not end with a carriage return. -/
def read (file : RecordFile) (host : Host) : Except Unit (Option DaemonRecord) :=
  match host.files file with
  | none => .ok none
  | some (.record record) => .ok (some record)
  | some .invalid => .error ()

/-- The lifecycle lock is free, or its holder has died. -/
def lockIsFree (host : Host) : Bool :=
  host.holder.all fun holder ↦ host.status holder = .dead

/-- `write_new_record` of the lock file: what a failed write leaves is not removed. -/
def writeNewRecord (record : DaemonRecord) (outcome : Outcome) (host : Host) :
    Except CreateError Unit × Host :=
  if outcome.refused ∧ outcome.reached = .nothing then (.error .other, host)
  else match host.files .lock with
    | some _ => (.error .alreadyExists, host)
    | none =>
      if outcome.refused ∧ outcome.reached = .torn then
        (.error .other, host.setFile .lock (some .invalid))
      else if outcome.refused then (.error .other, host.setFile .lock (some (.record record)))
      else (.ok (), host.setFile .lock (some (.record record)))

/-- `write_record`: a temporary file is renamed to the path, on Windows after the removal of the old
file. -/
def writeRecord (file : RecordFile) (record : DaemonRecord) (outcome : Outcome) (host : Host) :
    Bool × Host :=
  if outcome.refused then
    match outcome.reached with
    | .nothing => (false, host)
    | .torn => (false, host.setFile file none)
    | .whole => (false, host.setFile file (some (.record record)))
  else (true, host.setFile file (some (.record record)))

/-- The process gets past its record writes. -/
def serve (pid : U32) (record : DaemonRecord) (host : Host) : Host :=
  { host with serving := Function.update host.serving pid (some record) }

def launch (pid : U32) (arguments : Arguments) (host : Host) : Host :=
  { host with
    status := Function.update host.status pid .live
    arguments := Function.update host.arguments pid (some arguments) }

def kill (pid : U32) (host : Host) : Host :=
  { host with status := Function.update host.status pid .dead }

@[simp] theorem status_launch (pid : U32) (arguments : Arguments) (host : Host) :
    (host.launch pid arguments).status = Function.update host.status pid .live := rfl

@[simp] theorem arguments_launch (pid : U32) (arguments : Arguments) (host : Host) :
    (host.launch pid arguments).arguments =
      Function.update host.arguments pid (some arguments) := rfl

@[simp] theorem status_kill (pid : U32) (host : Host) :
    (host.kill pid).status = Function.update host.status pid .dead := rfl

/-- A token is taken by the process that generates it, or by the daemon that is launched with it. -/
def issue (pid : U32) (token : String) (host : Host) : Host :=
  { host with issuer := Function.update host.issuer token (some pid) }

@[simp] theorem serving_serve (pid : U32) (record : DaemonRecord) (host : Host) :
    (host.serve pid record).serving = Function.update host.serving pid (some record) := rfl

@[simp] theorem issuer_issue (pid : U32) (token : String) (host : Host) :
    (host.issue pid token).issuer = Function.update host.issuer token (some pid) := rfl

def exec (pid : U32) (op : Op) (outcome : Outcome) (host : Host) : op.Answer × Host :=
  match op with
  | .arguments => (host.arguments pid, host)
  | .prepareRuntimeDir => (!outcome.refused, host)
  | .runtimeDirExists => (outcome.success, host)
  | .acquireLifecycleLock =>
    if !outcome.refused && host.lockIsFree then (true, { host with holder := some pid })
    else (false, host)
  | .releaseLifecycleLock =>
    if host.holder = some pid then ((), { host with holder := none }) else ((), host)
  | .readRecord file => (host.read file, host)
  | .writeNewRecord record => host.writeNewRecord record outcome
  | .writeRecord file record =>
    let result := host.writeRecord file record outcome
    -- the state file is the last one that `run_daemon` writes its record to
    (result.1, if file = .state ∧ result.1 then result.2.serve pid record else result.2)
  | .removeRecordFile file =>
    if outcome.refused then (false, host) else (true, host.setFile file none)
  | .stateFileExists => ((host.files .state).isSome, host)
  | .readStopFile => (host.stopFile, host)
  | .writeStopFile token =>
    if outcome.refused then (false, { host with stopFile := outcome.text })
    else (true, { host with stopFile := some token })
  | .removeStopFile =>
    if outcome.refused then (false, host) else (true, { host with stopFile := none })
  | .isProcessRunning other => (decide (host.status other = .live), host)
  | .inspectProcessIdentity _ => (outcome.identity, host)
  | .terminateProcess _ => (!outcome.refused, host)
  | .nowUnixSeconds => (outcome.now, host)
  | .generateToken =>
    (FerrisBridge.generateToken pid outcome.nanos,
      host.issue pid (FerrisBridge.generateToken pid outcome.nanos))
  | .currentExe => (outcome.exe, host)
  | .openLog => (!outcome.refused, host)
  | .spawn token foreground =>
    if outcome.refused then (none, host)
    else (some outcome.child, host.launch outcome.child (.daemon token pid foreground))
  | .tryWait child => (decide (host.status child = .dead), host)
  -- the child is killed at once, or the signal has yet to reach it
  | .kill child => if outcome.refused then ((), host) else ((), host.kill child)
  | .wait _ => (outcome.success, host)
  | .countRounds => (outcome.count, host)

def occur : Event → Host → Host
  | .launch pid arguments, host =>
    match arguments.token with
    | some token => (host.issue pid token).launch pid arguments
    | none => host.launch pid arguments
  | .die pid, host => host.kill pid

end Host

/-- Any number of processes on the runtime directory. -/
def machine : Machine U32 Host Op Op.Answer Outcome Event where
  running host pid := host.status pid = .live
  exec := Host.exec
  occur := Host.occur

abbrev DaemonProgram := Program Op Op.Answer

def Op.run (op : Op) : DaemonProgram op.Answer := Program.perform op

end FerrisBridge.Daemon
