import FerrisBridge.Foundations.Encoding
import FerrisBridge.Foundations.Files
import FerrisBridge.Foundations.Program
import FerrisBridge.Foundations.Storage
import FerrisBridge.Foundations.Word

/-!
# Writing a file

The atomic replacement of a file as a program over single operations of the file system, in the
directory of the file. Any number of threads and processes write it at once; a process may exit and the
machine may crash between any two operations, and every operation may fail.
-/

open Foundations

namespace FerrisBridge.Persistence

/-! ## Errors -/

inductive ErrorKind
  | notFound
  | alreadyExists
  | other
  deriving DecidableEq, Repr

structure IoError where
  kind : ErrorKind
  message : String
  deriving DecidableEq, Repr

abbrev IoResult (α : Type) : Type := Except IoError α

abbrev Bytes : Type := List UInt8

/-! ## Writers -/

/-- A process of one boot of the machine. Processes of different boots may have the same id, and so
may processes of one boot, one after the other. -/
structure Process where
  boot : ℕ
  started : ℕ
  id : U32
  deriving DecidableEq, Repr

/-- A thread of a process. -/
structure Writer where
  process : Process
  thread : ℕ
  deriving DecidableEq, Repr

/-- A temporary name and what it was made of. -/
structure Draw where
  writer : Writer
  nanos : ℕ
  sequence : U64
  path : PathBuf
  deriving DecidableEq

inductive FileKind
  | directory
  | other
  deriving DecidableEq, Repr

/-- The directory of the file, which may be missing or lose its own entry in a crash, and the processes.
What follows the counters of temporary files is not in the source: it is there to speak of runs. It
keeps the temporary names, who created each file, when a file replaced the one under the path, the
contents that were there one after the other, how many of them are out of danger, which of them each
writer last saw or put there, and what callers have been told. -/
structure Volume where
  parent : Option FileKind
  anchored : Bool
  directory : Directory PathBuf UInt8
  boot : ℕ
  exited : Process → Bool
  nextTempFile : Process → U64
  drawn : List Draw
  author : ℕ → Option Writer
  rank : ℕ → ℕ
  replaced : List (Option Bytes)
  confirmed : ℕ
  latest : Writer → ℕ
  acknowledged : List (ℕ × Option Bytes)

namespace Volume

/-- The directory cannot be lost in a crash. -/
def Anchored (volume : Volume) : Prop :=
  volume.parent = some .directory ∧ volume.anchored = true

instance (volume : Volume) : Decidable volume.Anchored := inferInstanceAs (Decidable (_ ∧ _))

def Running (volume : Volume) (writer : Writer) : Prop :=
  writer.process.boot = volume.boot ∧ volume.exited writer.process = false

instance (volume : Volume) (writer : Writer) : Decidable (volume.Running writer) :=
  inferInstanceAs (Decidable (_ ∧ _))

/-- The process has exited, or belonged to an earlier boot. -/
def Dead (volume : Volume) (writer : Writer) : Prop :=
  writer.process.boot < volume.boot ∨ volume.exited writer.process = true

/-- When the file of an entry replaced the one before it; what is there first has number zero. -/
def rankOf (volume : Volume) (entry : Option ℕ) : ℕ := entry.elim 0 volume.rank

/-- The number of the content under the path. -/
def current (volume : Volume) (path : PathBuf) : ℕ := volume.rankOf (volume.directory.entries path)

end Volume

/-! ## Operations -/

inductive Op
  | metadata
  | createPrivateDir
  | tempPathFor
  | openPrivateNewFile (path : PathBuf)
  | setPrivateFilePermissions (file : ℕ)
  | writeAll (file : ℕ) (bytes : Bytes)
  | syncAll (file : ℕ)
  | rename (source target : PathBuf)
  | syncParent
  | removeFile (path : PathBuf)
  | tryExists
  | readToString
  | unixSecondsNow
  | reportWritten (bytes : Bytes)
  | reportConfirmed
  deriving DecidableEq

/-- The metadata tell whether there is a directory. -/
def Op.Answer : Op → Type
  | metadata => IoResult Bool
  | createPrivateDir => IoResult Unit
  | tempPathFor => PathBuf
  | openPrivateNewFile _ => IoResult ℕ
  | setPrivateFilePermissions _ => IoResult Unit
  | writeAll _ _ => IoResult Unit
  | syncAll _ => IoResult Unit
  | rename _ _ => IoResult Unit
  | syncParent => IoResult Unit
  | removeFile _ => IoResult Unit
  | tryExists => IoResult Bool
  | readToString => IoResult String
  | unixSecondsNow => U64
  | reportWritten _ => Unit
  | reportConfirmed => Unit

/-- What the environment chooses for an operation: whether it fails, how much of a failed write reaches
the file, and the time. -/
structure Outcome where
  failure : Option IoError := none
  written : ℕ := 0
  nanos : ℕ := 0
  now : U64 := 0

/-- A process exits or is killed, or the machine crashes. -/
inductive Incident
  | exit (process : Process)
  | crash (loss : Loss PathBuf UInt8) (losesDirectory : Bool)

def notFound : IoError := ⟨.notFound, "No such file or directory (os error 2)"⟩

def tempFileName (fileName : String) (id : U32) (nanos : ℕ) (sequence : U64) : String :=
  s!".{fileName}.tmp.{id.toNat}.{nanos}.{sequence.toNat}"

def tempPathFor (path : PathBuf) (id : U32) (nanos : ℕ) (sequence : U64) : PathBuf :=
  path.withFileName (tempFileName (path.fileName.getD "runtime-state") id nanos sequence)

namespace Volume

def metadata (volume : Volume) : IoResult Bool :=
  match volume.parent with
  | none => .error notFound
  | some kind => .ok (kind = .directory)

/-- The directory is made with all that are missing above it; one that exists is left. -/
def createPrivateDir (volume : Volume) : IoResult Unit × Volume :=
  match volume.parent with
  | none => (.ok (), { volume with parent := some .directory, anchored := false })
  | some .directory => (.ok (), volume)
  | some .other => (.error ⟨.alreadyExists, "File exists (os error 17)"⟩, volume)

/-- The counter is the process's own. -/
def drawTempPath (path : PathBuf) (writer : Writer) (nanos : ℕ) (volume : Volume) : PathBuf × Volume :=
  let sequence := volume.nextTempFile writer.process
  let temp := tempPathFor path writer.process.id nanos sequence
  (temp, { volume with
    nextTempFile := Function.update volume.nextTempFile writer.process (sequence.wrappingAdd 1)
    drawn := ⟨writer, nanos, sequence, temp⟩ :: volume.drawn })

def openPrivateNewFile (temp : PathBuf) (writer : Writer) (volume : Volume) : IoResult ℕ × Volume :=
  if volume.parent ≠ some .directory then (.error notFound, volume)
  else if (volume.directory.entries temp).isSome then
    (.error ⟨.alreadyExists, "File exists (os error 17)"⟩, volume)
  else (.ok volume.directory.next, { volume with
    directory := volume.directory.create temp
    author := Function.update volume.author volume.directory.next (some writer) })

def setDirectory (directory : Directory PathBuf UInt8) (volume : Volume) : Volume :=
  { volume with directory }

/-- `fs::rename`, which replaces what the target stands for. -/
def rename (path : PathBuf) (writer : Writer) (source target : PathBuf) (volume : Volume) :
    IoResult Unit × Volume :=
  match volume.directory.entries source with
  | none => (.error notFound, volume)
  | some file =>
    let renamed := volume.setDirectory (volume.directory.rename source target)
    (.ok (), if target = path then
      { renamed with
        rank := Function.update volume.rank file volume.replaced.length
        replaced := volume.replaced ++ [some (volume.directory.files file).content]
        latest := Function.update volume.latest writer volume.replaced.length }
      else renamed)

/-- The directory is opened and its entries are stored. -/
def syncParent (path : PathBuf) (volume : Volume) : IoResult Unit × Volume :=
  if volume.parent ≠ some .directory then (.error notFound, volume)
  else (.ok (), { volume with
    directory := volume.directory.storeEntries
    confirmed := if volume.Anchored then volume.current path else volume.confirmed })

def removeFile (temp : PathBuf) (volume : Volume) : IoResult Unit × Volume :=
  match volume.directory.entries temp with
  | none => (.error notFound, volume)
  | some _ => (.ok (), volume.setDirectory (volume.directory.remove temp))

def tryExists (path : PathBuf) (writer : Writer) (volume : Volume) : IoResult Bool × Volume :=
  (.ok (volume.directory.entries path).isSome,
    { volume with latest := Function.update volume.latest writer (volume.current path) })

/-- `fs::read_to_string`. Only a missing file is reported as not found. -/
def readToString (path : PathBuf) (failure : Option IoError) (volume : Volume) : IoResult String :=
  match volume.directory.read path, failure with
  | none, none => .error notFound
  | some bytes, none =>
    match String.fromUTF8? ⟨bytes.toArray⟩ with
    | some text => .ok text
    | none => .error ⟨.other, "stream did not contain valid UTF-8"⟩
  | _, some err => .error ⟨.other, err.message⟩

/-- The caller is told that a content is there to stay, which is promised while the directory is. -/
def acknowledge (writer : Writer) (content : Option Bytes) (volume : Volume) : Volume :=
  if volume.Anchored then
    { volume with acknowledged := (volume.latest writer, content) :: volume.acknowledged }
  else volume

/-- A failed operation leaves the directory, except for a part of a write. -/
def exec (path : PathBuf) (writer : Writer) (op : Op) (outcome : Outcome) (volume : Volume) :
    op.Answer × Volume :=
  match op with
  | .metadata =>
    match outcome.failure with
    | some err => (.error err, volume)
    | none => (volume.metadata, volume)
  | .createPrivateDir =>
    match outcome.failure with
    | some err => (.error err, volume)
    | none => volume.createPrivateDir
  | .tempPathFor => volume.drawTempPath path writer outcome.nanos
  | .openPrivateNewFile temp =>
    match outcome.failure with
    | some err => (.error err, volume)
    | none => volume.openPrivateNewFile temp writer
  | .setPrivateFilePermissions _ =>
    match outcome.failure with
    | some err => (.error err, volume)
    | none => (.ok (), volume)
  | .writeAll file bytes =>
    match outcome.failure with
    | some err =>
      (.error err, volume.setDirectory (volume.directory.append file (bytes.take outcome.written)))
    | none => (.ok (), volume.setDirectory (volume.directory.append file bytes))
  | .syncAll file =>
    match outcome.failure with
    | some err => (.error err, volume)
    | none => (.ok (), volume.setDirectory (volume.directory.store file))
  | .rename source target =>
    match outcome.failure with
    | some err => (.error err, volume)
    | none => volume.rename path writer source target
  | .syncParent =>
    match outcome.failure with
    | some err => (.error err, volume)
    | none => volume.syncParent path
  | .removeFile temp =>
    match outcome.failure with
    | some err => (.error err, volume)
    | none => volume.removeFile temp
  | .tryExists =>
    match outcome.failure with
    | some err => (.error err, volume)
    | none => volume.tryExists path writer
  | .readToString => (volume.readToString path outcome.failure, volume)
  | .unixSecondsNow => (outcome.now, volume)
  | .reportWritten bytes => ((), volume.acknowledge writer (some bytes))
  | .reportConfirmed =>
    ((), volume.acknowledge writer ((volume.replaced[volume.latest writer]?).getD none))

/-- A crash ends all processes. -/
def occur (incident : Incident) (volume : Volume) : Volume :=
  match incident with
  | .exit process => { volume with exited := Function.update volume.exited process true }
  | .crash loss losesDirectory =>
    if losesDirectory ∧ ¬volume.Anchored then
      { volume with directory := volume.directory.clear, parent := none, boot := volume.boot + 1 }
    else
      { volume with
        directory := volume.directory.crash loss, anchored := true, boot := volume.boot + 1 }

end Volume

/-- Any number of writers of the file at a path. -/
def machine (path : PathBuf) : Machine Writer Volume Op Op.Answer Outcome Incident where
  running volume writer := volume.Running writer
  exec := Volume.exec path
  occur := Volume.occur

/-! ## Programs -/

abbrev FileProgram := Program Op Op.Answer

/-- A program that ends early with an error. -/
abbrev FallibleProgram := ExceptT IoError FileProgram

/-- An operation that may fail. -/
def fallible {α : Type} (program : FileProgram (IoResult α)) : FallibleProgram α := ExceptT.mk program

def Op.run (op : Op) : FileProgram op.Answer := Program.perform op

def nonEmptyParent (path : PathBuf) : Option PathBuf :=
  path.pop.filter fun parent ↦ ¬parent.Same .empty

def ensurePrivateParentDir (parent : PathBuf) : FileProgram (IoResult Unit) := do
  match ← Op.metadata.run with
  | .ok true => return .ok ()
  | .ok false =>
    return .error ⟨.alreadyExists, s!"{parent.display} exists and is not a directory"⟩
  | .error err => if err.kind = .notFound then Op.createPrivateDir.run else return .error err

/-- The parent is there whenever the path has one that is not empty. -/
def syncParent (path : PathBuf) : FileProgram (IoResult Unit) :=
  match nonEmptyParent path with
  | some _ => Op.syncParent.run
  | none => return .ok ()

/-- The part of a write after which the temporary file is cleaned up. -/
def writeAndReplace (path temp : PathBuf) (encoded : Bytes) : FallibleProgram Unit := do
  let file ← fallible (Op.openPrivateNewFile temp).run
  fallible (Op.setPrivateFilePermissions file).run
  fallible (Op.writeAll file encoded).run
  fallible (Op.syncAll file).run
  fallible (Op.rename temp path).run
  fallible (syncParent path)

/-- The value is encoded by the caller, with a newline at the end. -/
def writeJsonAtomic (path : PathBuf) (encoded : IoResult Bytes) : FallibleProgram Unit := do
  match nonEmptyParent path with
  | some parent => fallible (ensurePrivateParentDir parent)
  | none => pure ()
  let temp ← ExceptT.lift Op.tempPathFor.run
  let encoded ← fallible (pure encoded)
  let writeResult ← ExceptT.lift (writeAndReplace path temp encoded).run
  match writeResult with
  | .ok _ => pure ()
  | .error err =>
    let _ ← ExceptT.lift (Op.removeFile temp).run
    throw err

def confirmExistingFileDurable (path : PathBuf) : FallibleProgram Unit := do
  if ← fallible (α := Bool) Op.tryExists.run then fallible (syncParent path)

/-! ## Callers -/

/-- What a writer is asked to do. -/
inductive Task
  | write (encoded : IoResult Bytes)
  | confirm

/-- The caller hears of a result that is no error. -/
def Task.run (path : PathBuf) : Task → FileProgram Unit
  | write encoded => do
    match ← (writeJsonAtomic path encoded).run, encoded with
    | .ok _, .ok bytes => (Op.reportWritten bytes).run
    | _, _ => return ()
  | confirm => do
    match ← (confirmExistingFileDurable path).run with
    | .ok _ => Op.reportConfirmed.run
    | .error _ => return ()

/-- A writer works on its tasks one after the other. -/
def runTasks (path : PathBuf) : List Task → FileProgram Unit
  | [] => return ()
  | task :: tasks => do
    task.run path
    runTasks path tasks

end FerrisBridge.Persistence
