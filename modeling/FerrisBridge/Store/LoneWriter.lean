import FerrisBridge.Foundations.CrashLogic
import FerrisBridge.Store.AtomicWrite

/-!
# A writer that is alone

What a write does to the file when no other writer interferes: it replaces the content and leaves no
other one to a crash, or it fails and leaves the file, or it fails once the content is replaced, when a
crash may still leave an old one. A writer that is cut off leaves one of these behind. Nothing is assumed
of temporary names here, since a name that is taken only makes a write fail.
-/

open Foundations

namespace FerrisBridge.Persistence

/-- The content under the path, and the contents that a crash may leave of it. -/
structure Volume.Holds (volume : Volume) (path : PathBuf) (shown : Option Bytes)
    (left : Option Bytes → Prop) : Prop where
  anchored : volume.Anchored
  bounded : volume.directory.Bounded
  solid : volume.directory.Solid path
  shown : volume.directory.read path = shown
  left : ∀ entry ∈ volume.directory.possible path, left (volume.directory.contentOf entry)
  missing : volume.directory.entries path = none →
    ∀ entry ∈ volume.directory.possible path, entry = none

/-- A temporary file with a content. -/
structure Volume.Prepares (volume : Volume) (path temp : PathBuf) (file : ℕ)
    (value : StoredFile UInt8) : Prop where
  entry : volume.directory.entries temp = some file
  apart : volume.directory.Apart path file
  value : volume.directory.files file = value

namespace Volume.Holds

variable {path temp : PathBuf} {volume : Volume} {file : ℕ} {shown : Option Bytes}
  {left left' : Option Bytes → Prop} {bytes : Bytes}

theorem mono (h : volume.Holds path shown left) (hleft : ∀ content, left content → left' content) :
    volume.Holds path shown left' :=
  { h with left := fun entry hentry ↦ hleft _ (h.left entry hentry) }

/-- The content that is shown may be left. -/
theorem left_shown (h : volume.Holds path shown left) : left shown :=
  h.shown ▸ h.left _ Directory.entry_mem_possible

theorem setDirectory {directory : Directory PathBuf UInt8} (h : volume.Holds path shown left)
    (hbounded : directory.Bounded)
    (hpossible : directory.possible path = volume.directory.possible path)
    (hfiles : ∀ file, ¬volume.directory.Apart path file →
      directory.files file = volume.directory.files file) :
    (volume.setDirectory directory).Holds path shown left := by
  have hpossibleFiles (entry : Option ℕ) (hentry : entry ∈ volume.directory.possible path)
      (file : ℕ) (hfile : file ∈ entry) : directory.files file = volume.directory.files file := by
    apply hfiles
    intro hapart
    obtain rfl := Option.mem_def.mp hfile
    exact hapart hentry
  have hentries : directory.entries path = volume.directory.entries path :=
    (List.cons.inj hpossible).1
  have hcontent (entry : Option ℕ) (hentry : entry ∈ volume.directory.possible path) :
      directory.contentOf entry = volume.directory.contentOf entry :=
    contentOf_eq (hpossibleFiles entry hentry)
  exact
    { anchored := h.anchored
      bounded := hbounded
      solid := by
        intro entry hentry file hfile
        have hentry' : entry ∈ volume.directory.possible path := hpossible ▸ hentry
        change (directory.files file).stored = true
        rw [hpossibleFiles entry hentry' file hfile]
        exact h.solid entry hentry' file hfile
      shown := by
        change directory.contentOf (directory.entries path) = shown
        rw [hentries, hcontent _ Directory.entry_mem_possible]
        exact h.shown
      left := by
        intro entry hentry
        have hentry' : entry ∈ volume.directory.possible path := hpossible ▸ hentry
        change left (directory.contentOf entry)
        rw [hcontent entry hentry']
        exact h.left entry hentry'
      missing := by
        intro hmissing entry hentry
        exact h.missing (hentries ▸ hmissing) entry (hpossible ▸ hentry) }

theorem setFile {value : StoredFile UInt8} (h : volume.Holds path shown left)
    (hapart : volume.directory.Apart path file) :
    (volume.setDirectory (volume.directory.setFile file value)).Holds path shown left := by
  have hbounded : (volume.directory.setFile file value).Bounded := h.bounded
  refine h.setDirectory hbounded rfl fun file' hpossible ↦ ?_
  apply Directory.files_setFile_of_ne
  rintro rfl
  exact hpossible hapart

theorem removeFile (h : volume.Holds path shown left) (htemp : temp ≠ path) :
    (volume.removeFile temp).2.Holds path shown left := by
  rw [Volume.removeFile]
  cases volume.directory.entries temp with
  | none => exact h
  | some file =>
    have hpossible := volume.directory.possible_remove_of_ne htemp.symm
    exact h.setDirectory h.bounded.remove hpossible fun _ _ ↦ rfl

theorem create (h : volume.Holds path shown left) (htemp : temp ≠ path) :
    (volume.setDirectory (volume.directory.create temp)).Holds path shown left ∧
      (volume.setDirectory (volume.directory.create temp)).Prepares path temp
        volume.directory.next ⟨[], false⟩ := by
  have hpossible := volume.directory.possible_create_of_ne htemp.symm
  have hapart : volume.directory.Apart path volume.directory.next := fun hentry ↦
    h.bounded.ne_next hentry rfl rfl
  constructor
  · refine h.setDirectory h.bounded.create hpossible fun file hfile ↦ ?_
    apply files_create_of_ne
    rintro rfl
    exact hfile hapart
  · exact ⟨Directory.entries_setEntry_self, fun hentry ↦ hapart (hpossible ▸ hentry),
      Function.update_self ..⟩

/-- The prepared content is put in place; a crash may still leave what was there before. -/
theorem rename (writer : Writer) (h : volume.Holds path shown left) (htemp : temp ≠ path)
    (hprepares : volume.Prepares path temp file ⟨bytes, true⟩) :
    (volume.rename path writer temp path).2.Holds path (some bytes)
      fun content ↦ left content ∨ content = some bytes := by
  rw [rename_eq hprepares.entry]
  have hentries : (volume.directory.rename temp path).entries path = some file := by
    rw [Directory.entries_rename_target htemp.symm, hprepares.entry]
  have hpossible : (volume.directory.rename temp path).possible path =
      some file :: volume.directory.possible path := by
    rw [Directory.possible_rename_target htemp.symm, hprepares.entry]
  have hcontent : (volume.directory.rename temp path).contentOf (some file) = some bytes := by
    change some (volume.directory.files file).content = _
    rw [hprepares.value]
  exact
    { anchored := h.anchored
      bounded := h.bounded.rename
      solid := by
        intro entry hentry file' hfile'
        rcases List.mem_cons.mp (hpossible ▸ hentry) with rfl | hentry
        · obtain rfl := Option.some.inj hfile'
          change (volume.directory.files file).stored = true
          rw [hprepares.value]
        · exact h.solid entry hentry file' hfile'
      shown := by
        change (volume.directory.rename temp path).contentOf _ = _
        rw [hentries, hcontent]
      left := by
        intro entry hentry
        rcases List.mem_cons.mp (hpossible ▸ hentry) with rfl | hentry
        · exact .inr hcontent
        · exact .inl (h.left entry hentry)
      missing := by
        intro hmissing
        cases hentries.symm.trans hmissing }

theorem syncParent (h : volume.Holds path shown left) :
    (volume.syncParent path).1 = .ok () ∧
      (volume.syncParent path).2.Holds path shown (· = shown) := by
  rw [syncParent_eq h.anchored.1]
  refine ⟨rfl, { anchored := h.anchored, bounded := h.bounded.storeEntries
                 solid := h.solid.storeEntries, shown := h.shown, left := ?_, missing := ?_ }⟩
  · intro entry hentry
    obtain rfl := List.mem_singleton.mp hentry
    exact h.shown
  · intro hmissing entry hentry
    obtain rfl := List.mem_singleton.mp hentry
    exact hmissing

/-- A missing file stays missing in a crash. -/
theorem of_missing (h : volume.Holds path shown left) (hmissing : volume.directory.entries path = none) :
    volume.Holds path shown (· = shown) := by
  refine { h with left := fun entry hentry ↦ ?_ }
  rw [h.missing hmissing entry hentry, ← h.shown, Directory.read, hmissing]

theorem crash (h : volume.Holds path shown left) (loss : Loss PathBuf UInt8) (losesDirectory : Bool) :
    ∃ content, left content ∧
      (volume.occur (.crash loss losesDirectory)).Holds path content (· = content) := by
  have hsurvivor := volume.directory.survivor_mem_possible loss path
  refine ⟨_, h.left _ hsurvivor, ?_⟩
  have hlost : ¬(losesDirectory = true ∧ ¬volume.Anchored) := fun hlost ↦ hlost.2 h.anchored
  rw [occur, if_neg hlost]
  exact
    { anchored := ⟨h.anchored.1, rfl⟩
      bounded := h.bounded.crash loss
      solid := h.solid.crash loss
      shown := h.solid.read_crash loss
      left := by
        intro entry hentry
        obtain rfl := List.mem_singleton.mp hentry
        exact h.solid.contentOf_crash hsurvivor
      missing := by
        intro hmissing entry hentry
        obtain rfl := List.mem_singleton.mp hentry
        exact hmissing }

end Volume.Holds

/-- A path without a file, now and after a crash. -/
structure Volume.Fresh (volume : Volume) (path : PathBuf) : Prop where
  anchored : volume.Anchored
  bounded : volume.directory.Bounded
  missing : ∀ entry ∈ volume.directory.possible path, entry = none

theorem Volume.Fresh.holds {volume : Volume} {path : PathBuf} (h : volume.Fresh path) :
    volume.Holds path none (· = none) where
  anchored := h.anchored
  bounded := h.bounded
  solid entry hentry := by
    rw [h.missing entry hentry]
    intro _ hfile
    cases hfile
  shown := by
    rw [Directory.read, h.missing _ Directory.entry_mem_possible]
    rfl
  left entry hentry := by
    rw [h.missing entry hentry]
    rfl
  missing _ := h.missing

/-! ## Operations -/

section Operations

variable {path temp : PathBuf} {writer : Writer} {file : ℕ} {shown : Option Bytes}
  {left : Option Bytes → Prop} {bytes : Bytes} {value : StoredFile UInt8}

/-- What a writer leaves behind that is cut off. -/
def CutOff (path : PathBuf) (shown : Option Bytes) (left : Option Bytes → Prop) (bytes : Bytes)
    (volume : Volume) : Prop :=
  volume.Holds path shown left ∨
    volume.Holds path (some bytes) fun content ↦ left content ∨ content = some bytes

theorem crash_ensurePrivateParentDir (parent : PathBuf) :
    CrashTriple (Volume.exec path writer) (fun volume ↦ volume.Holds path shown left)
      (ensurePrivateParentDir parent) (fun _ volume ↦ volume.Holds path shown left)
      fun volume ↦ volume.Holds path shown left := by
  have hmetadata : CrashTriple (Volume.exec path writer) (fun volume ↦ volume.Holds path shown left)
      Op.metadata.run (fun _ volume ↦ volume.Holds path shown left)
      fun volume ↦ volume.Holds path shown left := by
    apply CrashTriple.perform fun _ h ↦ h
    intro volume outcome h
    simp only [Volume.exec]
    cases outcome.failure <;> exact h
  apply hmetadata.andThen
  intro answer
  cases answer with
  | ok isDirectory => cases isDirectory <;> exact CrashTriple.pure fun _ h ↦ h
  | error err =>
    change CrashTriple _ _
      (if err.kind = .notFound then Op.createPrivateDir.run else pure (.error err)) _ _
    split_ifs
    · apply CrashTriple.perform fun _ h ↦ h
      intro volume outcome h
      simp only [Volume.exec]
      cases outcome.failure with
      | some err => exact h
      | none =>
        simp only [Volume.createPrivateDir, h.anchored.1]
        exact h
    · exact CrashTriple.pure fun _ h ↦ h

theorem crash_tempPathFor :
    CrashTriple (Volume.exec path writer) (fun volume ↦ volume.Holds path shown left)
      Op.tempPathFor.run (fun (temp : PathBuf) volume ↦ volume.Holds path shown left ∧ temp ≠ path)
      fun volume ↦ volume.Holds path shown left := by
  apply CrashTriple.perform fun _ h ↦ h
  intro volume outcome h
  exact ⟨⟨h.anchored, h.bounded, h.solid, h.shown, h.left, h.missing⟩, tempPathFor_ne path _ _ _⟩

theorem crash_openPrivateNewFile (htemp : temp ≠ path) :
    CrashTriple (Volume.exec path writer) (fun volume ↦ volume.Holds path shown left)
      (Op.openPrivateNewFile temp).run
      (Protocol.Ends (fun (file : ℕ) volume ↦ volume.Holds path shown left ∧
        volume.Prepares path temp file ⟨[], false⟩) fun _ volume ↦ volume.Holds path shown left)
      fun volume ↦ volume.Holds path shown left := by
  apply CrashTriple.perform fun _ h ↦ h
  intro volume outcome h
  simp only [Volume.exec]
  cases outcome.failure with
  | some err => exact h
  | none =>
    simp only [Volume.openPrivateNewFile]
    split_ifs with hparent hexists
    · exact h
    · exact h
    · obtain ⟨hholds, hprepares⟩ := h.create htemp
      exact ⟨⟨hholds.anchored, hholds.bounded, hholds.solid, hholds.shown, hholds.left, hholds.missing⟩,
        hprepares.entry, hprepares.apart, hprepares.value⟩

theorem crash_setPrivateFilePermissions :
    CrashTriple (Volume.exec path writer)
      (fun volume ↦ volume.Holds path shown left ∧ volume.Prepares path temp file value)
      (Op.setPrivateFilePermissions file).run
      (Protocol.Ends (fun _ volume ↦ volume.Holds path shown left ∧
        volume.Prepares path temp file value) fun _ volume ↦ volume.Holds path shown left)
      fun volume ↦ volume.Holds path shown left := by
  apply CrashTriple.perform fun _ h ↦ h.1
  intro volume outcome h
  simp only [Volume.exec]
  cases outcome.failure with
  | none => exact h
  | some err => exact h.1

theorem crash_writeAll :
    CrashTriple (Volume.exec path writer)
      (fun volume ↦ volume.Holds path shown left ∧ volume.Prepares path temp file ⟨[], false⟩)
      (Op.writeAll file bytes).run
      (Protocol.Ends (fun _ volume ↦ volume.Holds path shown left ∧
        volume.Prepares path temp file ⟨bytes, false⟩) fun _ volume ↦ volume.Holds path shown left)
      fun volume ↦ volume.Holds path shown left := by
  apply CrashTriple.perform fun _ h ↦ h.1
  rintro volume outcome ⟨hholds, hprepares⟩
  simp only [Volume.exec]
  cases outcome.failure with
  | some err => exact hholds.setFile hprepares.apart
  | none =>
    refine ⟨hholds.setFile hprepares.apart, hprepares.entry, hprepares.apart, ?_⟩
    change (volume.directory.append file bytes).files file = _
    rw [Directory.append, Directory.files_setFile_self, hprepares.value]
    rfl

theorem crash_syncAll :
    CrashTriple (Volume.exec path writer)
      (fun volume ↦ volume.Holds path shown left ∧ volume.Prepares path temp file ⟨bytes, false⟩)
      (Op.syncAll file).run
      (Protocol.Ends (fun _ volume ↦ volume.Holds path shown left ∧
        volume.Prepares path temp file ⟨bytes, true⟩) fun _ volume ↦ volume.Holds path shown left)
      fun volume ↦ volume.Holds path shown left := by
  apply CrashTriple.perform fun _ h ↦ h.1
  rintro volume outcome ⟨hholds, hprepares⟩
  simp only [Volume.exec]
  cases outcome.failure with
  | some err => exact hholds
  | none =>
    refine ⟨hholds.setFile hprepares.apart, hprepares.entry, hprepares.apart, ?_⟩
    change (volume.directory.store file).files file = _
    rw [Directory.store, Directory.files_setFile_self, hprepares.value]

theorem crash_rename (htemp : temp ≠ path) :
    CrashTriple (Volume.exec path writer)
      (fun volume ↦ volume.Holds path shown left ∧ volume.Prepares path temp file ⟨bytes, true⟩)
      (Op.rename temp path).run
      (Protocol.Ends (fun _ volume ↦ volume.Holds path (some bytes) fun content ↦
        left content ∨ content = some bytes) fun _ volume ↦ volume.Holds path shown left)
      fun volume ↦ volume.Holds path shown left := by
  apply CrashTriple.perform fun _ h ↦ h.1
  rintro volume outcome ⟨hholds, hprepares⟩
  simp only [Volume.exec]
  cases outcome.failure with
  | some err => exact hholds
  | none =>
    have hrenamed := hholds.rename writer htemp hprepares
    rw [Volume.rename_eq hprepares.entry] at hrenamed ⊢
    exact hrenamed

theorem crash_syncParent (hparent : (nonEmptyParent path).isSome = true) :
    CrashTriple (Volume.exec path writer) (fun volume ↦ volume.Holds path shown left)
      (syncParent path)
      (Protocol.Ends (fun _ volume ↦ volume.Holds path shown (· = shown))
        fun _ volume ↦ volume.Holds path shown left)
      fun volume ↦ volume.Holds path shown left := by
  obtain ⟨parent, hparent⟩ := Option.isSome_iff_exists.mp hparent
  rw [syncParent, hparent]
  apply CrashTriple.perform fun _ h ↦ h
  intro volume outcome h
  simp only [Volume.exec]
  cases outcome.failure with
  | some err => exact h
  | none =>
    obtain ⟨hanswer, hsynced⟩ := h.syncParent
    simp only [hanswer]
    exact hsynced

theorem crash_removeFile (htemp : temp ≠ path) :
    CrashTriple (Volume.exec path writer) (fun volume ↦ volume.Holds path shown left)
      (Op.removeFile temp).run (fun _ volume ↦ volume.Holds path shown left)
      fun volume ↦ volume.Holds path shown left := by
  apply CrashTriple.perform fun _ h ↦ h
  intro volume outcome h
  simp only [Volume.exec]
  cases outcome.failure with
  | some err => exact h
  | none => exact h.removeFile htemp

/-- A file that is missing is missing for good. -/
theorem crash_tryExists :
    CrashTriple (Volume.exec path writer) (fun volume ↦ volume.Holds path shown left)
      Op.tryExists.run
      (Protocol.Ends (fun (found : Bool) volume ↦ volume.Holds path shown left ∧
        (found = false → volume.Holds path shown (· = shown)))
        fun _ volume ↦ volume.Holds path shown left)
      fun volume ↦ volume.Holds path shown left := by
  apply CrashTriple.perform fun _ h ↦ h
  intro volume outcome h
  simp only [Volume.exec]
  cases outcome.failure with
  | some err => exact h
  | none =>
    refine ⟨⟨h.anchored, h.bounded, h.solid, h.shown, h.left, h.missing⟩, fun hmissing ↦ ?_⟩
    have hnone : volume.directory.entries path = none :=
      Option.isNone_iff_eq_none.mp (Option.isSome_eq_false_iff.mp hmissing)
    have hsettled := h.of_missing hnone
    exact ⟨hsettled.anchored, hsettled.bounded, hsettled.solid, hsettled.shown, hsettled.left,
      hsettled.missing⟩

end Operations

/-! ## Programs -/

section Programs

variable {path temp : PathBuf} {writer : Writer} {shown : Option Bytes} {left : Option Bytes → Prop}
  {bytes : Bytes}

theorem crash_writeAndReplace (hparent : (nonEmptyParent path).isSome = true) (htemp : temp ≠ path) :
    CrashTriple (Volume.exec path writer) (fun volume ↦ volume.Holds path shown left)
      (writeAndReplace path temp bytes).run
      (Protocol.Ends (fun _ volume ↦ volume.Holds path (some bytes) (· = some bytes))
        fun _ ↦ CutOff path shown left bytes) (CutOff path shown left bytes) := by
  have hbefore {α : Type} {good : α → Volume → Prop} {program : FileProgram (IoResult α)}
      {pre : Volume → Prop} (h : CrashTriple (Volume.exec path writer) pre program
        (Protocol.Ends good fun _ volume ↦ volume.Holds path shown left)
        fun volume ↦ volume.Holds path shown left) :
      CrashTriple (Volume.exec path writer) pre (fallible program).run
        (Protocol.Ends good fun _ ↦ CutOff path shown left bytes) (CutOff path shown left bytes) := by
    refine h.imp (fun _ hs ↦ hs) (fun result volume hend ↦ ?_) fun _ hs ↦ .inl hs
    cases result with
    | ok a => exact hend
    | error err => exact .inl hend
  apply CrashTriple.exceptBind (hbefore (crash_openPrivateNewFile htemp))
  intro file
  apply CrashTriple.exceptBind (hbefore crash_setPrivateFilePermissions)
  intro _
  apply CrashTriple.exceptBind (hbefore crash_writeAll)
  intro _
  apply CrashTriple.exceptBind (hbefore crash_syncAll)
  intro _
  apply CrashTriple.exceptBind (hbefore (crash_rename htemp))
  intro _
  refine (crash_syncParent hparent).imp (fun _ hs ↦ hs) (fun result volume hend ↦ ?_)
    fun _ hs ↦ .inr hs
  cases result with
  | ok _ => exact hend
  | error err => exact .inr hend

theorem crash_writeJsonAtomic (hparent : (nonEmptyParent path).isSome = true) :
    CrashTriple (Volume.exec path writer) (fun volume ↦ volume.Holds path shown left)
      (writeJsonAtomic path (.ok bytes)).run
      (Protocol.Ends (fun _ volume ↦ volume.Holds path (some bytes) (· = some bytes))
        fun _ ↦ CutOff path shown left bytes) (CutOff path shown left bytes) := by
  obtain ⟨parent, hparent'⟩ := Option.isSome_iff_exists.mp hparent
  have hensured : CrashTriple (Volume.exec path writer) (fun volume ↦ volume.Holds path shown left)
      (fallible (ensurePrivateParentDir parent)).run
      (Protocol.Ends (fun _ volume ↦ volume.Holds path shown left)
        fun _ ↦ CutOff path shown left bytes) (CutOff path shown left bytes) := by
    refine (crash_ensurePrivateParentDir parent).imp (fun _ hs ↦ hs) (fun result volume hend ↦ ?_)
      fun _ hs ↦ .inl hs
    cases result with
    | ok _ => exact hend
    | error err => exact .inl hend
  rw [writeJsonAtomic, hparent']
  apply CrashTriple.exceptBind hensured
  intro _
  apply CrashTriple.exceptBind (CrashTriple.exceptLift (crash_tempPathFor.imp_cut fun _ hs ↦ .inl hs))
  intro temp
  apply CrashTriple.of_pure
  intro htemp
  have hencoded : CrashTriple (Volume.exec path writer) (fun volume ↦ volume.Holds path shown left)
      (fallible (pure (.ok bytes) : FileProgram (IoResult Bytes))).run
      (Protocol.Ends (fun value volume ↦ volume.Holds path shown left ∧ value = bytes)
        fun _ ↦ CutOff path shown left bytes) (CutOff path shown left bytes) :=
    CrashTriple.pure fun _ h ↦ ⟨h, rfl⟩
  apply CrashTriple.exceptBind hencoded
  intro value
  apply CrashTriple.of_pure
  rintro rfl
  apply CrashTriple.exceptBind (CrashTriple.exceptLift (crash_writeAndReplace hparent htemp))
  intro result
  cases result with
  | ok _ => exact CrashTriple.pure fun _ h ↦ h
  | error err =>
    have hremoved : CrashTriple (Volume.exec path writer) (CutOff path shown left value)
        (Op.removeFile temp).run (fun _ ↦ CutOff path shown left value)
        (CutOff path shown left value) := by
      intro volume hvolume answer after hruns
      rcases hvolume with hvolume | hvolume
      · have hend := crash_removeFile htemp volume hvolume answer after hruns
        cases answer <;> exact .inl hend
      · have hend := crash_removeFile htemp volume hvolume answer after hruns
        cases answer <;> exact .inr hend
    exact (CrashTriple.exceptLift hremoved).andThen fun answer ↦ by
      cases answer <;> exact CrashTriple.pure fun _ h ↦ h

theorem crash_confirmExistingFileDurable (hparent : (nonEmptyParent path).isSome = true) :
    CrashTriple (Volume.exec path writer) (fun volume ↦ volume.Holds path shown left)
      (confirmExistingFileDurable path).run
      (Protocol.Ends (fun _ volume ↦ volume.Holds path shown (· = shown))
        fun _ volume ↦ volume.Holds path shown left)
      fun volume ↦ volume.Holds path shown left := by
  apply CrashTriple.exceptBind crash_tryExists
  intro found
  cases found with
  | false => exact CrashTriple.pure fun _ h ↦ h.2 rfl
  | true => exact (crash_syncParent hparent).imp_pre fun _ h ↦ h.1

end Programs

end FerrisBridge.Persistence
