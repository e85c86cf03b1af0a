import FerrisBridge.Store.AtomicWrite

/-!
# Runs of writers

The steps of a write keep to the protocol of the writers, each from what the ones before it have
established, so that every interleaving of any number of writers does.
-/

open Foundations

namespace FerrisBridge.Persistence

/-- The assumptions on a run, and what writers rely on. -/
def protocol (path : PathBuf) (given : Option Bytes → Prop) : Protocol (machine path) where
  condition := assumptions
  inv := Volume.Inv path given
  other := Volume.Other path
  other_refl := Volume.Other.refl path
  other_trans := Volume.Other.trans path
  event_keeps := Volume.occur_keeps

/-! ## What a writer knows -/

/-- A temporary file of the writer, as it is so far. -/
structure Volume.Owns (volume : Volume) (path : PathBuf) (writer : Writer) (temp : PathBuf) (file : ℕ)
    (value : StoredFile UInt8) : Prop where
  drew : volume.Drew writer temp
  entry : volume.directory.entries temp = some file
  author : volume.author file = some writer
  apart : volume.directory.Apart path file
  value : volume.directory.files file = value

/-- The content that the writer has last put or seen under the path, which only later ones have
replaced. -/
def Volume.Placed (volume : Volume) (path : PathBuf) (writer : Writer) (content : Option Bytes) : Prop :=
  volume.replaced[volume.latest writer]? = some content ∧ volume.latest writer ≤ volume.current path

/-- No crash brings back an older content, as long as the directory is there. -/
def Volume.Settled (volume : Volume) (writer : Writer) (content : Option Bytes) : Prop :=
  volume.replaced[volume.latest writer]? = some content ∧
    (volume.Anchored → volume.latest writer ≤ volume.confirmed)

section Facts

variable {path : PathBuf} {given : Option Bytes → Prop} {before after : Volume} {writer : Writer}
  {temp : PathBuf} {file : ℕ} {value : StoredFile UInt8} {content : Option Bytes}

theorem Volume.Kept.drew (h : Volume.Kept path writer before after) (hdrew : before.Drew writer temp) :
    after.Drew writer temp := by
  obtain ⟨draw, hdraw, hwriter, hpath⟩ := hdrew
  exact ⟨draw, h.drawn draw hdraw, hwriter, hpath⟩

theorem Volume.Kept.owns (h : Volume.Kept path writer before after)
    (howns : before.Owns path writer temp file value) : after.Owns path writer temp file value where
  drew := h.drew howns.drew
  entry := by
    obtain ⟨draw, hdraw, hwriter, rfl⟩ := howns.drew
    exact (h.entries draw hdraw hwriter).trans howns.entry
  author := h.author file howns.author
  apart := h.apart file howns.author howns.apart
  value := (h.files file howns.author).trans howns.value

theorem getElem?_of_prefix {contents later : List (Option Bytes)} (h : contents <+: later) {index : ℕ}
    (hcontent : contents[index]? = some content) : later[index]? = some content := by
  obtain ⟨more, rfl⟩ := h
  exact Volume.getElem?_append_of_eq_some hcontent

theorem Volume.Kept.placed_iff (h : Volume.Kept path writer before after)
    (hplaced : before.Placed path writer content) : after.Placed path writer content := by
  refine ⟨?_, h.placed hplaced.2⟩
  rw [h.latest]
  exact getElem?_of_prefix h.replaced hplaced.1

theorem Volume.Kept.settled (h : Volume.Kept path writer before after)
    (hsettled : before.Settled writer content) : after.Settled writer content := by
  refine ⟨?_, h.durable hsettled.2⟩
  rw [h.latest]
  exact getElem?_of_prefix h.replaced hsettled.1

theorem stable_of_kept {fact : Volume → Prop}
    (h : ∀ before after, Volume.Kept path writer before after → fact before → fact after) :
    (protocol path given).Stable writer fact := by
  intro before after hfact hother hrunning
  have halive := Volume.Running.not_dead (of_decide_eq_true hrunning)
  exact h before after (hother halive) hfact

theorem stable_true : (protocol path given).Stable writer fun _ ↦ True :=
  fun _ _ _ _ _ ↦ trivial

end Facts

/-! ## Operations -/

section Operations

variable {path : PathBuf} {given : Option Bytes → Prop} {writer : Writer} {temp : PathBuf} {file : ℕ}
  {bytes : Bytes} {content : Option Bytes} {fact : Volume → Prop}

/-- An operation that changes nothing of what the others see keeps to the protocol. -/
theorem keeps_of {volume after : Volume} (h : after.Inv path given ∧
    ∀ other ≠ writer, Volume.Other path other volume after) :
    (protocol path given).Keeps writer volume after :=
  ⟨h.1, h.2⟩

theorem keeps_all {volume after : Volume} (h : after.Inv path given ∧
    ∀ other, Volume.Other path other volume after) :
    (protocol path given).Keeps writer volume after :=
  ⟨h.1, fun other _ ↦ h.2 other⟩

theorem triple_metadata : (protocol path given).Triple writer (fun _ ↦ True) Op.metadata.run
    fun _ _ ↦ True := by
  apply Protocol.Triple.perform stable_true
  intro volume outcome hinv _ _ _
  simp only [machine, Volume.exec]
  cases outcome.failure with
  | none => exact ⟨Protocol.Keeps.refl hinv, trivial⟩
  | some err => exact ⟨Protocol.Keeps.refl hinv, trivial⟩

theorem triple_createPrivateDir : (protocol path given).Triple writer (fun _ ↦ True)
    Op.createPrivateDir.run fun _ _ ↦ True := by
  apply Protocol.Triple.perform stable_true
  intro volume outcome hinv _ _ _
  simp only [machine, Volume.exec]
  cases outcome.failure with
  | none => exact ⟨keeps_all (Volume.keeps_createPrivateDir hinv), trivial⟩
  | some err => exact ⟨Protocol.Keeps.refl hinv, trivial⟩

theorem triple_tempPathFor : (protocol path given).Triple writer (fun _ ↦ True) Op.tempPathFor.run
    fun (temp : PathBuf) volume ↦ volume.Drew writer temp := by
  apply Protocol.Triple.perform stable_true
  intro volume outcome hinv hrunning _ hcondition
  refine ⟨keeps_of (Volume.keeps_drawTempPath hinv (of_decide_eq_true hrunning) hcondition), ?_⟩
  exact ⟨_, List.mem_cons_self, rfl, rfl⟩

theorem triple_openPrivateNewFile : (protocol path given).Triple writer
    (fun volume ↦ volume.Drew writer temp) (Op.openPrivateNewFile temp).run
    (Protocol.Ends (fun (file : ℕ) volume ↦ volume.Owns path writer temp file ⟨[], false⟩)
      fun _ volume ↦ volume.Drew writer temp) := by
  apply Protocol.Triple.perform (stable_of_kept fun _ _ h hdrew ↦ h.drew hdrew)
  intro volume outcome hinv hrunning hdrew _
  have hkeeps := Volume.keeps_openPrivateNewFile hinv (of_decide_eq_true hrunning) hdrew
  simp only [machine, Volume.exec]
  cases outcome.failure with
  | some err => exact ⟨Protocol.Keeps.refl hinv, hdrew⟩
  | none =>
    refine ⟨keeps_of hkeeps, ?_⟩
    simp only [Volume.openPrivateNewFile]
    split_ifs with hparent hexists
    · exact hdrew
    · exact hdrew
    · refine ⟨hdrew, Directory.entries_setEntry_self, Function.update_self .., ?_,
        Function.update_self ..⟩
      intro hmem
      have hpossible := volume.directory.possible_create_of_ne (hdrew.ne hinv).symm
      rw [hpossible] at hmem
      exact hinv.bounded.ne_next hmem rfl rfl

theorem triple_setPrivateFilePermissions {value : StoredFile UInt8} :
    (protocol path given).Triple writer (fun volume ↦ volume.Owns path writer temp file value)
      (Op.setPrivateFilePermissions file).run
      (Protocol.Ends (fun _ volume ↦ volume.Owns path writer temp file value)
        fun _ volume ↦ volume.Drew writer temp) := by
  apply Protocol.Triple.perform (stable_of_kept fun _ _ h howns ↦ h.owns howns)
  intro volume outcome hinv _ howns _
  simp only [machine, Volume.exec]
  cases outcome.failure with
  | none => exact ⟨Protocol.Keeps.refl hinv, howns⟩
  | some err => exact ⟨Protocol.Keeps.refl hinv, howns.drew⟩

theorem triple_writeAll : (protocol path given).Triple writer
    (fun volume ↦ volume.Owns path writer temp file ⟨[], false⟩) (Op.writeAll file bytes).run
    (Protocol.Ends (fun _ volume ↦ volume.Owns path writer temp file ⟨bytes, false⟩)
      fun _ volume ↦ volume.Drew writer temp) := by
  apply Protocol.Triple.perform (stable_of_kept fun _ _ h howns ↦ h.owns howns)
  intro volume outcome hinv _ howns _
  simp only [machine, Volume.exec]
  cases outcome.failure with
  | some err => exact ⟨keeps_of (Volume.keeps_setFile hinv howns.author howns.apart), howns.drew⟩
  | none =>
    refine ⟨keeps_of (Volume.keeps_setFile hinv howns.author howns.apart), ?_⟩
    refine { howns with value := ?_ }
    change (volume.directory.append file bytes).files file = _
    rw [Directory.append, Directory.files_setFile_self, howns.value]
    rfl

theorem triple_syncAll : (protocol path given).Triple writer
    (fun volume ↦ volume.Owns path writer temp file ⟨bytes, false⟩) (Op.syncAll file).run
    (Protocol.Ends (fun _ volume ↦ volume.Owns path writer temp file ⟨bytes, true⟩)
      fun _ volume ↦ volume.Drew writer temp) := by
  apply Protocol.Triple.perform (stable_of_kept fun _ _ h howns ↦ h.owns howns)
  intro volume outcome hinv _ howns _
  simp only [machine, Volume.exec]
  cases outcome.failure with
  | some err => exact ⟨Protocol.Keeps.refl hinv, howns.drew⟩
  | none =>
    refine ⟨keeps_of (Volume.keeps_setFile hinv howns.author howns.apart), ?_⟩
    refine { howns with value := ?_ }
    change (volume.directory.store file).files file = _
    rw [Directory.store, Directory.files_setFile_self, howns.value]

theorem triple_rename (hgiven : given (some bytes)) : (protocol path given).Triple writer
    (fun volume ↦ volume.Owns path writer temp file ⟨bytes, true⟩) (Op.rename temp path).run
    (Protocol.Ends (fun _ volume ↦ volume.Placed path writer (some bytes) ∧ volume.Drew writer temp)
      fun _ volume ↦ volume.Drew writer temp) := by
  apply Protocol.Triple.perform (stable_of_kept fun _ _ h howns ↦ h.owns howns)
  intro volume outcome hinv hrunning howns _
  simp only [machine, Volume.exec]
  cases outcome.failure with
  | some err => exact ⟨Protocol.Keeps.refl hinv, howns.drew⟩
  | none =>
    have hcontent : (volume.directory.files file).content = bytes := by rw [howns.value]
    have hstored : (volume.directory.files file).stored = true := by rw [howns.value]
    have hkeeps := Volume.keeps_rename hinv (of_decide_eq_true hrunning) howns.drew howns.entry
      howns.author howns.apart hstored (hcontent ▸ hgiven)
    refine ⟨keeps_of hkeeps, ?_⟩
    rw [Volume.rename_eq howns.entry]
    refine ⟨⟨?_, ?_⟩, howns.drew⟩
    · change (volume.replaced ++ _)[Function.update volume.latest writer _ writer]? = _
      rw [Function.update_self, List.getElem?_concat_length, hcontent]
    · have hentry : (volume.directory.rename temp path).entries path = some file := by
        rw [Directory.entries_rename_target (howns.drew.ne hinv).symm, howns.entry]
      change Function.update volume.latest writer _ writer ≤
        ((volume.directory.rename temp path).entries path).elim 0 _
      rw [hentry, Function.update_self]
      exact (Function.update_self (f := volume.rank) ..).ge

theorem triple_syncParentOp (hstable : (protocol path given).Stable writer fact)
    (hsync : ∀ volume, fact volume → fact (volume.syncParent path).2) :
    (protocol path given).Triple writer (fun volume ↦ volume.Placed path writer content ∧ fact volume)
      Op.syncParent.run (Protocol.Ends (fun _ volume ↦ volume.Settled writer content ∧ fact volume)
        fun _ volume ↦ fact volume) := by
  apply Protocol.Triple.perform ((stable_of_kept fun _ _ h hplaced ↦ h.placed_iff hplaced).and hstable)
  rintro volume outcome hinv _ ⟨hplaced, hfact⟩ _
  simp only [machine, Volume.exec]
  cases outcome.failure with
  | some err => exact ⟨Protocol.Keeps.refl hinv, hfact⟩
  | none =>
    have hafter := hsync volume hfact
    refine ⟨keeps_all (Volume.keeps_syncParent hinv), ?_⟩
    by_cases hparent : volume.parent = some .directory
    · rw [Volume.syncParent_eq hparent] at hafter ⊢
      refine ⟨⟨hplaced.1, fun hanchored ↦ ?_⟩, hafter⟩
      have hbefore : volume.Anchored := hanchored
      exact hplaced.2.trans (if_pos hbefore).ge
    · rw [show volume.syncParent path = (.error notFound, volume) from if_pos hparent]
      exact hfact

theorem triple_removeFile : (protocol path given).Triple writer
    (fun volume ↦ volume.Drew writer temp) (Op.removeFile temp).run fun _ _ ↦ True := by
  apply Protocol.Triple.perform (stable_of_kept fun _ _ h hdrew ↦ h.drew hdrew)
  intro volume outcome hinv _ hdrew _
  simp only [machine, Volume.exec]
  cases outcome.failure with
  | none => exact ⟨keeps_of (Volume.keeps_removeFile hinv hdrew), trivial⟩
  | some err => exact ⟨Protocol.Keeps.refl hinv, trivial⟩

/-- A file that is missing is the one of the beginning, which cannot be older than a confirmed one. -/
theorem triple_tryExists : (protocol path given).Triple writer (fun _ ↦ True) Op.tryExists.run
    (Protocol.Ends (fun (found : Bool) volume ↦ ∃ content, volume.Placed path writer content ∧
      (found = false → volume.latest writer = 0)) fun _ _ ↦ True) := by
  apply Protocol.Triple.perform stable_true
  intro volume outcome hinv hrunning _ _
  simp only [machine, Volume.exec]
  cases outcome.failure with
  | some err => exact ⟨Protocol.Keeps.refl hinv, trivial⟩
  | none =>
    refine ⟨keeps_of (Volume.keeps_tryExists hinv (of_decide_eq_true hrunning)), ?_⟩
    have hlatest : (volume.tryExists path writer).2.latest writer = volume.current path :=
      Function.update_self ..
    refine ⟨volume.directory.read path, ⟨?_, hlatest.le⟩, fun hmissing ↦ ?_⟩
    · change (volume.tryExists path writer).2.replaced[(volume.tryExists path writer).2.latest writer]? = _
      rw [hlatest]
      exact hinv.current_spec.2
    · have hnone : volume.directory.entries path = none :=
        Option.isNone_iff_eq_none.mp (Option.isSome_eq_false_iff.mp hmissing)
      change (volume.tryExists path writer).2.latest writer = 0
      rw [hlatest, Volume.current, hnone]
      rfl

theorem triple_reportWritten : (protocol path given).Triple writer
    (fun volume ↦ volume.Settled writer (some bytes)) (Op.reportWritten bytes).run fun _ _ ↦ True := by
  apply Protocol.Triple.perform (stable_of_kept fun _ _ h hsettled ↦ h.settled hsettled)
  intro volume outcome hinv _ hsettled _
  exact ⟨keeps_all (Volume.keeps_acknowledge hinv hsettled.1 hsettled.2), trivial⟩

theorem triple_reportConfirmed : (protocol path given).Triple writer
    (fun volume ↦ volume.Settled writer content) Op.reportConfirmed.run fun _ _ ↦ True := by
  apply Protocol.Triple.perform (stable_of_kept fun _ _ h hsettled ↦ h.settled hsettled)
  intro volume outcome hinv _ hsettled _
  have hcontent : (volume.replaced[volume.latest writer]?).getD none = content := by
    rw [hsettled.1, Option.getD_some]
  refine ⟨keeps_all (Volume.keeps_acknowledge hinv ?_ hsettled.2), trivial⟩
  rw [hcontent]
  exact hsettled.1

end Operations

/-! ## Programs -/

section Programs

variable {path : PathBuf} {given : Option Bytes → Prop} {writer : Writer} {temp : PathBuf} {file : ℕ}
  {bytes : Bytes} {content : Option Bytes} {fact : Volume → Prop}

theorem triple_ensurePrivateParentDir (parent : PathBuf) :
    (protocol path given).Triple writer (fun _ ↦ True) (ensurePrivateParentDir parent)
      fun _ _ ↦ True := by
  apply triple_metadata.andThen
  intro answer
  cases answer with
  | ok isDirectory =>
    cases isDirectory with
    | true => exact Protocol.Triple.pure fun _ _ ↦ trivial
    | false => exact Protocol.Triple.pure fun _ _ ↦ trivial
  | error err =>
    change (protocol path given).Triple writer _
      (if err.kind = .notFound then Op.createPrivateDir.run else pure (.error err)) _
    split_ifs
    · exact triple_createPrivateDir
    · exact Protocol.Triple.pure fun _ _ ↦ trivial

theorem triple_syncParent (hparent : (nonEmptyParent path).isSome = true)
    (hstable : (protocol path given).Stable writer fact)
    (hsync : ∀ volume, fact volume → fact (volume.syncParent path).2) :
    (protocol path given).Triple writer (fun volume ↦ volume.Placed path writer content ∧ fact volume)
      (syncParent path) (Protocol.Ends (fun _ volume ↦ volume.Settled writer content ∧ fact volume)
        fun _ volume ↦ fact volume) := by
  obtain ⟨parent, hparent⟩ := Option.isSome_iff_exists.mp hparent
  rw [syncParent, hparent]
  exact triple_syncParentOp hstable hsync

theorem drew_syncParent {volume : Volume} (h : volume.Drew writer temp) :
    (volume.syncParent path).2.Drew writer temp := by
  by_cases hparent : volume.parent = some .directory
  · rwa [Volume.syncParent_eq hparent]
  · rwa [show volume.syncParent path = (.error notFound, volume) from if_pos hparent]

theorem triple_writeAndReplace (hparent : (nonEmptyParent path).isSome = true)
    (hgiven : given (some bytes)) :
    (protocol path given).Triple writer (fun volume ↦ volume.Drew writer temp)
      (writeAndReplace path temp bytes).run
      (Protocol.Ends (fun _ volume ↦ volume.Settled writer (some bytes))
        fun _ volume ↦ volume.Drew writer temp) := by
  apply Protocol.Triple.exceptBind triple_openPrivateNewFile
  intro file
  apply Protocol.Triple.exceptBind triple_setPrivateFilePermissions
  intro _
  apply Protocol.Triple.exceptBind triple_writeAll
  intro _
  apply Protocol.Triple.exceptBind triple_syncAll
  intro _
  apply Protocol.Triple.exceptBind (triple_rename hgiven)
  intro _
  apply (triple_syncParent hparent (stable_of_kept fun _ _ h hdrew ↦ h.drew hdrew)
    fun _ hdrew ↦ drew_syncParent hdrew).imp_post
  intro result volume hresult
  cases result with
  | ok _ => exact hresult.1
  | error err => exact hresult

/-- A write that ends without an error has settled its content. -/
theorem triple_writeJsonAtomic (hparent : (nonEmptyParent path).isSome = true)
    (encoded : IoResult Bytes) (hgiven : ∀ bytes, encoded = .ok bytes → given (some bytes)) :
    (protocol path given).Triple writer (fun _ ↦ True) (writeJsonAtomic path encoded).run
      (Protocol.Ends (fun _ volume ↦ ∃ bytes, encoded = .ok bytes ∧ volume.Settled writer (some bytes))
        fun _ _ ↦ True) := by
  obtain ⟨parent, hparent'⟩ := Option.isSome_iff_exists.mp hparent
  have hensured : (protocol path given).Triple writer (fun _ ↦ True)
      (fallible (ensurePrivateParentDir parent)).run
      (Protocol.Ends (fun _ _ ↦ True) fun _ _ ↦ True) := by
    apply (triple_ensurePrivateParentDir parent).imp_post
    intro result _ _
    cases result with
    | ok _ => exact trivial
    | error err => exact trivial
  rw [writeJsonAtomic, hparent']
  apply Protocol.Triple.exceptBind hensured
  intro _
  apply Protocol.Triple.exceptBind (Protocol.Triple.exceptLift triple_tempPathFor)
  intro temp
  cases encoded with
  | error err => exact Protocol.Triple.pure fun _ _ ↦ trivial
  | ok bytes =>
    have hencoded : (protocol path given).Triple writer (fun volume ↦ volume.Drew writer temp)
        (fallible (pure (.ok bytes) : FileProgram (IoResult Bytes))).run
        (Protocol.Ends (fun value volume ↦ volume.Drew writer temp ∧ value = bytes) fun _ _ ↦ True) :=
      Protocol.Triple.pure fun _ hdrew ↦ ⟨hdrew, rfl⟩
    apply Protocol.Triple.exceptBind hencoded
    intro value
    apply Protocol.Triple.of_pure
    rintro rfl
    apply Protocol.Triple.exceptBind
      (Protocol.Triple.exceptLift (triple_writeAndReplace hparent (hgiven value rfl)))
    intro result
    cases result with
    | ok _ => exact Protocol.Triple.pure fun _ hsettled ↦ ⟨value, rfl, hsettled⟩
    | error err => exact triple_removeFile.andThen fun _ ↦ Protocol.Triple.pure fun _ _ ↦ trivial

/-- A confirmation that ends without an error has settled what was there when it began. -/
theorem triple_confirmExistingFileDurable (hparent : (nonEmptyParent path).isSome = true) :
    (protocol path given).Triple writer (fun _ ↦ True) (confirmExistingFileDurable path).run
      (Protocol.Ends (fun _ volume ↦ ∃ content, volume.Settled writer content) fun _ _ ↦ True) := by
  apply Protocol.Triple.exceptBind triple_tryExists
  intro found
  rintro volume ⟨content, hplaced, hmissing⟩
  cases found with
  | false =>
    refine ⟨content, hplaced.1, fun _ ↦ ?_⟩
    rw [hmissing rfl]
    exact Nat.zero_le _
  | true =>
    have hsync : (protocol path given).Triple writer
        (fun volume ↦ volume.Placed path writer content ∧ True) (syncParent path)
        (Protocol.Ends (fun _ volume ↦ volume.Settled writer content ∧ True) fun _ _ ↦ True) :=
      triple_syncParent hparent stable_true fun _ _ ↦ trivial
    apply hsync.imp_post _ volume ⟨hplaced, trivial⟩
    intro result volume hresult
    cases result with
    | ok _ => exact ⟨content, hresult.1⟩
    | error err => exact trivial

theorem triple_task (hparent : (nonEmptyParent path).isSome = true) (task : Task)
    (hgiven : ∀ bytes, task = .write (.ok bytes) → given (some bytes)) :
    (protocol path given).Triple writer (fun _ ↦ True) (task.run path) fun _ _ ↦ True := by
  cases task with
  | write encoded =>
    apply (triple_writeJsonAtomic hparent encoded fun bytes h ↦ hgiven bytes (h ▸ rfl)).andThen
    intro result
    cases result with
    | error err => cases encoded <;> exact Protocol.Triple.pure fun _ _ ↦ trivial
    | ok _ =>
      rintro volume ⟨bytes, rfl, hsettled⟩
      exact triple_reportWritten volume hsettled
  | confirm =>
    apply (triple_confirmExistingFileDurable hparent).andThen
    intro result
    cases result with
    | error err => exact Protocol.Triple.pure fun _ _ ↦ trivial
    | ok _ =>
      rintro volume ⟨content, hsettled⟩
      exact triple_reportConfirmed volume hsettled

theorem triple_runTasks (hparent : (nonEmptyParent path).isSome = true) (tasks : List Task)
    (hgiven : ∀ bytes, Task.write (.ok bytes) ∈ tasks → given (some bytes)) :
    (protocol path given).Triple writer (fun _ ↦ True) (runTasks path tasks) fun _ _ ↦ True := by
  induction tasks with
  | nil => exact Protocol.Triple.pure fun _ _ ↦ trivial
  | cons task tasks ih =>
    have hfirst : (protocol path given).Triple writer (fun _ ↦ True) (task.run path) fun _ _ ↦ True :=
      triple_task hparent task fun bytes heq ↦ hgiven bytes (heq ▸ List.mem_cons_self)
    exact hfirst.andThen fun _ ↦ ih fun bytes hmem ↦ hgiven bytes (List.mem_cons_of_mem _ hmem)

end Programs

/-! ## Runs -/

/-- What is there before the first write. -/
structure LeftBehind (path : PathBuf) (volume : Volume) : Prop where
  bounded : volume.directory.Bounded
  solid : volume.directory.Solid path
  durable : volume.directory.earlier path = []
  lasting : volume.Anchored ∨ volume.directory.entries path = none

/-- A directory that no writer has worked in. -/
def Volume.start (path : PathBuf) (parent : Option FileKind) (anchored : Bool)
    (directory : Directory PathBuf UInt8) : Volume where
  parent := parent
  anchored := anchored
  directory := directory
  boot := 0
  exited _ := false
  nextTempFile _ := 0
  drawn := []
  author _ := none
  rank _ := 0
  replaced := [directory.read path]
  confirmed := 0
  latest _ := 0
  acknowledged := []

def writing (path : PathBuf) (volume : Volume) (tasks : Writer → List Task) :
    Processes Writer Volume Op Op.Answer :=
  ⟨volume, fun writer ↦ runTasks path (tasks writer)⟩

/-- The content of the beginning, or all bytes of a write. -/
def Given (path : PathBuf) (directory : Directory PathBuf UInt8) (tasks : Writer → List Task)
    (content : Option Bytes) : Prop :=
  content = directory.read path ∨
    ∃ writer bytes, Task.write (.ok bytes) ∈ tasks writer ∧ content = some bytes

section Runs

variable {path : PathBuf} {given : Option Bytes → Prop} {volume : Volume} {parent : Option FileKind}
  {anchored : Bool} {directory : Directory PathBuf UInt8}

/-- The file has one of the contents from a rank on, now and after a crash. -/
structure Volume.Since (volume : Volume) (path : PathBuf) (rank : ℕ) : Prop where
  now : ∃ later, rank ≤ later ∧ volume.replaced[later]? = some (volume.directory.read path)
  crashed : ∀ loss losesDirectory, ∃ later, rank ≤ later ∧
    volume.replaced[later]? = some ((volume.occur (.crash loss losesDirectory)).directory.read path)

/-- A caller is told that a content is written or confirmed, in a directory that cannot be lost. -/
def Reports (moment : (machine path).Moment) (rank : ℕ) (content : Option Bytes) : Prop :=
  ∃ writer outcome op next, moment.input = .step writer outcome ∧
    moment.before.shared.Running writer ∧ moment.before.program writer = .call op next ∧
    moment.before.shared.Anchored ∧ rank = moment.before.shared.latest writer ∧
    ((∃ bytes, op = .reportWritten bytes ∧ content = some bytes) ∨
      op = .reportConfirmed ∧ content = (moment.before.shared.replaced[rank]?).getD none)

theorem Volume.occur_crash {loss : Loss PathBuf UInt8} {losesDirectory : Bool} :
    (volume.occur (.crash loss losesDirectory)).replaced = volume.replaced ∧
      (volume.occur (.crash loss losesDirectory)).confirmed = volume.confirmed := by
  rw [Volume.occur]
  split_ifs
  · exact ⟨rfl, rfl⟩
  · exact ⟨rfl, rfl⟩

theorem Volume.Inv.since (h : volume.Inv path given) : volume.Since path volume.confirmed where
  now := ⟨_, h.current_spec⟩
  crashed loss losesDirectory := by
    have hcrashed := (Volume.inv_crash h loss losesDirectory).current_spec
    rw [Volume.occur_crash.1, Volume.occur_crash.2] at hcrashed
    exact ⟨_, hcrashed⟩

theorem Volume.Since.mono {rank rank' : ℕ} (h : volume.Since path rank') (hrank : rank ≤ rank') :
    volume.Since path rank where
  now := by
    obtain ⟨later, hlater, hcontent⟩ := h.now
    exact ⟨later, hrank.trans hlater, hcontent⟩
  crashed loss losesDirectory := by
    obtain ⟨later, hlater, hcontent⟩ := h.crashed loss losesDirectory
    exact ⟨later, hrank.trans hlater, hcontent⟩

theorem inv_start (h : LeftBehind path (Volume.start path parent anchored directory))
    (hgiven : given (directory.read path)) :
    (Volume.start path parent anchored directory).Inv path given where
  bounded := h.bounded
  solid := h.solid
  numbered entry hmem := by
    have hentry : entry = directory.entries path := by
      rcases List.mem_cons.mp hmem with rfl | hearlier
      · rfl
      · rw [show (Volume.start path parent anchored directory).directory.earlier path = [] from
          h.durable] at hearlier
        cases hearlier
    subst hentry
    have hrank : (Volume.start path parent anchored directory).rankOf (directory.entries path) = 0 := by
      cases hentry : directory.entries path <;> rfl
    rw [hrank]
    exact ⟨le_rfl, rfl⟩
  lasting := by
    apply h.lasting.imp_right
    intro hmissing
    refine ⟨rfl, ?_⟩
    change some (directory.contentOf (directory.entries path)) = some none
    rw [show directory.entries path = none from hmissing]
    rfl
  contents content hcontent := by
    obtain rfl := List.mem_singleton.mp hcontent
    exact hgiven
  acknowledged told htold := by cases htold
  drawn draw hdraw := by cases hdraw
  owner draw hdraw := by cases hdraw
  created file writer hauthor := by cases hauthor
  bootsDrawn draw hdraw := by cases hdraw
  bootsLatest _ _ := rfl

/-! ### What only grows -/

/-- Contents are added at the end, and what callers have been told is not taken back. -/
def Grows (before after : Volume) : Prop :=
  before.replaced <+: after.replaced ∧ before.acknowledged <:+ after.acknowledged

theorem Grows.refl (volume : Volume) : Grows volume volume := ⟨List.prefix_rfl, List.suffix_rfl⟩

theorem Grows.trans (a b c : Volume) (hab : Grows a b) (hbc : Grows b c) : Grows a c :=
  ⟨hab.1.trans hbc.1, hab.2.trans hbc.2⟩

theorem grows_of_eq {before after : Volume} (hreplaced : after.replaced = before.replaced)
    (hacknowledged : after.acknowledged = before.acknowledged) : Grows before after :=
  ⟨hreplaced ▸ List.prefix_rfl, hacknowledged ▸ List.suffix_rfl⟩

theorem grows_acknowledge (writer : Writer) (content : Option Bytes) :
    Grows volume (volume.acknowledge writer content) := by
  rw [Volume.acknowledge]
  split_ifs
  · exact ⟨List.prefix_rfl, List.suffix_cons _ _⟩
  · exact Grows.refl volume

theorem grows_rename (writer : Writer) (source target : PathBuf) :
    Grows volume (volume.rename path writer source target).2 := by
  rw [Volume.rename]
  cases volume.directory.entries source with
  | none => exact Grows.refl volume
  | some file =>
    dsimp only
    split_ifs
    · exact ⟨List.prefix_append _ _, List.suffix_rfl⟩
    · exact grows_of_eq rfl rfl

theorem grows_exec (writer : Writer) (op : Op) (outcome : Outcome) :
    Grows volume (volume.exec path writer op outcome).2 := by
  cases op with
  | tempPathFor | readToString | unixSecondsNow => exact grows_of_eq rfl rfl
  | reportWritten bytes => exact grows_acknowledge writer _
  | reportConfirmed => exact grows_acknowledge writer _
  | metadata | setPrivateFilePermissions | writeAll | syncAll | tryExists =>
    simp only [Volume.exec]
    cases outcome.failure <;> exact grows_of_eq rfl rfl
  | rename source target =>
    simp only [Volume.exec]
    cases outcome.failure with
    | some err => exact Grows.refl volume
    | none => exact grows_rename writer source target
  | createPrivateDir =>
    simp only [Volume.exec]
    cases outcome.failure with
    | some err => exact Grows.refl volume
    | none =>
      simp only [Volume.createPrivateDir]
      cases volume.parent with
      | none => exact grows_of_eq rfl rfl
      | some kind => cases kind <;> exact Grows.refl volume
  | openPrivateNewFile temp =>
    simp only [Volume.exec]
    cases outcome.failure with
    | some err => exact Grows.refl volume
    | none =>
      simp only [Volume.openPrivateNewFile]
      split_ifs <;> exact grows_of_eq rfl rfl
  | syncParent =>
    simp only [Volume.exec]
    cases outcome.failure with
    | some err => exact Grows.refl volume
    | none =>
      simp only [Volume.syncParent]
      split_ifs <;> exact grows_of_eq rfl rfl
  | removeFile temp =>
    simp only [Volume.exec]
    cases outcome.failure with
    | some err => exact Grows.refl volume
    | none =>
      simp only [Volume.removeFile]
      cases volume.directory.entries temp <;> exact grows_of_eq rfl rfl

theorem grows_occur (incident : Incident) : Grows volume (volume.occur incident) := by
  cases incident with
  | exit process => exact grows_of_eq rfl rfl
  | crash loss losesDirectory =>
    rw [Volume.occur]
    split_ifs <;> exact grows_of_eq rfl rfl

theorem grows_turn (turn : Turn Writer Outcome Incident)
    (processes : Processes Writer Volume Op Op.Answer) :
    Grows processes.shared ((machine path).turn turn processes).2.shared := by
  cases turn with
  | event incident => exact grows_occur incident
  | step writer outcome =>
    rw [Machine.turn]
    split_ifs with hrunning
    · cases hprogram : processes.program writer with
      | done _ => exact Grows.refl _
      | call op next => exact grows_exec writer op outcome
    · exact Grows.refl _

theorem grows_run (processes : Processes Writer Volume Op Op.Answer)
    (turns : List (Turn Writer Outcome Incident)) :
    ((machine path).run processes turns).Pairwise fun moment later ↦
      Grows moment.after.shared later.after.shared := by
  have hbetween : ((machine path).run processes turns).Pairwise fun moment later ↦
      Grows moment.after.shared later.before.shared :=
    trace_pairwise (fun _ ↦ True) (fun before after ↦ Grows before.shared after.shared) (fun _ ↦ True)
      trivial (fun processes ↦ Grows.refl processes.shared)
      (fun a b c ↦ Grows.trans a.shared b.shared c.shared)
      (fun processes turn _ _ ↦ ⟨trivial, grows_turn turn processes⟩) fun _ _ ↦ trivial
  refine hbetween.imp_of_mem fun {moment later} _ hlater hgrows ↦ ?_
  obtain ⟨before, turn, rfl⟩ := exists_eq_stepEntry hlater
  exact hgrows.trans _ _ _ (grows_turn turn before)

theorem mem_acknowledge {writer : Writer} {content : Option Bytes} (h : volume.Anchored) :
    (volume.latest writer, content) ∈ (volume.acknowledge writer content).acknowledged := by
  rw [Volume.acknowledge, if_pos h]
  exact List.mem_cons_self

/-- A report is on record. -/
theorem Reports.acknowledged {processes : Processes Writer Volume Op Op.Answer}
    {turns : List (Turn Writer Outcome Incident)} {moment : (machine path).Moment} {rank : ℕ}
    {content : Option Bytes} (hmoment : moment ∈ (machine path).run processes turns)
    (h : Reports moment rank content) : (rank, content) ∈ moment.after.shared.acknowledged := by
  obtain ⟨before, turn, rfl⟩ := exists_eq_stepEntry hmoment
  obtain ⟨writer, outcome, op, next, hinput, hrunning, hprogram, hanchored, rfl, hop⟩ := h
  obtain rfl : turn = .step writer outcome := hinput
  have hrunning' : (machine path).running before.shared writer = true := decide_eq_true hrunning
  have hprogram' : before.program writer = .call op next := hprogram
  have hafter : ((machine path).turn (.step writer outcome) before).2.shared =
      (before.shared.exec path writer op outcome).2 := by
    rw [Machine.turn, if_pos hrunning', hprogram']
    rfl
  change _ ∈ ((machine path).turn (.step writer outcome) before).2.shared.acknowledged
  rw [hafter]
  rcases hop with ⟨bytes, rfl, rfl⟩ | ⟨rfl, rfl⟩
  · exact mem_acknowledge hanchored
  · exact mem_acknowledge hanchored

/-- Whatever writers, failures, exits and crashes there are: the file has always, and after a crash at
any moment, the content of the beginning or all bytes of a write; and once a caller has been told that
a content is written or confirmed, it has that content or one that has replaced it. -/
theorem writes_atomic_and_durable (path : PathBuf) (hparent : (nonEmptyParent path).isSome = true)
    (parent : Option FileKind) (anchored : Bool) (directory : Directory PathBuf UInt8)
    (hleft : LeftBehind path (Volume.start path parent anchored directory))
    (tasks : Writer → List Task) (turns : List (Turn Writer Outcome Incident))
    (hmeets : ∀ moment ∈ (machine path).run
      (writing path (Volume.start path parent anchored directory) tasks) turns,
      (machine path).Meets assumptions moment) :
    (∀ moment ∈ (machine path).run
        (writing path (Volume.start path parent anchored directory) tasks) turns,
      moment.after.shared.Since path 0 ∧
        ∀ content ∈ moment.after.shared.replaced, Given path directory tasks content) ∧
    ((machine path).run
        (writing path (Volume.start path parent anchored directory) tasks) turns).Pairwise
      fun moment later ↦ ∀ rank content, Reports moment rank content →
        later.after.shared.replaced[rank]? = some content ∧ later.after.shared.Since path rank := by
  let P := protocol path (Given path directory tasks)
  have hinv : P.inv (Volume.start path parent anchored directory) := inv_start hleft (.inl rfl)
  have hprograms (writer : Writer) : P.Wp writer (runTasks path (tasks writer)) (fun _ _ ↦ True)
      (Volume.start path parent anchored directory) := by
    apply triple_runTasks hparent (tasks writer) _ _ trivial
    exact fun bytes hmem ↦ .inr ⟨writer, bytes, hmem, rfl⟩
  have hrun : ∀ moment ∈ (machine path).run
      (writing path (Volume.start path parent anchored directory) tasks) turns,
      moment.after.shared.Inv path (Given path directory tasks) := fun moment hmoment ↦
    (P.run_invariant hinv hprograms hmeets moment hmoment).2
  constructor
  · intro moment hmoment
    exact ⟨(hrun moment hmoment).since.mono (Nat.zero_le _), (hrun moment hmoment).contents⟩
  · refine (grows_run _ turns).imp_of_mem fun {moment later} hmoment hlater hgrows ↦ ?_
    intro rank content hreports
    have htold := hgrows.2.subset (hreports.acknowledged hmoment)
    obtain ⟨hconfirmed, hcontent⟩ := (hrun later hlater).acknowledged _ htold
    exact ⟨hcontent, (hrun later hlater).since.mono hconfirmed⟩

end Runs

/-! ### Two processes and a crash -/

def stateFile : PathBuf := ⟨.rootDir, [.normal "run", .normal "state.json"], false⟩

def firstWriter : Writer := ⟨⟨0, 0, 1⟩, 0⟩

def secondWriter : Writer := ⟨⟨0, 0, 2⟩, 0⟩

def emptyDirectory : Directory PathBuf UInt8 := ⟨fun _ ↦ ⟨[], false⟩, 0, fun _ ↦ none, fun _ ↦ []⟩

/-- The first writer reports while the second one is in the middle of its write. -/
def overlapping : List (Turn Writer Outcome Incident) :=
  List.replicate 5 (.step secondWriter {}) ++ List.replicate 9 (.step firstWriter {}) ++
    [.event (.crash ⟨fun _ ↦ 0, fun _ ↦ []⟩ true)]

def writesOne (writer : Writer) : List Task := [.write (.ok [UInt8.ofNat writer.process.id.toNat])]

theorem leftBehind_emptyDirectory :
    LeftBehind stateFile (Volume.start stateFile (some .directory) true emptyDirectory) where
  bounded name entry hentry file hfile := by
    obtain rfl := List.mem_singleton.mp hentry
    cases hfile
  solid entry hentry file hfile := by
    obtain rfl := List.mem_singleton.mp hentry
    cases hfile
  durable := rfl
  lasting := .inr rfl

theorem writes_atomic_and_durable_overlapping :
    (∃ moment ∈ (machine stateFile).run
        (writing stateFile (Volume.start stateFile (some .directory) true emptyDirectory) writesOne)
        overlapping, moment.after.shared.acknowledged = [(1, some [1])]) ∧
    ∀ moment ∈ (machine stateFile).run
      (writing stateFile (Volume.start stateFile (some .directory) true emptyDirectory) writesOne)
      overlapping, moment.after.shared.Since stateFile 0 := by
  refine ⟨by decide +kernel, fun moment hmoment ↦ ?_⟩
  exact ((writes_atomic_and_durable stateFile (by decide) (some .directory) true emptyDirectory
    leftBehind_emptyDirectory writesOne overlapping (by decide +kernel)).1 moment hmoment).1

end FerrisBridge.Persistence
