import FerrisBridge.Format.Current
import FerrisBridge.Store.Crashes
import FerrisBridge.Store.LoneWriter

/-!
# The state store on a file system

The methods of the store as programs over single operations of the file system, with the bytes of the
state file. Run one at a time, wherever they fail or are cut off and whatever crashes leave, they are
the calls of the abstract store: what callers hear is what a history of the abstract file gives, and
every content that a crash may leave is durable in such a history.
-/

open Foundations

namespace FerrisBridge

open Persistence

/-- The path of the state file, and the reader and the writer of JSON texts. -/
structure FileStore where
  path : PathBuf
  toStringPretty : Json → String
  fromStr : String → Except String Json

abbrev StoreProgram := ExceptT String FileProgram

namespace FileStore

/-! ## Methods -/

section Methods

variable (store : FileStore)

def encode (state : RuntimeState) : Bytes :=
  (store.toStringPretty (stateFileFromState state) ++ "\n").toUTF8.data.toList

def parse (text : String) : Except String RuntimeState :=
  match parseStateFile store.fromStr text with
  | .ok state => .ok state
  | .error err => .error s!"failed to parse {store.path.display}: {err}"

def readStateFile : StoreProgram (Option RuntimeState) := do
  let input ← ExceptT.lift Op.readToString.run
  match input with
  | .ok text =>
    let state ← ExceptT.mk (pure (store.parse text))
    return some state
  | .error err =>
    if err.kind = .notFound then return none
    else throw s!"failed to read runtime state {store.path.display}: {err.message}"

def load : StoreProgram RuntimeState := do
  let existing ← store.readStateFile
  match existing with
  | some state => return state
  | none =>
    let now ← ExceptT.lift Op.unixSecondsNow.run
    return .new now

/-- Errors of the file system become the store's own. -/
def mapError {α : Type} (message : IoError → String) (program : FallibleProgram α) :
    StoreProgram α :=
  ExceptT.mk do
    let result ← program.run
    match result with
    | .ok a => return .ok a
    | .error err => return .error (message err)

def writeUnlocked (state : RuntimeState) : StoreProgram Unit := do
  ExceptT.mk (pure state.validate)
  mapError (fun err ↦ s!"failed to save runtime state {store.path.display}: {err.message}")
    (writeJsonAtomic store.path (.ok (store.encode state)))

def saveUnlocked (state : RuntimeState) : StoreProgram Unit := do
  let existing ← store.readStateFile
  let merged ← ExceptT.mk (pure (state.mergeSnapshot existing))
  store.writeUnlocked merged

def confirmDurable : StoreProgram Unit :=
  mapError
    (fun err ↦ s!"failed to confirm runtime state {store.path.display} durability: {err.message}")
    (confirmExistingFileDurable store.path)

def commit (state : RuntimeState) : Commit → StoreProgram Unit
  | .nothing => pure ()
  | .confirm => store.confirmDurable
  | .write => store.writeUnlocked state
  | .save => store.saveUnlocked state

def transact {α : Type} (transaction : U64 → Transaction (α × Commit)) : StoreProgram α := do
  let state ← store.load
  let now ← ExceptT.lift Op.unixSecondsNow.run
  match transaction now state with
  | .error err _ => throw err
  | .ok (reply, commit) state =>
    store.commit state commit
    return reply

def call : Request → StoreProgram Reply
  | .save snapshot _ => do
    store.saveUnlocked snapshot
    return .saved
  | .method method => store.transact method.work

/-- The store of states instead of bytes. -/
def abstract : StateStore := ⟨store.path.display⟩

/-- What the store writes is read back. -/
def ReadsBack : Prop :=
  ∀ state : RuntimeState, state.Valid →
    store.fromStr (store.toStringPretty (stateFileFromState state) ++ "\n") =
      .ok (stateFileFromState state)

end Methods

/-! ## Runs -/

/-- What callers see: results, calls that never return because their process ends, and crashes. -/
inductive Happening
  | returned (request : Request) (result : Except String Reply)
  | cutOff (request : Request)
  | crashed

/-- Calls one after the other, each by any process. -/
inductive Run (store : FileStore) (start : Volume) : List Happening → Volume → Prop
  | start : Run store start [] start
  | returned {happenings : List Happening} {before after : Volume} {request : Request}
    {result : Except String Reply} (writer : Writer) (earlier : Run store start happenings before)
    (runs : (store.call request).run.Runs (Volume.exec store.path writer) before (some result) after) :
    Run store start (happenings ++ [.returned request result]) after
  | cutOff {happenings : List Happening} {before after : Volume} {request : Request}
    (writer : Writer) (earlier : Run store start happenings before)
    (runs : (store.call request).run.Runs (Volume.exec store.path writer) before none after) :
    Run store start (happenings ++ [.cutOff request]) after
  | crashed {happenings : List Happening} {before : Volume} (loss : Loss PathBuf UInt8)
    (losesDirectory : Bool) (earlier : Run store start happenings before) :
    Run store start (happenings ++ [.crashed]) (before.occur (.crash loss losesDirectory))

/-! ## One call -/

/-- The result of a computation that leaves a state. -/
def resultOf {α : Type} (answer : Except String α) (disk : Disk) : EStateM.Result String Disk α :=
  match answer with
  | .ok a => .ok a disk
  | .error err => .error err disk

/-- The volume is what a computation of the abstract store leaves that answers as heard, if anything
is. The computation may show another state, and this one is durable or may become so by itself. -/
structure Answers {α : Type} (store : FileStore) (visible : Option RuntimeState)
    (left : Option Bytes → Prop) (m : EStateM String Disk α) (heard : Option (Except String α))
    (volume : Volume) : Prop where
  exists_answer : ∃ answer visible' settled, (∀ result ∈ heard, result = answer) ∧
    (∀ durable, m ⟨visible, durable⟩ =
      resultOf answer ⟨visible', if settled then visible' else durable⟩) ∧
    volume.Holds store.path (visible'.map store.encode) fun content ↦
      content = visible'.map store.encode ∨ settled = false ∧ left content

section Calls

variable {store : FileStore} {visible : Option RuntimeState} {left : Option Bytes → Prop}
  {writer : Writer} {volume : Volume} {α : Type}

theorem fromUTF8?_toUTF8 (text : String) :
    String.fromUTF8? ⟨text.toUTF8.data.toList.toArray⟩ = some text := by
  have hvalid : text.toUTF8.IsValidUTF8 := text.isValidUTF8
  rw [Array.toArray_toList, String.fromUTF8?, dif_pos hvalid]
  rfl

/-- The state is read back from its bytes. -/
theorem parse_of_valid (hreads : store.ReadsBack) {state : RuntimeState} (hvalid : state.Valid) :
    store.parse (store.toStringPretty (stateFileFromState state) ++ "\n") = .ok state := by
  rw [parse, parseStateFile_of_written hvalid (hreads state hvalid)]

theorem Answers.unchanged {m : EStateM String Disk α} {answer : Except String α}
    {heard : Option (Except String α)}
    (h : volume.Holds store.path (visible.map store.encode) left)
    (hheard : ∀ result ∈ heard, result = answer)
    (hm : ∀ durable, m ⟨visible, durable⟩ = resultOf answer ⟨visible, durable⟩) :
    Answers store visible left m heard volume :=
  ⟨answer, visible, false, hheard, hm, h.mono fun _ hleft ↦ .inr ⟨rfl, hleft⟩⟩

theorem readStateFile_of_valid {durable : Option RuntimeState}
    (hvisible : ∀ state ∈ visible, state.Valid) :
    store.abstract.readStateFile none ⟨visible, durable⟩ = .ok visible ⟨visible, durable⟩ := by
  cases visible with
  | none => rfl
  | some state =>
    have hvalid : state.validate = .ok () := RuntimeState.validate_eq_ok.mpr (hvisible state rfl)
    have hparse : store.abstract.parseStateFile state = .ok state := by
      simp only [StateStore.parseStateFile, hvalid]
    exact (estate_ok_bind (x := get) rfl).trans (estate_ok_bind (question_eq_ok.mpr ⟨hparse, rfl⟩))

/-- Reading gives the state, or fails and leaves the file. -/
theorem crash_readStateFile (hreads : store.ReadsBack) (hvisible : ∀ state ∈ visible, state.Valid) :
    CrashTriple (Volume.exec store.path writer)
      (fun volume ↦ volume.Holds store.path (visible.map store.encode) left)
      store.readStateFile.run
      (Protocol.Ends
        (fun state volume ↦ volume.Holds store.path (visible.map store.encode) left ∧ state = visible)
        fun err volume ↦ volume.Holds store.path (visible.map store.encode) left ∧
          ∃ cause : String, err = s!"failed to read runtime state {store.path.display}: {cause}")
      fun volume ↦ volume.Holds store.path (visible.map store.encode) left := by
  have hread : CrashTriple (Volume.exec store.path writer)
      (fun volume ↦ volume.Holds store.path (visible.map store.encode) left) Op.readToString.run
      (fun (input : IoResult String) volume ↦
        volume.Holds store.path (visible.map store.encode) left ∧
          ((∃ cause, input = .error ⟨.other, cause⟩) ∨ visible = none ∧ input = .error notFound ∨
            ∃ state ∈ visible,
              input = .ok (store.toStringPretty (stateFileFromState state) ++ "\n")))
      fun volume ↦ volume.Holds store.path (visible.map store.encode) left := by
    apply CrashTriple.perform fun _ h ↦ h
    intro volume outcome h
    refine ⟨h, ?_⟩
    simp only [Volume.exec, Volume.readToString, h.shown]
    cases outcome.failure with
    | some err => cases visible <;> exact .inl ⟨err.message, rfl⟩
    | none =>
      cases visible with
      | none => exact .inr (.inl ⟨rfl, rfl⟩)
      | some state =>
        refine .inr (.inr ⟨state, rfl, ?_⟩)
        simp only [Option.map_some, encode, fromUTF8?_toUTF8]
  apply CrashTriple.exceptBind (CrashTriple.exceptLift hread)
  rintro input volume ⟨h, ⟨cause, rfl⟩ | ⟨rfl, rfl⟩ | ⟨state, hstate, rfl⟩⟩ result after hruns
  · cases hruns with
    | done => exact ⟨h, cause, rfl⟩
  · cases hruns with
    | done => exact ⟨h, rfl⟩
  · obtain rfl := Option.mem_def.mp hstate
    have hparse := parse_of_valid hreads (hvisible state rfl)
    simp only [hparse] at hruns
    cases hruns with
    | done => exact ⟨h, rfl⟩

/-- What holds of the result of a program, whether it is an error or not. -/
abbrev Ending {α : Type} (post : Except String α → Volume → Prop) : Except String α → Volume → Prop :=
  Protocol.Ends (fun a ↦ post (.ok a)) fun err ↦ post (.error err)

theorem ending_iff {post : Except String α → Volume → Prop} {result : Except String α} :
    Ending post result volume ↔ post result volume := by
  cases result <;> exact Iff.rfl

/-! ### Writing -/

theorem writeUnlocked_eq {state : RuntimeState} (hvalid : state.validate = .ok ()) (io : Io)
    (disk : Disk) : store.abstract.writeUnlocked io state disk =
      mapErr (fun err ↦ s!"failed to save runtime state {store.path.display}: {err}")
        (StateStore.writeJsonAtomic io state) disk :=
  estate_ok_bind (question_eq_ok.mpr ⟨hvalid, rfl⟩)

theorem Answers.of_cutOff {state : RuntimeState} {io : Io} {cause : String}
    {heard : Option (Except String Unit)} (hvalid : state.validate = .ok ())
    (hheard : ∀ result ∈ heard,
      result = .error s!"failed to save runtime state {store.path.display}: {cause}")
    (hbefore : volume.Holds store.path (visible.map store.encode) left)
    (hio : io.write = .failedBeforeReplace cause) :
    Answers store visible left (store.abstract.writeUnlocked io state) heard volume := by
  apply Answers.unchanged hbefore hheard
  intro durable
  rw [writeUnlocked_eq hvalid, StateStore.writeJsonAtomic, hio]
  rfl

theorem Answers.of_unconfirmed {state : RuntimeState} {io : Io} {cause : String}
    {heard : Option (Except String Unit)} (hvalid : state.validate = .ok ())
    (hheard : ∀ result ∈ heard,
      result = .error s!"failed to save runtime state {store.path.display}: {cause}")
    (hafter : volume.Holds store.path (some (store.encode state)) fun content ↦
      left content ∨ content = some (store.encode state))
    (hio : io.write = .failedAfterReplace cause) :
    Answers store visible left (store.abstract.writeUnlocked io state) heard volume := by
  refine ⟨_, some state, false, hheard, fun durable ↦ ?_, hafter.mono fun content hcontent ↦ ?_⟩
  · rw [writeUnlocked_eq hvalid, StateStore.writeJsonAtomic, hio]
    rfl
  · exact hcontent.symm.imp_right fun hleft ↦ ⟨rfl, hleft⟩

/-- A write that fails or is cut off has been made before or after the replacement. -/
theorem exists_answers_of_cutOff {state : RuntimeState} (cause : String)
    {heard : Option (Except String Unit)} (hvalid : state.validate = .ok ())
    (hheard : ∀ result ∈ heard,
      result = .error s!"failed to save runtime state {store.path.display}: {cause}")
    (h : CutOff store.path (visible.map store.encode) left (store.encode state) volume) :
    ∃ write, ∀ io : Io, io.write = write →
      Answers store visible left (store.abstract.writeUnlocked io state) heard volume := by
  rcases h with hbefore | hafter
  · exact ⟨.failedBeforeReplace cause, fun io hio ↦ .of_cutOff hvalid hheard hbefore hio⟩
  · exact ⟨.failedAfterReplace cause, fun io hio ↦ .of_unconfirmed hvalid hheard hafter hio⟩

theorem crash_writeUnlocked (hparent : (nonEmptyParent store.path).isSome = true)
    (state : RuntimeState) :
    CrashTriple (Volume.exec store.path writer)
      (fun volume ↦ volume.Holds store.path (visible.map store.encode) left)
      (store.writeUnlocked state).run
      (Ending fun result volume ↦ ∃ write, ∀ io : Io, io.write = write →
        Answers store visible left (store.abstract.writeUnlocked io state) (some result) volume)
      fun volume ↦ ∃ write, ∀ io : Io, io.write = write →
        Answers store visible left (store.abstract.writeUnlocked io state) none volume := by
  cases hvalid : state.validate with
  | error err =>
    intro volume h result after hruns
    rw [writeUnlocked, hvalid] at hruns
    cases hruns with
    | done =>
      refine ⟨.replaced, fun io _ ↦ .unchanged h (by rintro _ ⟨⟩; rfl) fun durable ↦ ?_⟩
      exact estate_error_bind (question_eq_error.mpr ⟨hvalid, rfl⟩)
  | ok u =>
    have hwrite : CrashTriple (Volume.exec store.path writer)
        (fun volume ↦ volume.Holds store.path (visible.map store.encode) left)
        (writeJsonAtomic store.path (.ok (store.encode state))).run _ _ :=
      crash_writeJsonAtomic hparent
    have hcut : ∀ volume, CutOff store.path (visible.map store.encode) left (store.encode state) volume →
        ∃ write, ∀ io : Io, io.write = write →
          Answers store visible left (store.abstract.writeUnlocked io state) none volume :=
      fun volume h ↦ exists_answers_of_cutOff "" hvalid (by rintro _ ⟨⟩) h
    rw [writeUnlocked, hvalid]
    refine (hwrite.imp_cut hcut).andThen fun result ↦ ?_
    cases result with
    | ok _ =>
      apply CrashTriple.pure
      intro volume h
      refine ⟨.replaced, fun io hio ↦ ⟨.ok (), some state, true, by rintro _ ⟨⟩; rfl, fun durable ↦ ?_,
        h.mono fun content hcontent ↦ .inl hcontent⟩⟩
      rw [writeUnlocked_eq hvalid, StateStore.writeJsonAtomic, hio]
      rfl
    | error err =>
      apply CrashTriple.pure
      intro volume h
      exact exists_answers_of_cutOff err.message hvalid (by rintro _ ⟨⟩; rfl) h

theorem Answers.mono {m m' : EStateM String Disk α} {heard : Option (Except String α)}
    (h : Answers store visible left m heard volume)
    (hm : ∀ durable, m' ⟨visible, durable⟩ = m ⟨visible, durable⟩) :
    Answers store visible left m' heard volume := by
  obtain ⟨answer, visible', settled, hheard, htakes, hholds⟩ := h
  exact ⟨answer, visible', settled, hheard, fun durable ↦ (hm durable).trans (htakes durable), hholds⟩

theorem readStateFile_failed (cause : String) (disk : Disk) :
    store.abstract.readStateFile (some cause) disk =
      .error s!"failed to read runtime state {store.path.display}: {cause}" disk := rfl

/-- What follows the reading of the state file. -/
theorem crash_readThen {rest : Option RuntimeState → StoreProgram α}
    {post : Except String α → Volume → Prop} {cut : Volume → Prop} (hreads : store.ReadsBack)
    (hvisible : ∀ state ∈ visible, state.Valid)
    (hfailed : ∀ (cause : String) volume, volume.Holds store.path (visible.map store.encode) left →
      post (.error s!"failed to read runtime state {store.path.display}: {cause}") volume)
    (hcut : ∀ volume, volume.Holds store.path (visible.map store.encode) left → cut volume)
    (hrest : CrashTriple (Volume.exec store.path writer)
      (fun volume ↦ volume.Holds store.path (visible.map store.encode) left) (rest visible).run
      (Ending post) cut) :
    CrashTriple (Volume.exec store.path writer)
      (fun volume ↦ volume.Holds store.path (visible.map store.encode) left)
      (store.readStateFile >>= rest).run (Ending post) cut := by
  have hread : CrashTriple (Volume.exec store.path writer)
      (fun volume ↦ volume.Holds store.path (visible.map store.encode) left) store.readStateFile.run
      (Protocol.Ends
        (fun state volume ↦ volume.Holds store.path (visible.map store.encode) left ∧ state = visible)
        fun err volume ↦ post (.error err) volume) cut := by
    refine (crash_readStateFile hreads hvisible).imp (fun _ h ↦ h) (fun result volume hend ↦ ?_) hcut
    cases result with
    | ok state => exact hend
    | error err =>
      obtain ⟨hholds, cause, rfl⟩ := hend
      exact hfailed cause volume hholds
  apply CrashTriple.exceptBind hread
  intro state
  apply CrashTriple.of_pure
  rintro rfl
  exact hrest

/-- A save answers as one of the abstract store, for what the file system has answered. -/
def Saves (store : FileStore) (visible : Option RuntimeState) (left : Option Bytes → Prop)
    (state : RuntimeState) (heard : Option (Except String Unit)) (volume : Volume) : Prop :=
  ∃ read write, ∀ io : Io, io.readForMerge = read → io.write = write →
    Answers store visible left (store.abstract.saveUnlocked io state) heard volume

theorem saves_of_failed {state : RuntimeState} {heard : Option (Except String Unit)} (cause : String)
    (hholds : volume.Holds store.path (visible.map store.encode) left)
    (hheard : ∀ result ∈ heard,
      result = .error s!"failed to read runtime state {store.path.display}: {cause}") :
    Saves store visible left state heard volume := by
  refine ⟨some cause, .replaced, fun io hread _ ↦ .unchanged hholds hheard fun durable ↦ ?_⟩
  apply estate_error_bind
  rw [StateStore.loadExistingForMerge, hread]
  exact readStateFile_failed cause _

theorem crash_saveUnlocked (hparent : (nonEmptyParent store.path).isSome = true)
    (hreads : store.ReadsBack) (hvisible : ∀ state ∈ visible, state.Valid) (state : RuntimeState) :
    CrashTriple (Volume.exec store.path writer)
      (fun volume ↦ volume.Holds store.path (visible.map store.encode) left)
      (store.saveUnlocked state).run
      (Ending fun result ↦ Saves store visible left state (some result))
      (Saves store visible left state none) := by
  apply crash_readThen hreads hvisible
  · exact fun cause volume h ↦ saves_of_failed cause h (by rintro _ ⟨⟩; rfl)
  · exact fun volume h ↦ saves_of_failed "" h (by rintro _ ⟨⟩)
  have hloaded (io : Io) (hread : io.readForMerge = none) (durable : Option RuntimeState) :
      store.abstract.saveUnlocked io state ⟨visible, durable⟩ =
        (do store.abstract.writeUnlocked io (← question (state.mergeSnapshot visible)) :
          EStateM String Disk Unit) ⟨visible, durable⟩ := by
    apply estate_ok_bind
    rw [StateStore.loadExistingForMerge, hread]
    exact readStateFile_of_valid hvisible
  cases hmerge : state.mergeSnapshot visible with
  | error err =>
    intro volume h result after hruns
    cases hruns with
    | done =>
      refine ⟨none, .replaced, fun io hread _ ↦ .unchanged h (by rintro _ ⟨⟩; rfl) fun durable ↦ ?_⟩
      rw [hloaded io hread]
      exact estate_error_bind (question_eq_error.mpr ⟨hmerge, rfl⟩)
  | ok merged =>
    have hmerged (io : Io) (hread : io.readForMerge = none) (durable : Option RuntimeState) :
        store.abstract.saveUnlocked io state ⟨visible, durable⟩ =
          store.abstract.writeUnlocked io merged ⟨visible, durable⟩ := by
      rw [hloaded io hread]
      exact estate_ok_bind (question_eq_ok.mpr ⟨hmerge, rfl⟩)
    have hsaves {heard : Option (Except String Unit)} {volume : Volume}
        (h : ∃ write, ∀ io : Io, io.write = write →
          Answers store visible left (store.abstract.writeUnlocked io merged) heard volume) :
        Saves store visible left state heard volume := by
      obtain ⟨write, hwrite⟩ := h
      exact ⟨none, write, fun io hread hio ↦ (hwrite io hio).mono (hmerged io hread)⟩
    refine (crash_writeUnlocked hparent merged).imp (fun _ h ↦ h) (fun result volume hend ↦ ?_)
      fun volume h ↦ hsaves h
    exact ending_iff.mpr (hsaves (ending_iff.mp hend))

/-! ### Methods -/

theorem crash_confirmDurable (hparent : (nonEmptyParent store.path).isSome = true) :
    CrashTriple (Volume.exec store.path writer)
      (fun volume ↦ volume.Holds store.path (visible.map store.encode) left)
      store.confirmDurable.run
      (Ending fun result volume ↦ ∃ confirm, ∀ io : Io, io.confirm = confirm →
        Answers store visible left (store.abstract.confirmDurable io) (some result) volume)
      fun volume ↦ ∃ confirm, ∀ io : Io, io.confirm = confirm →
        Answers store visible left (store.abstract.confirmDurable io) none volume := by
  have hfailed {heard : Option (Except String Unit)} {volume : Volume} (cause : String)
      (hholds : volume.Holds store.path (visible.map store.encode) left)
      (hheard : ∀ result ∈ heard, result =
        .error s!"failed to confirm runtime state {store.path.display} durability: {cause}") :
      ∃ confirm, ∀ io : Io, io.confirm = confirm →
        Answers store visible left (store.abstract.confirmDurable io) heard volume := by
    refine ⟨some cause, fun io hio ↦ .unchanged hholds hheard fun durable ↦ ?_⟩
    rw [StateStore.confirmDurable, StateStore.confirmExistingFileDurable, hio]
    rfl
  have hconfirm : CrashTriple (Volume.exec store.path writer)
      (fun volume ↦ volume.Holds store.path (visible.map store.encode) left)
      (confirmExistingFileDurable store.path).run _ _ := crash_confirmExistingFileDurable hparent
  refine (hconfirm.imp_cut fun volume h ↦ hfailed "" h (by rintro _ ⟨⟩)).andThen fun result ↦ ?_
  cases result with
  | ok _ =>
    apply CrashTriple.pure
    intro volume h
    refine ⟨none, fun io hio ↦ ⟨.ok (), visible, true, by rintro _ ⟨⟩; rfl, fun durable ↦ ?_,
      h.mono fun content hcontent ↦ .inl hcontent⟩⟩
    rw [StateStore.confirmDurable, StateStore.confirmExistingFileDurable, hio]
    rfl
  | error err =>
    apply CrashTriple.pure
    intro volume h
    exact hfailed err.message h (by rintro _ ⟨⟩; rfl)

/-- A commit answers as one of the abstract store, for what the file system has answered. -/
def Commits (store : FileStore) (visible : Option RuntimeState) (left : Option Bytes → Prop)
    (state : RuntimeState) (commit : Commit) (heard : Option (Except String Unit)) (volume : Volume) :
    Prop :=
  ∃ read confirm write, ∀ io : Io, io.readForMerge = read → io.confirm = confirm → io.write = write →
    Answers store visible left (store.abstract.commit io state commit) heard volume

theorem crash_commit (hparent : (nonEmptyParent store.path).isSome = true)
    (hreads : store.ReadsBack) (hvisible : ∀ state ∈ visible, state.Valid) (state : RuntimeState)
    (commit : Commit) :
    CrashTriple (Volume.exec store.path writer)
      (fun volume ↦ volume.Holds store.path (visible.map store.encode) left)
      (store.commit state commit).run
      (Ending fun result ↦ Commits store visible left state commit (some result))
      (Commits store visible left state commit none) := by
  cases commit with
  | nothing =>
    apply CrashTriple.pure
    intro volume h
    exact ⟨none, none, .replaced, fun io _ _ _ ↦ .unchanged h (by rintro _ ⟨⟩; rfl) fun _ ↦ rfl⟩
  | confirm =>
    refine (crash_confirmDurable hparent).imp (fun _ h ↦ h) (fun result volume hend ↦ ?_)
      fun volume h ↦ ?_
    · obtain ⟨confirm, hanswers⟩ := ending_iff.mp hend
      exact ending_iff.mpr ⟨none, confirm, .replaced, fun io _ hio _ ↦ hanswers io hio⟩
    · obtain ⟨confirm, hanswers⟩ := h
      exact ⟨none, confirm, .replaced, fun io _ hio _ ↦ hanswers io hio⟩
  | write =>
    refine (crash_writeUnlocked hparent state).imp (fun _ h ↦ h) (fun result volume hend ↦ ?_)
      fun volume h ↦ ?_
    · obtain ⟨write, hanswers⟩ := ending_iff.mp hend
      exact ending_iff.mpr ⟨none, none, write, fun io _ _ hio ↦ hanswers io hio⟩
    · obtain ⟨write, hanswers⟩ := h
      exact ⟨none, none, write, fun io _ _ hio ↦ hanswers io hio⟩
  | save =>
    refine (crash_saveUnlocked hparent hreads hvisible state).imp (fun _ h ↦ h)
      (fun result volume hend ↦ ?_) fun volume h ↦ ?_
    · obtain ⟨read, write, hanswers⟩ := ending_iff.mp hend
      exact ending_iff.mpr ⟨read, none, write, fun io hread _ hio ↦ hanswers io hread hio⟩
    · obtain ⟨read, write, hanswers⟩ := h
      exact ⟨read, none, write, fun io hread _ hio ↦ hanswers io hread hio⟩

/-- A method answers as one of the abstract store, for some answers of the file system. -/
def Transacts (store : FileStore) (visible : Option RuntimeState) (left : Option Bytes → Prop)
    (transaction : U64 → Transaction (α × Commit)) (heard : Option (Except String α))
    (volume : Volume) : Prop :=
  ∃ io, Answers store visible left (store.abstract.transact io transaction) heard volume

theorem transacts_of_failed {transaction : U64 → Transaction (α × Commit)}
    {heard : Option (Except String α)} (cause : String)
    (hholds : volume.Holds store.path (visible.map store.encode) left)
    (hheard : ∀ result ∈ heard,
      result = .error s!"failed to read runtime state {store.path.display}: {cause}") :
    Transacts store visible left transaction heard volume := by
  refine ⟨{ Io.untroubled with read := some cause }, .unchanged hholds hheard fun durable ↦ ?_⟩
  exact estate_error_bind (estate_error_bind (readStateFile_failed cause _))

theorem crash_load {bad : String → Volume → Prop} {cut : Volume → Prop} (hreads : store.ReadsBack)
    (hvisible : ∀ state ∈ visible, state.Valid)
    (hfailed : ∀ (cause : String) volume, volume.Holds store.path (visible.map store.encode) left →
      bad s!"failed to read runtime state {store.path.display}: {cause}" volume)
    (hcut : ∀ volume, volume.Holds store.path (visible.map store.encode) left → cut volume) :
    CrashTriple (Volume.exec store.path writer)
      (fun volume ↦ volume.Holds store.path (visible.map store.encode) left) store.load.run
      (Protocol.Ends (fun state volume ↦ volume.Holds store.path (visible.map store.encode) left ∧
        ∃ time, state = visible.getD (.new time)) bad) cut := by
  have hload : CrashTriple (Volume.exec store.path writer)
      (fun volume ↦ volume.Holds store.path (visible.map store.encode) left) store.load.run
      (Ending (Protocol.Ends (fun state volume ↦
        volume.Holds store.path (visible.map store.encode) left ∧
          ∃ time, state = visible.getD (.new time)) bad)) cut := by
    apply crash_readThen hreads hvisible hfailed hcut
    cases visible with
    | some state => exact CrashTriple.pure fun _ h ↦ ⟨h, 0, rfl⟩
    | none =>
      have hnow : CrashTriple (Volume.exec store.path writer)
          (fun volume ↦ volume.Holds store.path none left) Op.unixSecondsNow.run
          (fun (_ : U64) volume ↦ volume.Holds store.path none left) cut :=
        CrashTriple.perform hcut fun _ _ h ↦ h
      apply CrashTriple.exceptBind (CrashTriple.exceptLift hnow)
      exact fun time ↦ CrashTriple.pure fun _ h ↦ ⟨h, time, rfl⟩
  exact hload.imp_post fun result volume hend ↦ ending_iff.mp hend

/-- The work of a method of the abstract store on the state that it has loaded. -/
theorem transact_eq {transaction : U64 → Transaction (α × Commit)} {io : Io} {time : U64}
    (hvisible : ∀ state ∈ visible, state.Valid) (hread : io.read = none)
    (htime : io.newStateAt = time) (durable : Option RuntimeState) :
    store.abstract.transact io transaction ⟨visible, durable⟩ =
      (match transaction io.now (visible.getD (.new time)) with
      | .error err _ => (throw err : EStateM String Disk α)
      | .ok (reply, commit) state => do
        store.abstract.commit io state commit
        return reply) ⟨visible, durable⟩ := by
  have hloaded : store.abstract.load io ⟨visible, durable⟩ =
      .ok (visible.getD (.new time)) ⟨visible, durable⟩ := by
    rw [StateStore.load, hread, ← htime]
    exact (estate_ok_bind (readStateFile_of_valid hvisible)).trans rfl
  exact estate_ok_bind hloaded

/-- A reply that follows a commit. -/
theorem Answers.andReturn {m : EStateM String Disk Unit} {heard : Option (Except String Unit)}
    (h : Answers store visible left m heard volume) (reply : α) :
    Answers store visible left (do m; return reply : EStateM String Disk α)
      (heard.map fun result ↦ result.map fun _ ↦ reply) volume := by
  obtain ⟨answer, visible', settled, hheard, htakes, hholds⟩ := h
  refine ⟨answer.map fun _ ↦ reply, visible', settled, ?_, fun durable ↦ ?_, hholds⟩
  · intro result hresult
    obtain ⟨result', hresult', rfl⟩ := Option.map_eq_some_iff.mp hresult
    rw [hheard result' hresult']
  · have htaken := htakes durable
    cases answer with
    | ok u => exact estate_ok_bind htaken
    | error err => exact estate_error_bind htaken

theorem crash_transact (hparent : (nonEmptyParent store.path).isSome = true)
    (hreads : store.ReadsBack) (hvisible : ∀ state ∈ visible, state.Valid)
    (transaction : U64 → Transaction (α × Commit)) :
    CrashTriple (Volume.exec store.path writer)
      (fun volume ↦ volume.Holds store.path (visible.map store.encode) left)
      (store.transact transaction).run
      (Ending fun result ↦ Transacts store visible left transaction (some result))
      (Transacts store visible left transaction none) := by
  have hcut (volume : Volume) (h : volume.Holds store.path (visible.map store.encode) left) :
      Transacts store visible left transaction none volume :=
    transacts_of_failed "" h (by rintro _ ⟨⟩)
  apply CrashTriple.exceptBind (crash_load hreads hvisible _ hcut)
  · intro state
    apply CrashTriple.of_pure
    rintro ⟨time, rfl⟩
    have hnow : CrashTriple (Volume.exec store.path writer)
        (fun volume ↦ volume.Holds store.path (visible.map store.encode) left) Op.unixSecondsNow.run
        (fun (_ : U64) volume ↦ volume.Holds store.path (visible.map store.encode) left)
        (Transacts store visible left transaction none) := CrashTriple.perform hcut fun _ _ h ↦ h
    apply CrashTriple.exceptBind (CrashTriple.exceptLift hnow)
    intro (now : U64)
    cases hwork : transaction now (visible.getD (.new time)) with
    | error err state =>
      intro volume h result after hruns
      simp only at hruns
      cases hruns with
      | done =>
        refine ⟨{ Io.untroubled with newStateAt := time, now := now },
          .unchanged h (by rintro _ ⟨⟩; rfl) fun durable ↦ ?_⟩
        rw [transact_eq hvisible rfl rfl]
        simp only [hwork]
        rfl
    | ok result state =>
      obtain ⟨reply, commit⟩ := result
      simp only
      have htransacts {heard : Option (Except String Unit)} {volume : Volume}
          (h : Commits store visible left state commit heard volume) :
          Transacts store visible left transaction
            (heard.map fun result ↦ result.map fun _ ↦ reply) volume := by
        obtain ⟨read, confirm, write, hanswers⟩ := h
        refine ⟨⟨none, read, write, confirm, time, now⟩, ?_⟩
        refine ((hanswers ⟨none, read, write, confirm, time, now⟩ rfl rfl rfl).andReturn reply).mono ?_
        intro durable
        rw [transact_eq hvisible rfl rfl]
        simp only [hwork]
      have hcommit : CrashTriple (Volume.exec store.path writer)
          (fun volume ↦ volume.Holds store.path (visible.map store.encode) left)
          (store.commit state commit).run
          (Protocol.Ends
            (fun _ ↦ Transacts store visible left transaction (some (.ok reply)))
            fun err ↦ Transacts store visible left transaction (some (.error err)))
          (Transacts store visible left transaction none) := by
        refine (crash_commit hparent hreads hvisible state commit).imp (fun _ h ↦ h)
          (fun result volume hend ↦ ?_) fun volume h ↦ htransacts h
        have hdone := htransacts (ending_iff.mp hend)
        cases result with
        | ok u => exact hdone
        | error err => exact hdone
      apply CrashTriple.exceptBind hcommit
      exact fun _ ↦ CrashTriple.pure fun _ h ↦ h
  · exact fun cause volume h ↦ transacts_of_failed cause h (by rintro _ ⟨⟩; rfl)

/-- A call leaves what a call of the abstract store leaves that answers as heard. -/
theorem crash_call (hparent : (nonEmptyParent store.path).isSome = true)
    (hreads : store.ReadsBack) (hvisible : ∀ state ∈ visible, state.Valid) (request : Request) :
    CrashTriple (Volume.exec store.path writer)
      (fun volume ↦ volume.Holds store.path (visible.map store.encode) left)
      (store.call request).run
      (Ending fun result volume ↦ ∃ io,
        Answers store visible left (store.abstract.call io request) (some result) volume)
      fun volume ↦ ∃ io,
        Answers store visible left (store.abstract.call io request) none volume := by
  cases request with
  | method method => exact crash_transact hparent hreads hvisible method.work
  | save snapshot valid =>
    have hcalls {heard : Option (Except String Unit)} {volume : Volume}
        (h : Saves store visible left snapshot heard volume) :
        ∃ io, Answers store visible left (store.abstract.call io (.save snapshot valid))
          (heard.map fun result ↦ result.map fun _ ↦ .saved) volume := by
      obtain ⟨read, write, hanswers⟩ := h
      refine ⟨{ Io.untroubled with readForMerge := read, write := write }, ?_⟩
      exact (hanswers { Io.untroubled with readForMerge := read, write := write } rfl rfl).andReturn _
    have hsave : CrashTriple (Volume.exec store.path writer)
        (fun volume ↦ volume.Holds store.path (visible.map store.encode) left)
        (store.saveUnlocked snapshot).run
        (Protocol.Ends
          (fun _ volume ↦ ∃ io, Answers store visible left
            (store.abstract.call io (.save snapshot valid)) (some (.ok .saved)) volume)
          fun err volume ↦ ∃ io, Answers store visible left
            (store.abstract.call io (.save snapshot valid)) (some (.error err)) volume)
        fun volume ↦ ∃ io, Answers store visible left
          (store.abstract.call io (.save snapshot valid)) none volume := by
      refine (crash_saveUnlocked hparent hreads hvisible snapshot).imp (fun _ h ↦ h)
        (fun result volume hend ↦ ?_) fun volume h ↦ hcalls h
      have hdone := hcalls (ending_iff.mp hend)
      cases result with
      | ok u => exact hdone
      | error err => exact hdone
    apply CrashTriple.exceptBind hsave
    exact fun _ ↦ CrashTriple.pure fun _ h ↦ h

end Calls

end FileStore

end FerrisBridge
