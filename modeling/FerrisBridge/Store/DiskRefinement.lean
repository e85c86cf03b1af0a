import FerrisBridge.Format.Text
import FerrisBridge.Store.OnDisk
import FerrisBridge.Store.WriteSafety

/-!
# The store on a file system refines the abstract one

The simulation runs over the happenings one by one. It keeps the visible state, and for every content
that a crash may leave a history of the abstract file in which this content is durable. The history has
a call for every call, with the same result if one was heard, and a crash for every crash; between them
it only makes the visible state durable.
-/

open Foundations

namespace FerrisBridge

open Persistence

/-- The visible content becomes durable by itself. -/
def FileAction.isFlush : FileAction → Bool
  | .flush => true
  | _ => false

namespace FileStore

/-- A step of the abstract file as which a happening appears. -/
inductive Happening.AppearsAs : Happening → FileEntry → Prop
  | returned {request : Request} {result : Except String Reply} {io : Io} {e : FileEntry}
    (input : e.input = .call ⟨request, io⟩) (output : e.output = some result) :
    AppearsAs (.returned request result) e
  | cutOff {request : Request} {io : Io} {e : FileEntry} (input : e.input = .call ⟨request, io⟩) :
    AppearsAs (.cutOff request) e
  | crashed {e : FileEntry} (input : e.input = .crash) : AppearsAs .crashed e

/-- An abstract history of the happenings, and what it leaves. -/
structure Explains (store : FileStore) (actions : List FileAction) (happenings : List Happening)
    (disk : Disk) : Prop where
  final : finalOf store.abstract.stepWithCrashes .absent actions = disk
  steps : List.Forall₂ Happening.AppearsAs happenings
    ((store.abstract.historyWithCrashes actions).filter fun e ↦ !e.input.isFlush)

/-- The file and the content that a crash may leave of it, as an abstract history explains them. -/
def Explained (store : FileStore) (happenings : List Happening) (visible : Option RuntimeState)
    (content : Option Bytes) : Prop :=
  ∃ actions durable, store.Explains actions happenings ⟨visible, durable⟩ ∧
    durable.map store.encode = content

section Simulation

variable {store : FileStore} {actions : List FileAction} {happenings : List Happening} {disk : Disk}
  {visible : Option RuntimeState} {volume : Volume} {start : Volume}

/-! ## Steps of the abstract file -/

theorem Explains.step {happening : Happening} (action : FileAction)
    (h : store.Explains actions happenings disk) (hflush : action.isFlush = false)
    (happears : happening.AppearsAs (stepEntry store.abstract.stepWithCrashes disk action)) :
    store.Explains (actions ++ [action]) (happenings ++ [happening])
      (store.abstract.stepWithCrashes action disk).2 where
  final := by
    rw [finalOf_append, h.final]
    rfl
  steps := by
    rw [StateStore.historyWithCrashes, trace_append, List.filter_append, h.final]
    apply List.rel_append h.steps
    rw [trace, trace, List.filter_cons_of_pos (by rw [stepEntry, hflush]; rfl), List.filter_nil]
    exact .cons happears .nil

theorem Explains.flush (h : store.Explains actions happenings disk) :
    store.Explains (actions ++ [.flush]) happenings disk.flush where
  final := by
    rw [finalOf_append, h.final]
    rfl
  steps := by
    rw [StateStore.historyWithCrashes, trace_append, List.filter_append, h.final]
    rw [trace, trace, List.filter_cons_of_neg (by rw [stepEntry]; exact Bool.false_ne_true),
      List.filter_nil, List.append_nil]
    exact h.steps

theorem Explains.recoverable (h : store.Explains actions happenings disk) : disk.Recoverable :=
  h.final ▸ StateStore.recoverable_final

/-! ## Steps of the file system -/

/-- The volume has the state file as abstract histories of the happenings explain it. -/
def Simulates (store : FileStore) (happenings : List Happening) (volume : Volume) : Prop :=
  ∃ visible, volume.Holds store.path (visible.map store.encode) (store.Explained happenings visible)

theorem simulates_start (h : start.Holds store.path none (· = none)) : store.Simulates [] start := by
  refine ⟨none, h.mono ?_⟩
  rintro _ rfl
  exact ⟨[], none, ⟨rfl, .nil⟩, rfl⟩

theorem Explained.valid {content : Option Bytes} (h : store.Explained happenings visible content) :
    ∀ state ∈ visible, state.Valid := by
  obtain ⟨actions, durable, hexplains, -⟩ := h
  exact hexplains.recoverable.valid

/-- A call appears as one call of the abstract store, after which the state may be durable at once. -/
theorem simulates_call {happening : Happening} {request : Request} {io : Io}
    {heard : Option (Except String Reply)}
    (hanswers : Answers store visible (store.Explained happenings visible)
      (store.abstract.call io request) heard volume)
    (happears : ∀ e : FileEntry, e.input = .call ⟨request, io⟩ →
      (∀ result ∈ heard, e.output = some result) → happening.AppearsAs e)
    (hexplained : ∃ content, store.Explained happenings visible content) :
    store.Simulates (happenings ++ [happening]) volume := by
  obtain ⟨answer, visible', settled, hheard, hcall, hholds⟩ := hanswers
  have hstep (durable : Option RuntimeState) :
      store.abstract.stepWithCrashes (.call ⟨request, io⟩) ⟨visible, durable⟩ =
        (some answer, ⟨visible', if settled then visible' else durable⟩) := by
    rw [StateStore.stepWithCrashes, StateStore.step, hcall]
    cases answer <;> rfl
  have hexplains {actions : List FileAction} {durable : Option RuntimeState}
      (h : store.Explains actions happenings ⟨visible, durable⟩) :
      store.Explains (actions ++ [.call ⟨request, io⟩]) (happenings ++ [happening])
        ⟨visible', if settled then visible' else durable⟩ := by
    have hnext := h.step (.call ⟨request, io⟩) rfl <| happears _ rfl fun result hresult ↦ by
      rw [hheard result hresult]
      exact congrArg Prod.fst (hstep durable)
    rwa [hstep] at hnext
  refine ⟨visible', hholds.mono ?_⟩
  rintro content (rfl | ⟨rfl, actions, durable, h, hcontent⟩)
  · obtain ⟨_, actions, durable, h, -⟩ := hexplained
    exact ⟨_, visible', (hexplains h).flush, rfl⟩
  · exact ⟨_, durable, hexplains h, hcontent⟩

theorem simulates_crash {loss : Loss PathBuf UInt8} {losesDirectory : Bool}
    (h : store.Simulates happenings volume) :
    store.Simulates (happenings ++ [.crashed]) (volume.occur (.crash loss losesDirectory)) := by
  obtain ⟨visible, hholds⟩ := h
  obtain ⟨_, ⟨actions, durable, hexplains, rfl⟩, hcrashed⟩ := hholds.crash loss losesDirectory
  refine ⟨durable, hcrashed.mono ?_⟩
  rintro _ rfl
  exact ⟨_, durable, hexplains.step .crash rfl (.crashed rfl), rfl⟩

/-! ## Runs -/

theorem simulates_of_run (hparent : (nonEmptyParent store.path).isSome = true)
    (hreads : store.ReadsBack) (hstart : start.Holds store.path none (· = none))
    (h : store.Run start happenings volume) : store.Simulates happenings volume := by
  induction h with
  | start => exact simulates_start hstart
  | @returned happenings before after request result writer earlier runs ih =>
    obtain ⟨visible, hholds⟩ := ih
    have hexplained := hholds.left_shown
    have hcall : Ending (fun result volume ↦ ∃ io, Answers store visible
        (store.Explained happenings visible) (store.abstract.call io request) (some result) volume)
        result after :=
      crash_call hparent hreads hexplained.valid request before hholds _ _ runs
    obtain ⟨io, hanswers⟩ := ending_iff.mp hcall
    apply simulates_call hanswers _ ⟨_, hexplained⟩
    exact fun e hinput houtput ↦ .returned hinput (houtput result rfl)
  | @cutOff happenings before after request writer earlier runs ih =>
    obtain ⟨visible, hholds⟩ := ih
    have hexplained := hholds.left_shown
    obtain ⟨io, hanswers⟩ :=
      crash_call hparent hreads hexplained.valid request before hholds _ _ runs
    apply simulates_call hanswers _ ⟨_, hexplained⟩
    exact fun e hinput _ ↦ .cutOff hinput
  | crashed loss losesDirectory earlier ih => exact simulates_crash ih

/-- The store on a file system refines the abstract one: whatever fails, is cut off or crashes, its file
holds the encoding of a valid state, and for every crash there is a history of the abstract file with
the same calls, results and crashes that shows this state and leaves what the crash leaves. -/
theorem refines_abstract (hparent : (nonEmptyParent store.path).isSome = true)
    (hreads : store.ReadsBack) (hstart : start.Fresh store.path)
    (hrun : store.Run start happenings volume) :
    ∃ visible : Option RuntimeState, (∀ state ∈ visible, state.Valid) ∧
      volume.directory.read store.path = visible.map store.encode ∧
      ∀ loss losesDirectory, ∃ actions durable,
        (volume.occur (.crash loss losesDirectory)).directory.read store.path =
          durable.map store.encode ∧
        finalOf store.abstract.stepWithCrashes .absent actions = ⟨visible, durable⟩ ∧
        List.Forall₂ Happening.AppearsAs happenings
          ((store.abstract.historyWithCrashes actions).filter fun e ↦ !e.input.isFlush) := by
  obtain ⟨visible, hholds⟩ := simulates_of_run hparent hreads hstart.holds hrun
  refine ⟨visible, hholds.left_shown.valid, hholds.shown, fun loss losesDirectory ↦ ?_⟩
  obtain ⟨_, ⟨actions, durable, hexplains, rfl⟩, hcrashed⟩ := hholds.crash loss losesDirectory
  exact ⟨actions, durable, hcrashed.shown, hexplains.final, hexplains.steps⟩

/-! ## Outcomes -/

/-- The outcome that a caller has heard of. -/
def Happening.acknowledged : Happening → Option Acknowledged
  | .returned (.method method) (.ok reply) => method.acknowledged reply
  | _ => none

/-- The input of a run that a caller has been given for an agent. -/
def Happening.started (happening : Happening) : Option RunInputRecord :=
  match happening.acknowledged with
  | some (.started _ input) => some input
  | _ => none

theorem Happening.AppearsAs.acknowledged {happening : Happening} {e : FileEntry}
    (h : happening.AppearsAs e) (acknowledgement : Acknowledged)
    (hacknowledged : acknowledgement ∈ happening.acknowledged) :
    acknowledgedIn e = some acknowledgement := by
  cases h with
  | cutOff input => cases hacknowledged
  | crashed input => cases hacknowledged
  | @returned request result io e input output =>
    cases request with
    | save snapshot valid => cases hacknowledged
    | method method =>
      cases result with
      | error err => cases hacknowledged
      | ok reply => exact acknowledgedIn_eq_some.mpr ⟨method, reply, ⟨⟨io, input⟩, output⟩, hacknowledged⟩

theorem Happening.AppearsAs.started {happening : Happening} {e : FileEntry} (h : happening.AppearsAs e)
    (input : RunInputRecord) (hstarted : input ∈ happening.started) : startedInput e = some input := by
  unfold Happening.started at hstarted
  split at hstarted
  case h_2 => cases hstarted
  case h_1 id input' hacknowledged =>
    obtain rfl := Option.some.inj hstarted
    rw [startedInput, h.acknowledged _ hacknowledged]

/-- The text of a file that holds a valid state is read back. -/
theorem readToString_of_encode {state : RuntimeState} (hreads : store.ReadsBack) (hvalid : state.Valid)
    (hcontent : volume.directory.read store.path = some (store.encode state)) :
    ∃ text, volume.readToString store.path none = .ok text ∧ store.parse text = .ok state := by
  refine ⟨_, ?_, parse_of_valid hreads hvalid⟩
  simp only [Volume.readToString, hcontent, encode, fromUTF8?_toUTF8]

/-- Callers can rely on what they hear: in the file that is read after any crash stands every outcome
that a method has returned, or what has become of it; no run is given to agents twice, and no message. -/
theorem outcomes_on_disk (hparent : (nonEmptyParent store.path).isSome = true)
    (hreads : store.ReadsBack) (hstart : start.Fresh store.path)
    (hrun : store.Run start happenings volume) :
    (∀ happening ∈ happenings, ∀ acknowledgement ∈ happening.acknowledged, ∀ loss losesDirectory,
      ∃ text state, (volume.occur (.crash loss losesDirectory)).readToString store.path none = .ok text ∧
        store.parse text = .ok state ∧ state.Attests acknowledgement) ∧
    ((happenings.filterMap Happening.started).map (·.runId)).Nodup ∧
    ((happenings.filterMap Happening.started).flatMap (·.eventIds)).Nodup := by
  obtain ⟨visible, hholds⟩ := simulates_of_run hparent hreads hstart.holds hrun
  constructor
  · intro happening hhappening acknowledgement hacknowledged loss losesDirectory
    obtain ⟨_, ⟨actions, durable, hexplains, rfl⟩, hcrashed⟩ := hholds.crash loss losesDirectory
    obtain ⟨e, he, happears⟩ := exists_mem_of_forall₂ hexplains.steps hhappening
    have hentry := List.mem_of_mem_filter he
    obtain ⟨state, hstate, hattests⟩ :=
      StateStore.durable_of_acknowledged hentry (happears.acknowledged _ hacknowledged)
    obtain ⟨state', hstate', hevolves⟩ := StateStore.persists_final e hentry state hstate
    rw [hexplains.final] at hstate'
    obtain rfl := Option.mem_def.mp hstate'
    have hvalid := hexplains.recoverable.durable state' rfl
    obtain ⟨text, hread, hparse⟩ := readToString_of_encode hreads hvalid hcrashed.shown
    exact ⟨text, state', hread, hparse, hattests.evolves hevolves⟩
  · obtain ⟨actions, durable, hexplains, -⟩ := hholds.left_shown
    have hsublist : (happenings.filterMap Happening.started).Sublist
        ((store.abstract.historyWithCrashes actions).filterMap startedInput) :=
      (filterMap_sublist_of_forall₂ (fun _ _ happears ↦ happears.started) hexplains.steps).trans
        (List.filter_sublist.filterMap startedInput)
    constructor
    · exact StateStore.started_runIds_nodup.sublist (hsublist.map _)
    · exact StateStore.started_eventIds_nodup.sublist (hsublist.flatMap _)

end Simulation

/-! ## Runs in which nothing fails -/

/-- What a caller sees of a call. -/
def Happening.ofResult (request : Request) : Option (Except String Reply) → Happening
  | some result => .returned request result
  | none => .cutOff request

/-- Calls one after the other in which nothing fails, each cut off after so many operations. -/
def calling (store : FileStore) (writer : Writer) :
    List (Request × ℕ) → Volume → List Happening × Volume
  | [], volume => ([], volume)
  | (request, count) :: rest, volume =>
    let result := (store.call request).run.runWith (Volume.exec store.path writer)
      (List.replicate count {}) volume
    let later := calling store writer rest result.2
    (.ofResult request result.1 :: later.1, later.2)

theorem run_calling (store : FileStore) (writer : Writer) {start volume : Volume}
    {happenings : List Happening} (calls : List (Request × ℕ)) (h : store.Run start happenings volume) :
    store.Run start (happenings ++ (store.calling writer calls volume).1)
      (store.calling writer calls volume).2 := by
  induction calls generalizing happenings volume with
  | nil =>
    rw [calling, List.append_nil]
    exact h
  | cons call calls ih =>
    obtain ⟨request, count⟩ := call
    have hruns : (store.call request).run.Runs (Volume.exec store.path writer) volume _ _ :=
      Program.runs_runWith _ (List.replicate count {}) volume
    cases hresult : ((store.call request).run.runWith (Volume.exec store.path writer)
      (List.replicate count {}) volume).1 with
    | none =>
      rw [hresult] at hruns
      have hrest := ih (.cutOff writer h hruns)
      rw [List.append_assoc] at hrest
      rw [calling, hresult]
      exact hrest
    | some result =>
      rw [hresult] at hruns
      have hrest := ih (.returned writer h hruns)
      rw [List.append_assoc] at hrest
      rw [calling, hresult]
      exact hrest

/-! ### A run that is started, and a crash -/

/-- The store with texts on several lines. -/
def printing (path : PathBuf) : FileStore := ⟨path, Json.printPretty, Json.readText⟩

theorem readsBack_printing (path : PathBuf) : (printing path).ReadsBack := by
  intro state _
  simp only [printing]
  exact Json.readText_printPretty (printable_stateFileFromState state)

def freshVolume : Volume := .start stateFile (some .directory) true emptyDirectory

theorem fresh_freshVolume : freshVolume.Fresh stateFile := by
  have hmissing (name : PathBuf) : freshVolume.directory.possible name = [none] := rfl
  refine ⟨⟨rfl, rfl⟩, fun name entry hentry file hfile ↦ ?_, fun entry hentry ↦ ?_⟩
  · rw [hmissing] at hentry
    rw [List.mem_singleton.mp hentry] at hfile
    cases hfile
  · rw [hmissing] at hentry
    exact List.mem_singleton.mp hentry

/-- The run of a message is started, and its completion is cut off before the file is replaced. -/
def answeringCalls : List (Request × ℕ) :=
  answering.map (fun call ↦ (call.request, 20)) ++
    [(.method (.completeAgentRun ⟨"run_1", Eq.refl true⟩ [pendingReply.message] 3), 8)]

def answeringRun : List Happening × Volume :=
  (printing stateFile).calling firstWriter answeringCalls freshVolume

theorem run_answeringRun : (printing stateFile).Run freshVolume answeringRun.1 answeringRun.2 := by
  have hstart : (printing stateFile).Run freshVolume [] freshVolume := .start
  have hrun := run_calling _ firstWriter answeringCalls hstart
  rwa [List.nil_append] at hrun

theorem refines_abstract_answering : ∃ visible : Option RuntimeState,
    answeringRun.2.directory.read stateFile = visible.map (printing stateFile).encode ∧
    ∃ actions durable, finalOf (printing stateFile).abstract.stepWithCrashes .absent actions =
        ⟨visible, durable⟩ ∧
      List.Forall₂ Happening.AppearsAs answeringRun.1
        (((printing stateFile).abstract.historyWithCrashes actions).filter fun e ↦ !e.input.isFlush) := by
  obtain ⟨visible, -, hread, hcrash⟩ := refines_abstract rfl
    (readsBack_printing _) fresh_freshVolume run_answeringRun
  obtain ⟨actions, durable, -, hfinal, hsteps⟩ := hcrash ⟨fun _ ↦ 0, fun _ ↦ []⟩ true
  exact ⟨visible, hread, actions, durable, hfinal, hsteps⟩

theorem outcomes_on_disk_answering :
    (∀ happening ∈ answeringRun.1, ∀ acknowledgement ∈ happening.acknowledged, ∀ loss losesDirectory,
      ∃ text state,
        (answeringRun.2.occur (.crash loss losesDirectory)).readToString stateFile none = .ok text ∧
        (printing stateFile).parse text = .ok state ∧ state.Attests acknowledgement) ∧
    ((answeringRun.1.filterMap Happening.started).map (·.runId)).Nodup ∧
    ((answeringRun.1.filterMap Happening.started).flatMap (·.eventIds)).Nodup :=
  outcomes_on_disk rfl (readsBack_printing _) fresh_freshVolume run_answeringRun

end FileStore

end FerrisBridge
