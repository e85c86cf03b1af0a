import FerrisBridge.Runtime.Config
import FerrisBridge.Store.DiskRefinement

/-!
# The configuration file

Saving and loading the configuration as programs over single operations of the file system; what prints
documents and reads texts is a parameter that reads back what it has printed. Wherever operations fail, programs are cut off and the machine crashes, what is loaded is the configuration of the
last save that has returned, or of a later one that was not heard of.
-/

open Foundations

namespace FerrisBridge

open Persistence

/-- The path of a configuration file, and what prints documents and reads texts. -/
structure ConfigFile where
  path : PathBuf
  toStringPretty : Json → String
  fromStr : String → Except String Json

namespace ConfigFile

variable (file : ConfigFile)

/-- What has been read of the file, decoded. -/
def decodeJson {α : Type} (read : Json → Except String α) : IoResult String → Except String α
  | .error err => .error s!"failed to read {file.path.display}: {err.message}"
  | .ok text =>
    match file.fromStr text >>= read with
    | .ok value => .ok value
    | .error err => .error s!"failed to parse {file.path.display}: {err}"

def readJson {α : Type} (read : Json → Except String α) : StoreProgram α := do
  let input ← ExceptT.lift Op.readToString.run
  ExceptT.mk (pure (file.decodeJson read input))

def encode (config : BridgeConfig) : Bytes :=
  (file.toStringPretty config.serialize ++ "\n").toUTF8.data.toList

/-- What is written of a configuration is read back. -/
def ReadsBack : Prop :=
  ∀ config : BridgeConfig,
    file.fromStr (file.toStringPretty config.serialize ++ "\n") = .ok config.serialize

end ConfigFile

namespace BridgeConfig

def load (file : ConfigFile) : StoreProgram BridgeConfig := do
  let config ← file.readJson deserialize
  ExceptT.mk (pure config.validate)
  return config

def save (config : BridgeConfig) (file : ConfigFile) : StoreProgram Unit := do
  ExceptT.mk (pure config.validate)
  FileStore.mapError (fun err ↦ s!"failed to save config {file.path.display}: {err.message}")
    (writeJsonAtomic file.path (.ok (file.encode config)))

/-! ## Runs -/

/-- What callers see: the results of saves and loads, which are missing when the process ends before, and
crashes. -/
inductive Happening
  | saved (config : BridgeConfig) (result : Option (Except String Unit))
  | loaded (result : Option (Except String BridgeConfig))
  | crashed

/-- Saves and loads one after the other, each by any process. -/
inductive Run (file : ConfigFile) (start : Volume) : List Happening → Volume → Prop
  | start : Run file start [] start
  | saved {happenings : List Happening} {before after : Volume} {config : BridgeConfig}
    {result : Option (Except String Unit)} (writer : Writer) (earlier : Run file start happenings before)
    (runs : (config.save file).run.Runs (Volume.exec file.path writer) before result after) :
    Run file start (happenings ++ [.saved config result]) after
  | loaded {happenings : List Happening} {before after : Volume}
    {result : Option (Except String BridgeConfig)} (writer : Writer)
    (earlier : Run file start happenings before)
    (runs : (load file).run.Runs (Volume.exec file.path writer) before result after) :
    Run file start (happenings ++ [.loaded result]) after
  | crashed {happenings : List Happening} {before : Volume} (loss : Loss PathBuf UInt8)
    (losesDirectory : Bool) (earlier : Run file start happenings before) :
    Run file start (happenings ++ [.crashed]) (before.occur (.crash loss losesDirectory))

/-- A save that has returned. -/
def Happening.settles : Happening → Bool
  | .saved _ (some (.ok _)) => true
  | _ => false

/-- What the file may hold: the configuration of a save that no later one has replaced for sure, or none
when no save has returned. -/
def IsCurrent (happenings : List Happening) : Option BridgeConfig → Prop
  | none => ∀ happening ∈ happenings, happening.settles = false
  | some config => config.validate = .ok () ∧ ∃ front result back,
      happenings = front ++ .saved config result :: back ∧
        ∀ happening ∈ back, happening.settles = false

section Runs

variable {file : ConfigFile} {start volume : Volume} {happenings : List Happening} {happening : Happening}
  {config : BridgeConfig} {shown : Option BridgeConfig} {left : Option Bytes → Prop} {writer : Writer}

theorem IsCurrent.concat (h : IsCurrent happenings shown) (hsettles : happening.settles = false) :
    IsCurrent (happenings ++ [happening]) shown := by
  have hlast {list : List Happening} (hlist : ∀ happening ∈ list, happening.settles = false) :
      ∀ other ∈ list ++ [happening], other.settles = false :=
    List.forall_mem_append.mpr ⟨hlist, List.forall_mem_singleton.mpr hsettles⟩
  cases shown with
  | none => exact hlast h
  | some config =>
    obtain ⟨hvalid, front, result, back, rfl, hback⟩ := h
    refine ⟨hvalid, front, result, back ++ [happening], ?_, hlast hback⟩
    rw [List.append_assoc, List.cons_append]

theorem isCurrent_saved (hvalid : config.validate = .ok ()) (result : Option (Except String Unit)) :
    IsCurrent (happenings ++ [.saved config result]) (some config) :=
  ⟨hvalid, happenings, result, [], rfl, List.forall_mem_nil _⟩

theorem IsCurrent.valid (h : IsCurrent happenings shown) : ∀ config ∈ shown, config.validate = .ok () := by
  rintro config rfl
  exact h.1

/-! ## Programs -/

/-- The file holds a configuration that is current, and so does what a crash may leave of it. -/
def Represents (file : ConfigFile) (happenings : List Happening) (volume : Volume) : Prop :=
  ∃ shown, IsCurrent happenings shown ∧ volume.Holds file.path (shown.map file.encode) fun content ↦
    ∃ config, IsCurrent happenings config ∧ content = config.map file.encode

/-- What is read of the file of a configuration. -/
theorem readToString_encode (hcontent : volume.directory.read file.path = shown.map file.encode) :
    volume.readToString file.path none =
      shown.elim (.error notFound) fun config ↦ .ok (file.toStringPretty config.serialize ++ "\n") := by
  simp only [Volume.readToString, hcontent]
  cases shown with
  | none => rfl
  | some config => simp only [Option.map_some, ConfigFile.encode, FileStore.fromUTF8?_toUTF8, Option.elim_some]

theorem decodeJson_encode (hreads : file.ReadsBack) (config : BridgeConfig) :
    file.decodeJson deserialize (.ok (file.toStringPretty config.serialize ++ "\n")) = .ok config := by
  have hread : (file.fromStr (file.toStringPretty config.serialize ++ "\n") >>= deserialize) =
      .ok config := by
    rw [hreads, except_ok_bind, config.deserialize_serialize]
  simp only [ConfigFile.decodeJson, hread]

theorem crash_readJson (hreads : file.ReadsBack) :
    CrashTriple (Volume.exec file.path writer) (fun volume ↦ volume.Holds file.path (shown.map file.encode) left)
      (file.readJson deserialize).run
      (Protocol.Ends
        (fun config volume ↦ volume.Holds file.path (shown.map file.encode) left ∧ shown = some config)
        fun _ volume ↦ volume.Holds file.path (shown.map file.encode) left)
      fun volume ↦ volume.Holds file.path (shown.map file.encode) left := by
  have hread : CrashTriple (Volume.exec file.path writer)
      (fun volume ↦ volume.Holds file.path (shown.map file.encode) left) Op.readToString.run
      (fun (input : IoResult String) volume ↦ volume.Holds file.path (shown.map file.encode) left ∧
        ((∃ err, input = .error err) ∨
          ∃ config ∈ shown, input = .ok (file.toStringPretty config.serialize ++ "\n")))
      fun volume ↦ volume.Holds file.path (shown.map file.encode) left := by
    apply CrashTriple.perform fun _ h ↦ h
    intro volume outcome h
    refine ⟨h, ?_⟩
    simp only [Volume.exec]
    cases outcome.failure with
    | some err =>
      simp only [Volume.readToString, h.shown]
      cases shown <;> exact .inl ⟨_, rfl⟩
    | none =>
      rw [readToString_encode h.shown]
      cases shown with
      | none => exact .inl ⟨_, rfl⟩
      | some config => exact .inr ⟨config, rfl, rfl⟩
  apply CrashTriple.exceptBind (CrashTriple.exceptLift hread)
  rintro input volume ⟨h, ⟨err, rfl⟩ | ⟨config, hconfig, rfl⟩⟩ result after hruns
  · cases hruns with
    | done => exact h
  · rw [decodeJson_encode hreads] at hruns
    cases hruns with
    | done => exact ⟨h, hconfig⟩

theorem crash_load (hreads : file.ReadsBack) (hshown : ∀ config ∈ shown, config.validate = .ok ()) :
    CrashTriple (Volume.exec file.path writer) (fun volume ↦ volume.Holds file.path (shown.map file.encode) left)
      (load file).run
      (Protocol.Ends
        (fun config volume ↦ volume.Holds file.path (shown.map file.encode) left ∧ shown = some config)
        fun _ volume ↦ volume.Holds file.path (shown.map file.encode) left)
      fun volume ↦ volume.Holds file.path (shown.map file.encode) left := by
  apply CrashTriple.exceptBind (crash_readJson hreads)
  intro config
  apply CrashTriple.of_pure
  rintro rfl volume h result after hruns
  rw [hshown config rfl] at hruns
  cases hruns with
  | done => exact ⟨h, rfl⟩

/-- A save of a configuration that is not valid does nothing. -/
theorem runs_save_of_invalid {err : String} {result : Option (Except String Unit)} {after : Volume}
    (hvalid : config.validate = .error err)
    (hruns : (config.save file).run.Runs (Volume.exec file.path writer) volume result after) :
    result = some (.error err) ∧ after = volume := by
  rw [save, hvalid] at hruns
  cases hruns with
  | done => exact ⟨rfl, rfl⟩

theorem crash_save (hparent : (nonEmptyParent file.path).isSome = true)
    (hvalid : config.validate = .ok ()) :
    CrashTriple (Volume.exec file.path writer) (fun volume ↦ volume.Holds file.path (shown.map file.encode) left)
      (config.save file).run
      (Protocol.Ends
        (fun _ volume ↦ volume.Holds file.path (some (file.encode config)) (· = some (file.encode config)))
        fun _ ↦ CutOff file.path (shown.map file.encode) left (file.encode config))
      (CutOff file.path (shown.map file.encode) left (file.encode config)) := by
  have hwrite : CrashTriple (Volume.exec file.path writer)
      (fun volume ↦ volume.Holds file.path (shown.map file.encode) left)
      (writeJsonAtomic file.path (.ok (file.encode config))).run _ _ := crash_writeJsonAtomic hparent
  rw [save, hvalid]
  apply hwrite.andThen
  intro result
  cases result with
  | ok _ => exact CrashTriple.pure fun _ h ↦ h
  | error err => exact CrashTriple.pure fun _ h ↦ h

/-! ## The file over a run -/

theorem Represents.concat (h : Represents file happenings volume) (hsettles : happening.settles = false) :
    Represents file (happenings ++ [happening]) volume := by
  obtain ⟨shown, hcurrent, hholds⟩ := h
  refine ⟨shown, hcurrent.concat hsettles, hholds.mono ?_⟩
  rintro _ ⟨config, hconfig, rfl⟩
  exact ⟨config, hconfig.concat hsettles, rfl⟩

theorem represents_cutOff {result : Option (Except String Unit)} (hvalid : config.validate = .ok ())
    (hcurrent : IsCurrent happenings shown)
    (hsettles : (Happening.saved config result).settles = false)
    (h : CutOff file.path (shown.map file.encode)
      (fun content ↦ ∃ config, IsCurrent happenings config ∧ content = config.map file.encode)
      (file.encode config) volume) :
    Represents file (happenings ++ [.saved config result]) volume := by
  rcases h with hbefore | hafter
  · exact Represents.concat ⟨shown, hcurrent, hbefore⟩ hsettles
  · refine ⟨some config, isCurrent_saved hvalid result, hafter.mono ?_⟩
    rintro _ (⟨other, hother, rfl⟩ | rfl)
    · exact ⟨other, hother.concat hsettles, rfl⟩
    · exact ⟨some config, isCurrent_saved hvalid result, rfl⟩

theorem represents_saved {result : Option (Except String Unit)} {after : Volume}
    (hparent : (nonEmptyParent file.path).isSome = true) (h : Represents file happenings volume)
    (hruns : (config.save file).run.Runs (Volume.exec file.path writer) volume result after) :
    Represents file (happenings ++ [.saved config result]) after := by
  cases hvalid : config.validate with
  | error err =>
    obtain ⟨rfl, rfl⟩ := runs_save_of_invalid hvalid hruns
    exact h.concat rfl
  | ok u =>
    obtain ⟨shown, hcurrent, hholds⟩ := h
    have hend := crash_save hparent hvalid volume hholds result after hruns
    cases result with
    | none => exact represents_cutOff hvalid hcurrent rfl hend
    | some result =>
      cases result with
      | error err => exact represents_cutOff hvalid hcurrent rfl hend
      | ok u =>
        refine ⟨some config, isCurrent_saved hvalid _, hend.mono ?_⟩
        rintro _ rfl
        exact ⟨some config, isCurrent_saved hvalid _, rfl⟩

/-- A load gives a configuration that is current. -/
theorem represents_loaded {result : Option (Except String BridgeConfig)} {after : Volume}
    (hreads : file.ReadsBack) (h : Represents file happenings volume)
    (hruns : (load file).run.Runs (Volume.exec file.path writer) volume result after) :
    Represents file happenings after ∧
      ∀ config, result = some (.ok config) → IsCurrent happenings (some config) := by
  obtain ⟨shown, hcurrent, hholds⟩ := h
  have hend := crash_load hreads hcurrent.valid volume hholds result after hruns
  cases result with
  | none => exact ⟨⟨shown, hcurrent, hend⟩, fun _ h ↦ by cases h⟩
  | some result =>
    cases result with
    | error err => exact ⟨⟨shown, hcurrent, hend⟩, fun _ h ↦ by cases h⟩
    | ok config =>
      obtain ⟨hend, rfl⟩ := hend
      refine ⟨⟨some config, hcurrent, hend⟩, fun other hother ↦ ?_⟩
      obtain rfl := Except.ok.inj (Option.some.inj hother)
      exact hcurrent

theorem represents_crashed (h : Represents file happenings volume) (loss : Loss PathBuf UInt8)
    (losesDirectory : Bool) : Represents file happenings (volume.occur (.crash loss losesDirectory)) := by
  obtain ⟨shown, hcurrent, hholds⟩ := h
  obtain ⟨_, ⟨config, hconfig, rfl⟩, hcrashed⟩ := hholds.crash loss losesDirectory
  refine ⟨config, hconfig, hcrashed.mono ?_⟩
  rintro _ rfl
  exact ⟨config, hconfig, rfl⟩

/-- Every load has given a configuration that was current. -/
def LoadsCurrent (happenings : List Happening) : Prop :=
  ∀ front config back, happenings = front ++ .loaded (some (.ok config)) :: back →
    IsCurrent front (some config)

theorem LoadsCurrent.concat (h : LoadsCurrent happenings)
    (hlast : ∀ config, happening = .loaded (some (.ok config)) → IsCurrent happenings (some config)) :
    LoadsCurrent (happenings ++ [happening]) := by
  intro front config back hsplit
  rcases List.eq_nil_or_concat' back with rfl | ⟨back, last, rfl⟩
  · obtain ⟨rfl, hhappening⟩ := List.append_inj' hsplit rfl
    exact hlast config (List.singleton_inj.mp hhappening)
  · rw [← List.cons_append, ← List.append_assoc] at hsplit
    exact h front config back (List.append_inj' hsplit rfl).1

theorem represents_of_run (hparent : (nonEmptyParent file.path).isSome = true)
    (hreads : file.ReadsBack) (hstart : start.Fresh file.path) (hrun : Run file start happenings volume) :
    Represents file happenings volume ∧ LoadsCurrent happenings := by
  induction hrun with
  | start =>
    constructor
    · refine ⟨none, List.forall_mem_nil _, hstart.holds.mono ?_⟩
      rintro _ rfl
      exact ⟨none, List.forall_mem_nil _, rfl⟩
    · intro front config back hsplit
      cases front <;> cases hsplit
  | saved writer earlier runs ih =>
    exact ⟨represents_saved hparent ih.1 runs, ih.2.concat fun _ h ↦ by cases h⟩
  | loaded writer earlier runs ih =>
    obtain ⟨hafter, hloaded⟩ := represents_loaded hreads ih.1 runs
    refine ⟨hafter.concat rfl, ih.2.concat fun config h ↦ hloaded config ?_⟩
    exact Happening.loaded.inj h
  | crashed loss losesDirectory earlier ih =>
    exact ⟨(represents_crashed ih.1 loss losesDirectory).concat rfl, ih.2.concat fun _ h ↦ by cases h⟩

/-- What a load gives when nothing fails. -/
theorem load_untroubled (hreads : file.ReadsBack) (hshown : ∀ config ∈ shown, config.validate = .ok ())
    (hcontent : volume.directory.read file.path = shown.map file.encode) :
    ((load file).run.runWith (Volume.exec file.path writer) [{}] volume).1 =
      some (shown.elim (.error s!"failed to read {file.path.display}: {notFound.message}") .ok) := by
  have hread := readToString_encode hcontent
  have hstep (input : IoResult String) (hinput : volume.readToString file.path none = input) :
      ((load file).run.runWith (Volume.exec file.path writer) [{}] volume).1 =
        (Program.runWith (Volume.exec file.path writer)
          (do let config ← ExceptT.mk (pure (file.decodeJson deserialize input))
              ExceptT.mk (pure config.validate)
              return config : StoreProgram BridgeConfig).run [] volume).1 := by
    subst hinput
    rfl
  rw [hstep _ hread]
  cases shown with
  | none => rfl
  | some config =>
    simp only [Option.elim_some, decodeJson_encode hreads]
    have hvalid := hshown config rfl
    change (Program.runWith (Volume.exec file.path writer)
      (do ExceptT.mk (pure config.validate); return config : StoreProgram BridgeConfig).run [] volume).1 = _
    rw [hvalid]
    rfl

/-- A load gives the configuration of the last save that has returned, or of a later one that was not
heard of, and its paths lead into the runtime directory. When nothing fails, a load gives one now and
after any crash, unless no save has returned. -/
theorem loads_last_saved (hparent : (nonEmptyParent file.path).isSome = true)
    (hreads : file.ReadsBack) (hstart : start.Fresh file.path) (hrun : Run file start happenings volume) :
    (∀ front config back, happenings = front ++ .loaded (some (.ok config)) :: back →
      IsCurrent front (some config) ∧
        LeadsInto config.runtime.stateFile ∧ LeadsInto config.runtime.logFile) ∧
    (∀ writer, ∃ shown, IsCurrent happenings shown ∧
      ((load file).run.runWith (Volume.exec file.path writer) [{}] volume).1 =
        some (shown.elim (.error s!"failed to read {file.path.display}: {notFound.message}") .ok)) ∧
    ∀ loss losesDirectory writer, ∃ shown, IsCurrent happenings shown ∧
      ((load file).run.runWith (Volume.exec file.path writer) [{}]
        (volume.occur (.crash loss losesDirectory))).1 =
        some (shown.elim (.error s!"failed to read {file.path.display}: {notFound.message}") .ok) := by
  obtain ⟨hrepresents, hloads⟩ := represents_of_run hparent hreads hstart hrun
  refine ⟨fun front config back hsplit ↦ ?_, fun writer ↦ ?_, fun loss losesDirectory writer ↦ ?_⟩
  · have hcurrent := hloads front config back hsplit
    exact ⟨hcurrent, leadsInto_of_validate hcurrent.1⟩
  · obtain ⟨shown, hcurrent, hholds⟩ := hrepresents
    exact ⟨shown, hcurrent, load_untroubled hreads hcurrent.valid hholds.shown⟩
  · obtain ⟨shown, hcurrent, hholds⟩ := represents_crashed hrepresents loss losesDirectory
    exact ⟨shown, hcurrent, load_untroubled hreads hcurrent.valid hholds.shown⟩

end Runs

/-! ### A save, and one that is cut off -/

def printing : ConfigFile := ⟨stateFile, Json.printPretty, Json.readText⟩

theorem readsBack_printing : printing.ReadsBack :=
  fun config ↦ Json.readText_printPretty config.printable_serialize

def saving (config : BridgeConfig) (count : ℕ) (volume : Volume) :
    Option (Except String Unit) × Volume :=
  (config.save printing).run.runWith (Volume.exec printing.path firstWriter) (List.replicate count {}) volume

theorem run_saving {start volume : Volume} {happenings : List Happening} (config : BridgeConfig)
    (count : ℕ) (h : Run printing start happenings volume) :
    Run printing start (happenings ++ [.saved config (saving config count volume).1])
      (saving config count volume).2 :=
  .saved firstWriter h (Program.runs_runWith _ _ _)

def savedVolume : Volume := (saving default 20 FileStore.freshVolume).2

theorem loads_last_saved_cut : ∃ config ∈ [default, new "work"],
    ((load printing).run.runWith (Volume.exec printing.path secondWriter) [{}]
      ((saving (new "work") 8 savedVolume).2.occur (.crash ⟨fun _ ↦ 0, fun _ ↦ []⟩ true))).1 =
        some (.ok config) := by
  have hsaved : (saving default 20 FileStore.freshVolume).1 = some (.ok ()) := rfl
  have hstart : Run printing FileStore.freshVolume [] FileStore.freshVolume := .start
  have hrun := run_saving (new "work") 8 (run_saving default 20 hstart)
  rw [hsaved] at hrun
  obtain ⟨-, -, hcrash⟩ := loads_last_saved rfl readsBack_printing FileStore.fresh_freshVolume hrun
  obtain ⟨shown, hcurrent, hload⟩ := hcrash ⟨fun _ ↦ 0, fun _ ↦ []⟩ true secondWriter
  cases shown with
  | none => cases hcurrent _ List.mem_cons_self
  | some config =>
    refine ⟨config, ?_, hload⟩
    obtain ⟨-, front, result, back, hsplit, -⟩ := hcurrent
    have hmem : Happening.saved config result ∈ front ++ .saved config result :: back :=
      List.mem_append_right front List.mem_cons_self
    rw [← hsplit] at hmem
    simp only [List.nil_append, List.cons_append, List.mem_cons, List.not_mem_nil, or_false,
      Happening.saved.injEq] at hmem
    exact List.mem_cons.mpr (hmem.imp And.left fun h ↦ List.mem_singleton.mpr h.1)

end BridgeConfig

end FerrisBridge
