import FerrisBridge.Store.Saving

/-!
# Session continuity

The methods of the store never forget a session and never move a timestamp backwards. A save does
not merge sessions: the written state has those of the candidate, and its timestamp covers the
candidate and the other records of the existing state only. What a save keeps of the sessions is
therefore decided by the candidate.
-/

open Foundations

namespace FerrisBridge

/-- The same session, later. -/
def Session.ContinuedBy (session later : Session) : Prop :=
  later.id = session.id ∧ later.createdAtUnix = session.createdAtUnix ∧
    session.updatedAtUnix ≤ later.updatedAtUnix

instance (session later : Session) : Decidable (session.ContinuedBy later) :=
  inferInstanceAs (Decidable (_ ∧ _ ∧ _))

theorem Session.ContinuedBy.refl (session : Session) : session.ContinuedBy session :=
  ⟨rfl, rfl, le_rfl⟩

theorem Session.ContinuedBy.trans {first second third : Session} (h : first.ContinuedBy second)
    (h' : second.ContinuedBy third) : first.ContinuedBy third :=
  ⟨h'.1.trans h.1, h'.2.1.trans h.2.1, h.2.2.trans h'.2.2⟩

theorem Session.continuedBy_refreshFrom (session replacement : Session) :
    session.ContinuedBy (session.refreshFrom replacement) :=
  ⟨rfl, rfl, le_max_left _ _⟩

namespace RuntimeState

/-- No session is forgotten, and no timestamp moves backwards. -/
structure Remembers (before after : RuntimeState) : Prop where
  sessions : ∀ session ∈ before.sessions, ∃ later ∈ after.sessions, session.ContinuedBy later
  updated : before.updatedAtUnix ≤ after.updatedAtUnix

/-- The times of all records but the sessions. -/
def workTimes (state : RuntimeState) : List U64 :=
  state.runs.map (·.updatedAtUnix) ++ state.runInputs.map (·.claimedAtUnix) ++
    state.inboundEvents.map (·.recordedAtUnix) ++ state.outboundDeliveries.map (·.updatedAtUnix) ++
    state.queuedMessages.map (·.enqueuedAtUnix)

/-- The candidate has all sessions of the existing state, and its timestamp is not older, unless the
latest record of the existing state is not a session. -/
structure CarriesSessions (existing candidate : RuntimeState) : Prop where
  sessions : ∀ session ∈ existing.sessions, ∃ later ∈ candidate.sessions, session.ContinuedBy later
  updated : existing.updatedAtUnix ≤ candidate.updatedAtUnix ∨
    ∃ time ∈ existing.workTimes, existing.updatedAtUnix ≤ time

variable {state state' state'' existing candidate : RuntimeState}

theorem Remembers.refl (state : RuntimeState) : state.Remembers state where
  sessions session hsession := ⟨session, hsession, .refl session⟩
  updated := le_rfl

theorem Remembers.trans (h : state.Remembers state') (h' : state'.Remembers state'') :
    state.Remembers state'' where
  sessions session hsession := by
    obtain ⟨later, hlater, hcontinued⟩ := h.sessions session hsession
    obtain ⟨last, hlast, hcontinued'⟩ := h'.sessions later hlater
    exact ⟨last, hlast, hcontinued.trans hcontinued'⟩
  updated := h.updated.trans h'.updated

/-! ## Operations -/

theorem remembers_upsertSession (hstate : state.Valid) (session : Session) (now : U64) :
    state.Remembers (state.upsertSession session now) := by
  rcases state.upsertSession_sessions session now with ⟨existing, hexisting, hid, heq⟩ | ⟨-, heq⟩
  · rw [heq]
    refine ⟨fun previous hprevious ↦ ?_, le_max_left _ _⟩
    change ∃ later ∈ replaceFirst _ _ state.sessions, _
    rw [replaceFirst_eq_map Session.id hstate.session_ids]
    refine ⟨_, List.mem_map_of_mem hprevious, ?_⟩
    split
    · rename_i hsame
      obtain rfl := eq_of_key_eq hstate.session_ids hprevious hexisting hsame
      exact previous.continuedBy_refreshFrom session
    · exact .refl previous
  · rw [heq]
    refine ⟨fun previous hprevious ↦ ?_, le_max_left _ _⟩
    exact ⟨previous, List.mem_append_left _ hprevious, .refl previous⟩

theorem SnapshotChange.remembers (h : SnapshotChange state state') (hstate : state.Valid) :
    state.Remembers state' := by
  have hrefl := Remembers.refl state
  cases h with
  | refl => exact hrefl
  | upsertSession now => exact remembers_upsertSession hstate _ now
  | addRun => exact { hrefl with updated := le_max_left _ _ }
  | stepRuns hsteps hle => exact { hrefl with updated := hle }
  | @recordEvent event time queued record =>
    cases queued with
    | none => exact { hrefl with updated := le_max_left _ _ }
    | some queued => exact { hrefl with updated := (le_max_left _ _).trans (le_max_left _ _) }
  | enqueue => exact { hrefl with updated := le_max_left _ _ }

/-- No operation forgets a session or moves a timestamp backwards. -/
theorem Change.remembers (h : Change state state') (hstate : state.Valid) :
    state.Remembers state' := by
  have hrefl := Remembers.refl state
  cases h with
  | snapshot h => exact h.remembers hstate
  | claim => exact { hrefl with updated := le_max_left _ _ }
  | stepDeliveries hsteps hle => exact { hrefl with updated := hle }
  | complete => exact { hrefl with updated := le_max_left _ _ }

/-! ## Merges -/

theorem mem_workTimes_iff {p : U64 → Prop} : (∀ time ∈ state.workTimes, p time) ↔
    (∀ run ∈ state.runs, p run.updatedAtUnix) ∧ (∀ input ∈ state.runInputs, p input.claimedAtUnix) ∧
      (∀ event ∈ state.inboundEvents, p event.recordedAtUnix) ∧
      (∀ delivery ∈ state.outboundDeliveries, p delivery.updatedAtUnix) ∧
      ∀ queued ∈ state.queuedMessages, p queued.enqueuedAtUnix := by
  simp only [workTimes, List.forall_mem_append, List.forall_mem_map, and_assoc]

/-- The merge raises times to one another, and to nothing else. -/
theorem lt_of_mem_rebaseAll {owned messages : List QueuedMessage} {bound : U64}
    (howned : ∀ message ∈ owned, message.enqueuedAtUnix < bound)
    (hmessages : ∀ message ∈ messages, message.enqueuedAtUnix < bound) :
    ∀ rebased ∈ rebaseAll owned messages, rebased.enqueuedAtUnix < bound := by
  induction messages generalizing owned with
  | nil => exact fun rebased hrebased ↦ absurd hrebased List.not_mem_nil
  | cons queued rest ih =>
    obtain ⟨hqueued, hrest⟩ := List.forall_mem_cons.mp hmessages
    have hrebased : (rebaseAfter (lastEnqueuedAt owned) queued).enqueuedAtUnix < bound := by
      unfold rebaseAfter lastEnqueuedAt
      cases hlast : lastOf (·.sessionId) queued.sessionId owned with
      | none => exact hqueued
      | some last => exact max_lt hqueued (howned last (lastOf_eq_some hlast).1)
    exact List.forall_mem_cons.mpr ⟨hrebased, ih (forall_mem_concat.mpr ⟨howned, hrebased⟩) hrest⟩

theorem foldl_max_lt {times : List U64} {start bound : U64} (hstart : start < bound)
    (htimes : ∀ time ∈ times, time < bound) : times.foldl max start < bound := by
  induction times generalizing start with
  | nil => exact hstart
  | cons time rest ih =>
    obtain ⟨htime, hrest⟩ := List.forall_mem_cons.mp htimes
    exact ih (max_lt hstart htime) hrest

/-- Every time of a record of the existing state is covered by the merged state. -/
theorem workTimes_le_merged (h : Mergeable existing candidate) (hexisting : existing.Valid)
    (hcandidate : candidate.Valid) :
    ∀ time ∈ existing.workTimes, time ≤ (merged existing candidate).updatedAtUnix := by
  have hevolves := h.evolves hexisting hcandidate
  have hupdated : ∀ time ∈ (merged existing candidate).recordTimes,
      time ≤ (merged existing candidate).updatedAtUnix := updated_merged hcandidate
  obtain ⟨-, hruns, hinputs, hevents, hdeliveries, hqueued⟩ := mem_recordTimes_iff.mp hupdated
  refine mem_workTimes_iff.mpr ⟨fun run hrun ↦ ?_, hinputs, fun event hevent ↦ ?_,
    fun delivery hdelivery ↦ ?_, fun queued hmem ↦ ?_⟩
  · obtain ⟨run', hrun', hlater⟩ := hevolves.runs.exists_of_mem hrun
    exact (RunRecord.Evolves.updated_le hlater).trans (hruns run' hrun')
  · exact hevents event (List.mem_append_left _ hevent)
  · exact hdeliveries delivery (List.mem_append_left _ hdelivery)
  · exact hqueued queued (List.mem_append_left _ hmem)

/-- A merged state covers no time that neither of the two states covers. -/
theorem merged_updatedAt_lt {bound : U64} (hexisting : existing.Valid) (hcandidate : candidate.Valid)
    (hbefore : ∀ time ∈ existing.workTimes, time < bound) (hafter : candidate.updatedAtUnix < bound) :
    (merged existing candidate).updatedAtUnix < bound := by
  obtain ⟨hruns, hinputs, hevents, hdeliveries, hqueued⟩ := mem_workTimes_iff.mp hbefore
  obtain ⟨-, hruns', -, hevents', hdeliveries', hqueued'⟩ :=
    mem_recordTimes_iff.mp fun time htime ↦ (hcandidate.updated time htime).trans_lt hafter
  have howned : ∀ message ∈ existing.ownedMessages, message.enqueuedAtUnix < bound := by
    refine List.forall_mem_append.mpr ⟨fun message hmessage ↦ ?_, hqueued⟩
    obtain ⟨input, hinput, hmessage⟩ := List.mem_flatMap.mp hmessage
    exact ((hexisting.inputs input hinput).enqueued_le hmessage).trans_lt
      (hinputs input hinput)
  apply foldl_max_lt hafter
  simp only [mergedTimes, List.forall_mem_append, List.forall_mem_map]
  refine ⟨⟨⟨⟨fun run hrun ↦ ?_, hinputs⟩, List.forall_mem_append.mpr ⟨hevents, fun event hevent ↦ ?_⟩⟩,
    List.forall_mem_append.mpr ⟨hqueued, ?_⟩⟩,
    List.forall_mem_append.mpr ⟨hdeliveries, fun delivery hdelivery ↦ ?_⟩⟩
  · rcases mem_mergedRuns hrun with ⟨_, hprevious, -, rfl | hrun⟩ | ⟨hrun, -⟩
    · exact hruns _ hprevious
    · exact hruns' run hrun
    · exact hruns' run hrun
  · exact hevents' event (mem_missingFrom.mp hevent).1
  · apply lt_of_mem_rebaseAll howned
    exact fun queued hmem ↦ hqueued' queued (List.mem_of_mem_filter hmem)
  · exact hdeliveries' delivery (mem_missingFrom.mp hdelivery).1

/-- A merge keeps the sessions of the existing state and its timestamp exactly when the candidate
carries them. -/
theorem Mergeable.remembers_iff (h : Mergeable existing candidate) (hexisting : existing.Valid)
    (hcandidate : candidate.Valid) :
    existing.Remembers (merged existing candidate) ↔ existing.CarriesSessions candidate := by
  constructor
  · intro hremembers
    refine ⟨hremembers.sessions, ?_⟩
    by_contra! hbehind
    obtain ⟨hcandidateTime, htimes⟩ := hbehind
    have hlt := merged_updatedAt_lt hexisting hcandidate htimes hcandidateTime
    exact absurd hremembers.updated hlt.not_ge
  · rintro ⟨hsessions, hupdated | ⟨time, htime, hle⟩⟩
    · exact ⟨hsessions, hupdated.trans (le_foldl_max _ _).1⟩
    · exact ⟨hsessions, hle.trans (workTimes_le_merged h hexisting hcandidate time htime)⟩

end RuntimeState

/-! ## Runs -/

/-- A visible state does not disappear, and it is remembered. -/
def Disk.Remembers (before after : Disk) : Prop :=
  ∀ state ∈ before.visible, ∃ state' ∈ after.visible, state.Remembers state'

theorem Disk.Remembers.refl (disk : Disk) : disk.Remembers disk :=
  fun state hstate ↦ ⟨state, hstate, .refl state⟩

theorem Disk.Remembers.trans (first second third : Disk) (h : first.Remembers second)
    (h' : second.Remembers third) : first.Remembers third := by
  intro state hstate
  obtain ⟨state', hstate', hremembers⟩ := h state hstate
  obtain ⟨state'', hstate'', hremembers'⟩ := h' state' hstate'
  exact ⟨state'', hstate'', hremembers.trans hremembers'⟩

/-- What a call saves, if it saves a snapshot, carries the sessions of the visible state. -/
def Request.CarriesSessions (request : Request) (visible : Option RuntimeState) : Prop :=
  ∀ snapshot valid, request = .save snapshot valid →
    ∀ existing ∈ visible, existing.CarriesSessions snapshot

namespace StateStore

open RuntimeState

variable {self : StateStore} {io : Io} {disk : Disk} {request : Request} {reply : Reply}
  {state candidate : RuntimeState}

/-- What a call writes remembers the visible state. -/
theorem remembers_of_computes (hdisk : disk.Valid) (hcarries : request.CarriesSessions disk.visible)
    (h : Computes io disk.visible request reply state) :
    ∀ existing ∈ disk.visible, existing.Remembers state := by
  intro existing hexisting
  have hvalid := hdisk existing hexisting
  cases request with
  | save snapshot valid =>
    have hsnapshot := validate_eq_ok.mp valid
    obtain - | - | ⟨-, hmerge⟩ := h
    rw [Option.mem_def.mp hexisting, mergeSnapshot_eq_ok hvalid hsnapshot] at hmerge
    obtain ⟨hmergeable, rfl⟩ := hmerge
    apply (hmergeable.remembers_iff hvalid hsnapshot).mpr
    exact hcarries snapshot valid rfl existing hexisting
  | method method =>
    obtain ⟨commit, -, hwork⟩ := h.work_eq_ok hdisk
    rw [Option.mem_def.mp hexisting] at hwork
    exact (Method.change hvalid hwork).1.remembers hvalid

theorem step_remembers (self : StateStore) (call : Call) (hdisk : disk.Valid)
    (hcarries : call.request.CarriesSessions disk.visible) :
    disk.Remembers (self.step call disk).2 := by
  rcases (self.call_effect call.io call.request disk).visible with hkept | ⟨reply, state, h, -, hnew⟩
  · intro existing hexisting
    exact ⟨existing, hkept ▸ hexisting, .refl existing⟩
  · intro existing hexisting
    exact ⟨state, hnew, remembers_of_computes hdisk hcarries h existing hexisting⟩

/-- A save keeps the sessions of the existing state and its timestamps exactly when the candidate
carries them, and in a run whose saves all do, no session is ever forgotten and no timestamp moves
backwards. -/
theorem sessions_continue_iff (self : StateStore) (disk : Disk)
    (hdisk : ∀ existing ∈ disk.visible, existing.validate = .ok ()) :
    (∀ io candidate written durable, candidate.validate = .ok () →
        self.save io candidate disk = .ok () ⟨some written, durable⟩ →
        ∀ existing ∈ disk.visible,
          (existing.Remembers written ↔ existing.CarriesSessions candidate)) ∧
      ∀ calls, (∀ e ∈ trace self.step disk calls,
          e.input.request.CarriesSessions e.before.visible) →
        (∀ e ∈ trace self.step disk calls, e.before.Remembers e.after) ∧
          (trace self.step disk calls).Pairwise fun e later ↦ e.after.Remembers later.after := by
  have hvalid : disk.Valid := fun existing hexisting ↦ validate_eq_ok.mp (hdisk existing hexisting)
  constructor
  · intro io candidate written durable hcandidate hsave existing hexisting
    rcases self.save_cases io candidate disk with ⟨_, hfailed⟩ | ⟨written', hmerge, -, -, h | ⟨_, h⟩⟩
    · cases hfailed.symm.trans hsave
    · have hwritten : written' = written := by
        cases h.symm.trans hsave
        rfl
      rw [hwritten, Option.mem_def.mp hexisting,
        mergeSnapshot_eq_ok (hvalid existing hexisting) (validate_eq_ok.mp hcandidate)] at hmerge
      obtain ⟨hmergeable, rfl⟩ := hmerge
      exact hmergeable.remembers_iff (hvalid existing hexisting) (validate_eq_ok.mp hcandidate)
    · cases h.symm.trans hsave
  · intro calls hcarries
    have hstep : ∀ disk call, disk.Valid →
        (stepEntry self.step disk call).input.request.CarriesSessions disk.visible →
        (self.step call disk).2.Valid ∧ disk.Remembers (self.step call disk).2 :=
      fun disk call hdisk hallowed ↦
        ⟨(step_evolves call hdisk).1, self.step_remembers call hdisk hallowed⟩
    have hinvariant := (trace_invariant Disk.Valid _ hvalid
      (fun _ call hdisk _ ↦ (step_evolves call hdisk).1) hcarries).1
    have hentry : ∀ e ∈ trace self.step disk calls, e.before.Remembers e.after := by
      intro e he
      rw [congrArg Entry.after (eq_stepEntry_of_mem he)]
      exact self.step_remembers e.input (hinvariant e he).1 (hcarries e he)
    have hpairwise := trace_pairwise Disk.Valid Disk.Remembers _ hvalid Disk.Remembers.refl
      Disk.Remembers.trans hstep hcarries
    refine ⟨hentry, hpairwise.imp_of_mem fun _ hlater hremembers ↦ ?_⟩
    exact Disk.Remembers.trans _ _ _ hremembers (hentry _ hlater)

/-- The chat as a snapshot from the fifth second has it. -/
def laterChatState : RuntimeState := { chatState with updatedAtUnix := 5 }

/-- A snapshot that has the chat and is newer carries it. -/
theorem sessions_continue_iff_chat : chatState.CarriesSessions laterChatState :=
  ((sessions_continue_iff ⟨"state.json"⟩ ⟨some chatState, none⟩ (by rintro _ ⟨⟩; rfl)).1 .untroubled
    laterChatState laterChatState _ rfl rfl chatState rfl).mp
    { sessions := fun session hsession ↦ ⟨session, hsession, .refl session⟩
      updated := by decide }

/-- A snapshot from before the chat was first seen is saved over it: the chat is forgotten, and the
timestamp of the state moves backwards. -/
theorem session_forgotten :
    (StateStore.mk "state.json").save .untroubled (.new 0) ⟨some laterChatState, some laterChatState⟩ =
        .ok () ⟨some (.new 0), some (.new 0)⟩ ∧
      laterChatState.validate = .ok () ∧ (RuntimeState.new 0).validate = .ok () ∧
      ¬(∀ session ∈ laterChatState.sessions,
        ∃ later ∈ (RuntimeState.new 0).sessions, session.ContinuedBy later) ∧
      ¬laterChatState.updatedAtUnix ≤ (RuntimeState.new 0).updatedAtUnix := by
  refine ⟨rfl, rfl, rfl, fun h ↦ ?_, by decide⟩
  obtain ⟨later, hlater, -⟩ := h (.new chat 0) (List.mem_singleton_self _)
  exact absurd hlater List.not_mem_nil

end StateStore

end FerrisBridge
