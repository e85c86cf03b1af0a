import FerrisBridge.Store.Saving

/-!
# Agreement of the write paths

Nothing that the program itself computes is refused when it is written: operations keep the state
valid, and merging a state that the program has computed from the state in the file is the same as
writing it directly.
-/

open Foundations

namespace FerrisBridge

open RuntimeState

variable {self : StateStore} {io : Io} {disk : Disk} {state state' candidate : RuntimeState}

/-! ## Validity -/

namespace StateStore

/-- Without a failure of the file system, reading gives the visible content. -/
theorem readStateFile_eq_ok {failure : Option String} (hfailure : failure = none)
    (hdisk : ∀ visible ∈ disk.visible, visible.validate = .ok ()) :
    self.readStateFile failure disk = .ok disk.visible disk := by
  subst hfailure
  obtain ⟨visible, durable⟩ := disk
  cases visible with
  | none => rfl
  | some content =>
    have hparse : self.parseStateFile content = .ok content := by
      simp only [parseStateFile, hdisk content rfl]
    exact (estate_ok_bind (x := get) rfl).trans
      (estate_ok_bind (question_eq_ok.mpr ⟨hparse, rfl⟩))

theorem load_eq_ok (hread : io.read = none)
    (hdisk : ∀ visible ∈ disk.visible, visible.validate = .ok ()) :
    self.load io disk = .ok (io.loaded disk.visible) disk :=
  (estate_ok_bind (readStateFile_eq_ok hread hdisk)).trans rfl

/-- A valid state is written when the file system does not fail. -/
theorem writeUnlocked_eq_ok (self : StateStore) (disk : Disk) (hwrite : io.write = .replaced) (hstate : state.validate = .ok ()) :
    self.writeUnlocked io state disk = .ok () ⟨some state, some state⟩ := by
  refine (estate_ok_bind (question_eq_ok.mpr ⟨hstate, rfl⟩)).trans ?_
  simp only [mapErr, writeJsonAtomic, hwrite]
  rfl

theorem confirmDurable_eq_ok (hconfirm : io.confirm = none) :
    self.confirmDurable io disk = .ok () { disk with durable := disk.visible } := by
  simp only [confirmDurable, mapErr, confirmExistingFileDurable, hconfirm]
  rfl

theorem saveUnlocked_eq (self : StateStore) (hread : io.readForMerge = none)
    (hdisk : ∀ visible ∈ disk.visible, visible.validate = .ok ())
    (hmerge : candidate.mergeSnapshot disk.visible = .ok state) :
    self.saveUnlocked io candidate disk = self.writeUnlocked io state disk :=
  (estate_ok_bind (readStateFile_eq_ok hread hdisk)).trans
    (estate_ok_bind (question_eq_ok.mpr ⟨hmerge, rfl⟩))

theorem transact_eq {α : Type} {transaction : U64 → Transaction (α × Commit)} {reply : α}
    {commit : Commit} (hread : io.read = none)
    (hdisk : ∀ visible ∈ disk.visible, visible.validate = .ok ())
    (hwork : transaction io.now (io.loaded disk.visible) = .ok (reply, commit) state) :
    self.transact io transaction disk =
      (do self.commit io state commit; return reply : EStateM String Disk α) disk := by
  rw [transact, estate_ok_bind (load_eq_ok hread hdisk)]
  simp only [hwork]

end StateStore

theorem Disk.valid_iff : disk.Valid ↔ ∀ visible ∈ disk.visible, visible.validate = .ok () := by
  simp only [Disk.Valid, validate_eq_ok]

/-- Every operation preserves validity, whatever its arguments and the wall clock are. So the check
before a write never refuses the result of a method that has worked on a loaded state: with a file
system that does not fail, the method returns its reply and the file holds what it has computed. -/
theorem operations_preserve_validity :
    (∀ (operation : Operation) (now : U64) (state state' : RuntimeState),
      state.validate = .ok () → operation.Admissible →
        operation.apply now state = .ok () state' → state'.validate = .ok ()) ∧
      ∀ (self : StateStore) (io : Io) (disk : Disk) (method : Method) (reply : Reply)
        (written : RuntimeState), (∀ visible ∈ disk.visible, visible.validate = .ok ()) →
        Computes io disk.visible (.method method) reply written →
          written.validate = .ok () ∧
            (io.read = none → io.readForMerge = none → io.write = .replaced →
              self.call io (.method method) disk = .ok reply ⟨some written, some written⟩) := by
  refine ⟨fun operation now state state' hstate hoperation h ↦ ?_,
    fun self io disk method reply written hdisk hcomputes ↦ ?_⟩
  · rw [validate_eq_ok] at hstate ⊢
    exact (operation.change hstate hoperation h).valid hstate
  have hvalid := Disk.valid_iff.mpr hdisk
  obtain ⟨commit, hcommit, hwork⟩ := hcomputes.work_eq_ok hvalid
  have hwritten := validate_eq_ok (u := ()).mpr ((Method.change (hvalid.loaded io) hwork).1.valid
    (hvalid.loaded io))
  refine ⟨hwritten, fun hread hreadForMerge hwrite ↦ ?_⟩
  have hwritten := self.writeUnlocked_eq_ok disk hwrite hwritten
  rw [StateStore.call, StateStore.transact_eq hread hdisk hwork]
  rcases hcommit with rfl | rfl
  · exact estate_ok_bind hwritten
  · have hsave := self.saveUnlocked_eq hreadForMerge hdisk
      (method.merge_eq io reply hvalid hwork)
    exact estate_ok_bind (hsave.trans hwritten)

theorem operations_preserve_validity_enqueue :
    replyState.validate = .ok () ∧ (StateStore.mk "state.json").call .untroubled
      (.method (.enqueueOutboundDelivery pendingReply)) ⟨some chatState, none⟩ =
        .ok (.enqueued .queued) ⟨some replyState, some replyState⟩ := by
  have hdisk : ∀ visible ∈ some chatState, visible.validate = .ok () := by
    rintro _ ⟨⟩
    rfl
  refine ⟨?_, ?_⟩
  · exact operations_preserve_validity.1 (.snapshot (.enqueueOutboundDelivery pendingReply)) 0
      chatState replyState rfl trivial rfl
  · exact (operations_preserve_validity.2 ⟨"state.json"⟩ .untroubled ⟨some chatState, none⟩
      (.enqueueOutboundDelivery pendingReply) (.enqueued .queued) replyState hdisk
      (.merge rfl rfl)).2 rfl rfl rfl

/-! ## Snapshots worked on by one caller -/

/-- The snapshot after a sequence of method calls, each with its clock reading; a call that fails
leaves what the method has left. -/
def RuntimeState.applyAll (state : RuntimeState) :
    List (SnapshotOperation × U64) → RuntimeState
  | [] => state
  | (operation, now) :: rest => (finalState (operation.apply now state)).applyAll rest

/-- Calling methods on a snapshot keeps it valid and a continuation of where it started. -/
theorem RuntimeState.Continues.applyAll {existing : RuntimeState}
    {operations : List (SnapshotOperation × U64)} (h : existing.Continues state)
    (hstate : state.Valid) (hoperations : ∀ operation ∈ operations, operation.1.Admissible) :
    existing.Continues (state.applyAll operations) ∧ (state.applyAll operations).Valid := by
  induction operations generalizing state with
  | nil => exact ⟨h, hstate⟩
  | cons first rest ih =>
    obtain ⟨operation, now⟩ := first
    obtain ⟨hfirst, hrest⟩ := List.forall_mem_cons.mp hoperations
    simp only [RuntimeState.applyAll]
    cases hresult : operation.apply now state with
    | ok u state' =>
      have hchange := operation.change hstate hfirst hresult
      exact ih (h.step hstate hchange) (hchange.valid hstate) hrest
    | error err state' =>
      obtain rfl := SnapshotOperation.atomic operation now state err state' hresult
      exact ih h hstate hrest

/-- Without another writer, a save refuses the snapshot for a newly handed off or completed agent
run, or it writes exactly the snapshot. -/
theorem StateStore.save_continuation (self : StateStore) {existing : Option RuntimeState} {start : RuntimeState}
    (hread : io.readForMerge = none) (hvisible : disk.visible = existing)
    (hdisk : ∀ visible ∈ disk.visible, visible.validate = .ok ())
    (hstart : existing = some start ∨ existing = none ∧ ∃ clock, start = .new clock)
    (hcontinues : start.Continues candidate) (hcandidate : candidate.Valid) :
    (self.save io candidate disk = self.writeUnlocked io candidate disk ∧
        ∀ state ∈ existing, state.MergesToItself candidate) ∨
      ∃ err, candidate.validateSnapshotAgentRunTransitions existing = .error err ∧
        self.save io candidate disk = .error err disk ∧
        ∃ state ∈ existing, ∃ run ∈ candidate.runs, state.NewlyHandedOff run := by
  subst hvisible
  rcases hstart with hstart | ⟨hnone, clock, rfl⟩
  · have hvalid := validate_eq_ok.mp (hdisk start hstart)
    rcases hcontinues.mergeSnapshot_eq hvalid hcandidate with
      hmerge | ⟨err, hguard, hmerge, run, hrun, hnew⟩
    · rw [hstart]
      rw [← hstart] at hmerge
      refine .inl ⟨self.saveUnlocked_eq hread hdisk hmerge, ?_⟩
      rintro _ ⟨⟩
      rw [hstart] at hmerge
      refine hcontinues.mergesToItself hvalid hcandidate (forM_eq_ok_iff.mpr fun run hrun ↦ ?_)
      exact (validateSnapshotAgentRunTransition_eq_ok hvalid).mpr
        (((mergeSnapshot_eq_ok hvalid hcandidate).mp hmerge).1.handoffs run hrun)
    · refine .inr ⟨err, hstart ▸ hguard, ?_, start, hstart, run, hrun, hnew⟩
      rw [← hstart] at hmerge
      exact (estate_ok_bind (readStateFile_eq_ok hread hdisk)).trans
        (estate_error_bind (question_eq_error.mpr ⟨hmerge, rfl⟩))
  · refine .inl ⟨self.saveUnlocked_eq hread hdisk ?_, by simp [hnone]⟩
    obtain ⟨added, hdeliveries, hpending⟩ := hcontinues.deliveries
    rw [hnone]
    refine mergeSnapshot_none_eq_ok.mpr ⟨⟨fun delivery hdelivery ↦ ?_, hcontinues.inputs,
      fun run hrun ↦ ?_⟩, rfl⟩
    · rw [hdeliveries] at hdelivery
      exact hpending delivery hdelivery
    · by_contra hne
      exact absurd (hcontinues.outputs run hrun hne) List.not_mem_nil

/-- A method that saves what it has computed writes exactly that. -/
theorem StateStore.transact_saving {α : Type} {transaction : U64 → Transaction (α × Commit)}
    {reply : α} (method : Method) {wrap : α → Reply} (hread : io.read = none)
    (hreadForMerge : io.readForMerge = none)
    (hdisk : ∀ visible ∈ disk.visible, visible.validate = .ok ())
    (hmethod : method.work io.now = replying wrap (transaction io.now))
    (hwork : transaction io.now (io.loaded disk.visible) = .ok (reply, .save) state) :
    self.transact io transaction disk =
      (do self.writeUnlocked io state; return reply : EStateM String Disk α) disk := by
  rw [transact_eq hread hdisk hwork]
  refine estate_bind_congr (self.saveUnlocked_eq hreadForMerge hdisk ?_)
  refine method.merge_eq io (wrap reply) (Disk.valid_iff.mpr hdisk) ?_
  rw [hmethod]
  exact replying_eq_ok.mpr ⟨reply, hwork, rfl⟩

/-- What is visible after a write of the visible state. -/
theorem StateStore.visible_writeUnlocked (hvisible : disk.visible = some state) :
    (finalState (self.writeUnlocked io state disk)).visible = some state := by
  rcases self.writeUnlocked_cases io state disk with ⟨err, h⟩ | ⟨-, h | ⟨err, h⟩⟩ <;> rw [h]
  · exact hvisible
  · rfl
  · rfl

/-- A write that succeeds leaves its state, and nothing else, in the file. -/
theorem StateStore.eq_of_writeUnlocked {disk' : Disk}
    (h : self.writeUnlocked io state disk = .ok () disk') : disk' = ⟨some state, some state⟩ := by
  rcases self.writeUnlocked_cases io state disk with ⟨err, herror⟩ | ⟨-, hok | ⟨err, herror⟩⟩
  · cases h.symm.trans herror
  · exact (EStateM.Result.ok.inj (h.symm.trans hok)).2
  · cases h.symm.trans herror

theorem StateStore.load_save {io' : Io} {disk' : Disk} (hread : io'.readForMerge = none)
    (hload : self.load io disk = .ok state disk') :
    disk' = disk ∧ self.save io' state disk = self.writeUnlocked io' state disk := by
  rcases self.readStateFile_cases io.read disk with ⟨err, h⟩ | ⟨h, hvalid⟩
  · have hfailed : self.load io disk = .error err disk := estate_error_bind h
    cases hload.symm.trans hfailed
  have hloaded : self.load io disk = .ok (io.loaded disk.visible) disk := (estate_ok_bind h).trans rfl
  obtain ⟨rfl, hdisk'⟩ : state = io.loaded disk.visible ∧ disk' = disk := by
    simpa using hload.symm.trans hloaded
  refine ⟨hdisk', ?_⟩
  have hdisk := Disk.valid_iff.mp hvalid
  have hstart : disk.visible = some (io.loaded disk.visible) ∨
      disk.visible = none ∧ ∃ clock, io.loaded disk.visible = .new clock := by
    cases hvisible : disk.visible with
    | none => exact .inr ⟨rfl, io.newStateAt, rfl⟩
    | some state => exact .inl rfl
  rcases self.save_continuation hread rfl hdisk hstart (.refl _)
    (Disk.Valid.loaded hvalid io) with ⟨hsave, -⟩ | ⟨-, -, -, existing, hexisting, run, hrun, -, hnew, -⟩
  · exact hsave
  · rw [Option.mem_def.mp hexisting] at hrun
    exact absurd hrun hnew

/-- The merging save agrees with a direct write when nothing intervened: for a snapshot that one
caller has worked on, for the methods that record an event or enqueue a delivery, and for a snapshot
that is saved as it was loaded. A write that succeeds leaves its state in the file. -/
theorem merging_save_agrees_with_write :
    (∀ (self : StateStore) (io : Io) (disk : Disk) (start : RuntimeState)
      (operations : List (SnapshotOperation × U64)), io.readForMerge = none →
      (∀ visible ∈ disk.visible, visible.validate = .ok ()) →
      (disk.visible = some start ∨ disk.visible = none ∧ ∃ clock, start = .new clock) →
      (∀ operation ∈ operations, operation.1.Admissible) →
        let candidate := start.applyAll operations
        (self.save io candidate disk = self.writeUnlocked io candidate disk ∧
            ∀ existing ∈ disk.visible, existing.MergesToItself candidate) ∨
          ∃ err, candidate.validateSnapshotAgentRunTransitions disk.visible = .error err ∧
            self.save io candidate disk = .error err disk ∧
            ∃ existing ∈ disk.visible, ∃ run ∈ candidate.runs, existing.NewlyHandedOff run) ∧
      (∀ (self : StateStore) (io : Io) (disk : Disk) (event : Event) (computed : RuntimeState),
        io.read = none → io.readForMerge = none →
        (∀ visible ∈ disk.visible, visible.validate = .ok ()) →
        recordInboundEvent event io.now (io.loaded disk.visible) = .ok .recorded computed →
          self.transact io (StateStore.persistInboundEvent event) disk =
            (do self.writeUnlocked io computed; return .recorded :
              EStateM String Disk InboundEventRecordStatus) disk) ∧
      (∀ (self : StateStore) (io : Io) (disk : Disk) (delivery : OutboundDeliveryRecord)
        (computed : RuntimeState), io.read = none → io.readForMerge = none →
        (∀ visible ∈ disk.visible, visible.validate = .ok ()) →
        RuntimeState.enqueueOutboundDelivery delivery io.now (io.loaded disk.visible) =
          .ok .queued computed →
          self.transact io (StateStore.enqueueOutboundDelivery delivery) disk =
            (do self.writeUnlocked io computed; return .queued :
              EStateM String Disk OutboundDeliveryEnqueueStatus) disk) ∧
      (∀ (self : StateStore) (io io' : Io) (disk disk' : Disk) (loaded : RuntimeState),
        io'.readForMerge = none → self.load io disk = .ok loaded disk' →
          disk' = disk ∧ self.save io' loaded disk = self.writeUnlocked io' loaded disk ∧
            (disk.visible = some loaded →
              (finalState (self.save io' loaded disk)).visible = some loaded)) ∧
      ∀ (self : StateStore) (io : Io) (disk disk' : Disk) (written : RuntimeState),
        self.writeUnlocked io written disk = .ok () disk' → disk' = ⟨some written, some written⟩ := by
  refine ⟨fun self io disk start operations hread hdisk hstart hoperations ↦ ?_,
    fun self io disk event computed hread hreadForMerge hdisk h ↦ ?_,
    fun self io disk delivery computed hread hreadForMerge hdisk h ↦ ?_,
    fun self io io' disk disk' loaded hread hload ↦ ?_,
    fun self io disk disk' written h ↦ StateStore.eq_of_writeUnlocked h⟩
  · have hvalid : start.Valid := by
      rcases hstart with hstart | ⟨-, clock, rfl⟩
      · exact validate_eq_ok.mp (hdisk start hstart)
      · exact valid_new clock
    obtain ⟨hcontinues, hcandidate⟩ := (Continues.refl start).applyAll hvalid hoperations
    exact self.save_continuation hread rfl hdisk hstart hcontinues hcandidate
  · exact StateStore.transact_saving (.persistInboundEvent event) hread hreadForMerge hdisk
      rfl ((estate_ok_bind h).trans rfl)
  · exact StateStore.transact_saving (.enqueueOutboundDelivery delivery) hread
      hreadForMerge hdisk rfl ((estate_ok_bind h).trans rfl)
  · obtain ⟨rfl, hsave⟩ := StateStore.load_save hread hload
    exact ⟨rfl, hsave, fun hvisible ↦ by rw [hsave, StateStore.visible_writeUnlocked hvisible]⟩

/-- The chat and the reply, as a snapshot that is saved to an absent file, by the call that enqueues
the reply, and loaded and saved again. -/
theorem merging_save_agrees_with_write_reply :
    (StateStore.mk "state.json").save .untroubled ((RuntimeState.new 0).applyAll
        [(.upsertSession (.new chat 0), 0), (.enqueueOutboundDelivery pendingReply, 0)]) .absent =
      (StateStore.mk "state.json").writeUnlocked .untroubled replyState .absent ∧
    (StateStore.mk "state.json").transact .untroubled
        (StateStore.enqueueOutboundDelivery pendingReply) ⟨some chatState, none⟩ =
      (do (StateStore.mk "state.json").writeUnlocked .untroubled replyState; return .queued :
        EStateM String Disk OutboundDeliveryEnqueueStatus) ⟨some chatState, none⟩ ∧
    (finalState ((StateStore.mk "state.json").save .untroubled replyState
      ⟨some replyState, none⟩)).visible = some replyState := by
  have hdisk : ∀ visible ∈ some chatState, visible.validate = .ok () := by
    rintro _ ⟨⟩
    rfl
  refine ⟨?_, ?_, ?_⟩
  · rcases merging_save_agrees_with_write.1 ⟨"state.json"⟩ .untroubled .absent (.new 0)
      [(.upsertSession (.new chat 0), 0), (.enqueueOutboundDelivery pendingReply, 0)] rfl nofun
      (.inr ⟨rfl, 0, rfl⟩) (by simp [SnapshotOperation.Admissible, Session.valid_new]) with
      ⟨h, -⟩ | ⟨_, -, -, _, h, -⟩
    · exact h
    · cases h
  · exact merging_save_agrees_with_write.2.2.1 ⟨"state.json"⟩ .untroubled ⟨some chatState, none⟩
      pendingReply replyState rfl rfl hdisk rfl
  · exact (merging_save_agrees_with_write.2.2.2.1 ⟨"state.json"⟩ .untroubled .untroubled
      ⟨some replyState, none⟩ ⟨some replyState, none⟩ replyState rfl rfl).2.2 rfl

end FerrisBridge
