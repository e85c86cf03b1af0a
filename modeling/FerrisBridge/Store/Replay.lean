import FerrisBridge.Store.Claiming

/-!
# Replays of outcomes

The methods that end a run or resolve a delivery recognise a call that has been made before by what
it has left in the record. `Replayable` collects what a family of such methods has to satisfy: a
call leaves its own mark, a marked record is answered without a change, and no other method of the
family succeeds on it. Runs and deliveries are the two instances.
-/

open Foundations

namespace FerrisBridge

/-! ## Families of methods -/

/-- Methods that end a record, those that compete for the same record, and the mark that a method
leaves in it. -/
structure Replayable (R : Type) where
  find : RuntimeState → Option R
  reply : R → Reply
  Ends : Method → Prop
  Competes : Method → Prop
  Marks : Method → R → Prop

namespace Replayable

variable {R : Type}

structure Lawful (family : Replayable R) : Prop where
  fresh : ∀ clock, family.find (.new clock) = none
  marks : ∀ {method now state reply commit state'}, family.Ends method → state.Valid →
    method.work now state = .ok (reply, commit) state' →
      ∃ record, family.find state' = some record ∧ reply = family.reply record ∧
        family.Marks method record ∧ (commit = .write ∨ commit = .confirm ∧ state' = state)
  replays : ∀ {method record now state}, family.Ends method → family.find state = some record →
    family.Marks method record →
      method.work now state = .ok (family.reply record, .confirm) state
  excludes : ∀ {method other record now state reply commit state'}, family.Ends method →
    family.Competes other → state.Valid → family.find state = some record →
      family.Marks method record → other.work now state = .ok (reply, commit) state' →
        other = method

/-- The visible record. -/
def visible (family : Replayable R) (disk : Disk) : Option R := disk.visible.bind family.find

end Replayable

/-- A call has taken effect when it has succeeded, or has failed after it replaced the file. -/
def StateStore.TakesEffect (self : StateStore) (io : Io) (method : Method) (disk : Disk) : Prop :=
  (∃ reply, outcome (self.call io (.method method) disk) = .ok reply) ∨
    (finalState (self.call io (.method method) disk)).visible ≠ disk.visible

/-- Once a call has taken effect, and as long as its record stays as it is, the same call returns the
record again and changes nothing, and no competing call succeeds or changes anything. -/
def StateStore.ReplaysExactly {R : Type} (self : StateStore) (family : Replayable R) : Prop :=
  ∀ method io disk, family.Ends method → (∀ visible ∈ disk.visible, visible.validate = .ok ()) →
    self.TakesEffect io method disk →
      ∃ record,
        family.visible (finalState (self.call io (.method method) disk)) = some record ∧
        (∀ reply, outcome (self.call io (.method method) disk) = .ok reply →
          reply = family.reply record) ∧
        ∀ later : Disk, (∀ visible ∈ later.visible, visible.validate = .ok ()) →
          family.visible later = some record →
            (∀ io : Io, io.Faultless → self.call io (.method method) later =
              .ok (family.reply record) { later with durable := later.visible }) ∧
            ∀ other, family.Competes other → other ≠ method → ∀ io, ∃ err,
              self.call io (.method other) later = .error err later

namespace Replayable.Lawful

variable {R : Type} {family : Replayable R} {self : StateStore} {io : Io} {disk : Disk}
  {method other : Method} {record : R}

/-- The loaded record is the visible one. -/
theorem find_loaded (hfamily : family.Lawful) (io : Io) :
    family.find (io.loaded disk.visible) = family.visible disk := by
  unfold visible Io.loaded
  cases disk.visible with
  | none => exact hfamily.fresh _
  | some state => rfl

/-- A call that takes effect leaves its mark. -/
theorem marks_of_takesEffect (hfamily : family.Lawful) (hmethod : family.Ends method)
    (hdisk : disk.Valid) (heffect : self.TakesEffect io method disk) :
    ∃ record, family.visible (finalState (self.call io (.method method) disk)) = some record ∧
      family.Marks method record ∧
      ∀ reply, outcome (self.call io (.method method) disk) = .ok reply →
        reply = family.reply record := by
  have hloaded := hdisk.loaded io
  have hcall := self.call_effect io (.method method) disk
  unfold StateStore.TakesEffect at heffect
  generalize self.call io (.method method) disk = result at hcall heffect ⊢
  cases hcall with
  | refused err =>
    rcases heffect with ⟨reply, h⟩ | h
    · cases h
    · exact absurd rfl h
  | answered hrequest hwork =>
    cases hrequest
    obtain ⟨-, -, -, -, h | ⟨h, -⟩⟩ := hfamily.marks hmethod hloaded hwork <;> cases h
  | confirmed hrequest hwork =>
    cases hrequest
    obtain ⟨record, hfind, rfl, hmarks, h | ⟨-, rfl⟩⟩ := hfamily.marks hmethod hloaded hwork
    · cases h
    · refine ⟨record, (hfamily.find_loaded io).symm.trans hfind, hmarks, ?_⟩
      rintro _ ⟨⟩
      rfl
  | written hcomputes =>
    obtain ⟨commit, -, hwork⟩ := hcomputes.work_eq_ok hdisk
    obtain ⟨record, hfind, rfl, hmarks, -⟩ := hfamily.marks hmethod hloaded hwork
    refine ⟨record, hfind, hmarks, ?_⟩
    rintro _ ⟨⟩
    rfl
  | unconfirmed err hcomputes =>
    obtain ⟨commit, -, hwork⟩ := hcomputes.work_eq_ok hdisk
    obtain ⟨record, hfind, rfl, hmarks, -⟩ := hfamily.marks hmethod hloaded hwork
    exact ⟨record, hfind, hmarks, fun _ h ↦ by cases h⟩

/-- The same call on a marked record. -/
theorem call_again (hfamily : family.Lawful) (hmethod : family.Ends method) (hdisk : disk.Valid)
    (hrecord : family.visible disk = some record) (hmarks : family.Marks method record)
    (hio : io.Faultless) :
    self.call io (.method method) disk =
      .ok (family.reply record) { disk with durable := disk.visible } := by
  have hfind := (hfamily.find_loaded io).trans hrecord
  exact self.call_method_eq_ok hio hdisk (hfamily.replays hmethod hfind hmarks) fun h ↦ by cases h

/-- Another call on a marked record. -/
theorem call_other (hfamily : family.Lawful) (hmethod : family.Ends method) (hdisk : disk.Valid)
    (hrecord : family.visible disk = some record) (hmarks : family.Marks method record)
    (hother : family.Competes other) (hne : other ≠ method) (io : Io) :
    ∃ err, self.call io (.method other) disk = .error err disk := by
  have hfind := (hfamily.find_loaded io).trans hrecord
  have hcall := self.call_effect io (.method other) disk
  generalize self.call io (.method other) disk = result at hcall ⊢
  cases hcall with
  | refused err => exact ⟨err, rfl⟩
  | answered hrequest hwork | confirmed hrequest hwork =>
    cases hrequest
    exact absurd (hfamily.excludes hmethod hother (hdisk.loaded io) hfind hmarks hwork) hne
  | written hcomputes | unconfirmed _ hcomputes =>
    obtain ⟨commit, -, hwork⟩ := hcomputes.work_eq_ok hdisk
    exact absurd (hfamily.excludes hmethod hother (hdisk.loaded io) hfind hmarks hwork) hne

theorem replaysExactly (hfamily : family.Lawful) (self : StateStore) : self.ReplaysExactly family := by
  intro method io disk hmethod hdisk heffect
  obtain ⟨record, hrecord, hmarks, hreply⟩ :=
    hfamily.marks_of_takesEffect hmethod (Disk.valid_iff.mpr hdisk) heffect
  refine ⟨record, hrecord, hreply, fun later hlater hfound ↦ ⟨fun io hio ↦ ?_,
    fun other hother hne io ↦ ?_⟩⟩
  · exact hfamily.call_again hmethod (Disk.valid_iff.mpr hlater) hfound hmarks hio
  · exact hfamily.call_other hmethod (Disk.valid_iff.mpr hlater) hfound hmarks hother hne io

end Replayable.Lawful

/-! ## Outcomes of agent runs -/

namespace RunRecord

variable {run run' : RunRecord} {time : U64} {u : Unit}

theorem finishedAt_of_fail (h : fail time run = .ok u run') : run'.finishedAtUnix = some time := by
  simp only [fail, estate_bind_eq_ok, question_eq_ok, estate_get_eq_ok] at h
  obtain ⟨_, _, ⟨rfl, rfl⟩, _, _, ⟨-, rfl⟩, hfinish⟩ := h
  obtain ⟨-, -, rfl⟩ := finish_eq_ok hfinish
  rfl

theorem Descends.started_of_running (hrun : run.Valid) (hrunning : run.status = .running)
    (h : run'.Descends run) : run'.startedAtUnix.isSome := by
  have hshape := hrun.shape
  rw [StatusShape, hrunning] at hshape
  rw [h.started (by simp [hrunning])]
  exact hshape.1

end RunRecord

namespace RuntimeState

variable {state state' : RuntimeState} {id : RunId} {time now : U64} {u : Unit} {run' : RunRecord}

/-- A transition of one run, seen at its record. -/
theorem run_of_runTransition {update : EStateM String RunRecord Unit} (hstate : state.Valid)
    (hupdate : ∀ run run', run.Valid → update run = .ok () run' → run.Advances time run')
    (h : (do runMut id update; modify (touchAt (max time now)) :
      EStateM String RuntimeState Unit) state = .ok u state') :
    ∃ run run', state.run id = some run ∧ state'.run id = some run' ∧ run.Valid ∧
      update run = .ok () run' := by
  simp only [estate_bind_unit_eq_ok, estate_modify_eq_ok] at h
  obtain ⟨_, hrun, rfl⟩ := h
  obtain ⟨before, run, run', after, hruns, rfl, hfound, hrun⟩ := runMut_eq_ok hrun
  obtain ⟨hmem, hid⟩ := find_key_eq_some hfound
  have hvalid := hstate.runs run hmem
  have hid' : run'.id = run.id := (hupdate run run' hvalid hrun).descends.id_eq
  refine ⟨run, run', hfound, ?_, hvalid, hrun⟩
  have hnodup : ((before ++ run' :: after).map (·.id)).Nodup := by
    have := hstate.run_ids
    rw [hruns] at this
    simpa [hid'] using this
  exact (find_key_iff hnodup).mpr ⟨by simp, hid'.trans hid⟩

end RuntimeState

/-- The methods that record how an agent run has ended without a completion. -/
inductive Method.EndsRun (id : RunId) : Method → Prop
  | fail (failedAtUnix : U64) : EndsRun id (.failAgentRun id failedAtUnix)
  | interrupt (interruptedAtUnix : U64) : EndsRun id (.interruptAgentRun id interruptedAtUnix)

/-- What such a method leaves in the record of the run. -/
def Method.MarksRun : Method → RunRecord → Prop
  | .failAgentRun _ failedAtUnix, run =>
    run.status = .failed ∧ run.startedAtUnix.isSome ∧ run.finishedAtUnix = some failedAtUnix
  | .interruptAgentRun _ interruptedAtUnix, run =>
    run.status = .interrupted ∧ run.startedAtUnix.isSome ∧ run.updatedAtUnix = interruptedAtUnix
  | _, _ => False

def agentRunOutcomes (id : RunId) : Replayable RunRecord where
  find := (·.run id)
  reply := .run
  Ends := Method.EndsRun id
  Competes method :=
    Method.EndsRun id method ∨ ∃ messages finishedAtUnix, method = .completeAgentRun id messages finishedAtUnix
  Marks := Method.MarksRun

section Runs

variable {id : RunId} {method other : Method} {run : RunRecord} {state state' : RuntimeState}
  {now : U64} {reply : Reply} {commit : Commit}

theorem Method.EndsRun.marks (hmethod : method.EndsRun id) (hstate : state.Valid)
    (h : method.work now state = .ok (reply, commit) state') :
    ∃ run', state'.run id = some run' ∧ reply = .run run' ∧ method.MarksRun run' ∧
      (commit = .write ∧ (∃ run, state.run id = some run ∧ run.status = .running) ∨
        commit = .confirm ∧ state' = state) := by
  cases hmethod with
  | fail time =>
    obtain ⟨run', hwork, rfl⟩ := replying_eq_ok.mp h
    rcases StateStore.failAgentRun_eq_ok hwork with
      ⟨rfl, hfail, hrun', run, hrun, hrunning⟩ | ⟨rfl, rfl, hrun', hmarks⟩
    · obtain ⟨_, _, hfound, hfound', hvalid, hupdate⟩ := RuntimeState.run_of_runTransition hstate
        (fun _ _ _ h ↦ (RunRecord.fail_eq_ok h).1) hfail
      obtain rfl := Option.some.inj (hfound.symm.trans hrun)
      obtain rfl := Option.some.inj (hfound'.symm.trans hrun')
      obtain ⟨hadvances, hfailed, -⟩ := RunRecord.fail_eq_ok hupdate
      exact ⟨_, hrun', rfl, ⟨hfailed, hadvances.descends.started_of_running hvalid hrunning,
        RunRecord.finishedAt_of_fail hupdate⟩, .inl ⟨rfl, _, hrun, hrunning⟩⟩
    · exact ⟨run', hrun', rfl, hmarks, .inr ⟨rfl, rfl⟩⟩
  | interrupt time =>
    obtain ⟨run', hwork, rfl⟩ := replying_eq_ok.mp h
    rcases StateStore.interruptAgentRun_eq_ok hwork with
      ⟨rfl, hinterrupt, hrun', run, hrun, hrunning, htime⟩ | ⟨rfl, rfl, hrun', hmarks⟩
    · obtain ⟨_, _, hfound, hfound', hvalid, hupdate⟩ := RuntimeState.run_of_runTransition hstate
        (fun _ _ _ h ↦ (RunRecord.interrupt_eq_ok h).1) hinterrupt
      obtain rfl := Option.some.inj (hfound.symm.trans hrun)
      obtain rfl := Option.some.inj (hfound'.symm.trans hrun')
      obtain ⟨hadvances, -, hinterrupted, -⟩ := RunRecord.interrupt_eq_ok hupdate
      exact ⟨_, hrun', rfl, ⟨hinterrupted, hadvances.descends.started_of_running hvalid hrunning,
        hadvances.updated_eq.trans (max_eq_right htime)⟩, .inl ⟨rfl, _, hrun, hrunning⟩⟩
    · exact ⟨run', hrun', rfl, hmarks, .inr ⟨rfl, rfl⟩⟩

/-- A run bears the mark of one method. -/
theorem Method.EndsRun.marks_unique (hmethod : method.EndsRun id) (hother : other.EndsRun id)
    (h : method.MarksRun run) (h' : other.MarksRun run) : other = method := by
  cases hmethod <;> cases hother <;> obtain ⟨hstatus, -, htime⟩ := h <;>
    obtain ⟨hstatus', -, htime'⟩ := h'
  · rw [Option.some.inj (htime'.symm.trans htime)]
  · cases hstatus'.symm.trans hstatus
  · cases hstatus'.symm.trans hstatus
  · rw [htime'.symm.trans htime]

theorem Method.EndsRun.settled (hmethod : method.EndsRun id) (h : method.MarksRun run) :
    run.status = .failed ∨ run.status = .interrupted := by
  cases hmethod with
  | fail => exact .inl h.1
  | interrupt => exact .inr h.1

theorem Method.EndsRun.replays (hmethod : method.EndsRun id) (hrun : state.run id = some run)
    (hmarks : method.MarksRun run) : method.work now state = .ok (.run run, .confirm) state := by
  cases hmethod with
  | fail time =>
    obtain ⟨hstatus, hstarted, hfinished⟩ := hmarks
    refine replying_eq_ok.mpr ⟨run, ?_, rfl⟩
    simp only [StateStore.failAgentRun, estate_bind_eq_ok (f := fun state ↦ _), estate_get_eq_ok]
    refine ⟨_, _, ⟨rfl, rfl⟩, run, _, question_eq_ok.mpr ⟨okOr_eq_ok.mpr hrun, rfl⟩, ?_⟩
    simp only [hstatus, hstarted, hfinished, and_self, if_true, estate_pure_eq_ok]
  | interrupt time =>
    obtain ⟨hstatus, hstarted, hupdated⟩ := hmarks
    refine replying_eq_ok.mpr ⟨run, ?_, rfl⟩
    simp only [StateStore.interruptAgentRun, estate_bind_eq_ok (f := fun state ↦ _),
      estate_get_eq_ok]
    refine ⟨_, _, ⟨rfl, rfl⟩, run, _, question_eq_ok.mpr ⟨okOr_eq_ok.mpr hrun, rfl⟩, ?_⟩
    simp only [hstatus, hstarted, hupdated, and_self, if_true, estate_pure_eq_ok]

/-- A completion does not succeed on a run that has failed or has been interrupted. -/
theorem Method.completeAgentRun_not_settled {messages : List Message} {time : U64}
    (hrun : state.run id = some run) (hsettled : run.status = .failed ∨ run.status = .interrupted)
    (h : (Method.completeAgentRun id messages time).work now state = .ok (reply, commit) state') :
    False := by
  obtain ⟨_, hwork, -⟩ := replying_eq_ok.mp h
  obtain ⟨run', expected, hrun', -, ⟨-, hcomplete⟩ | ⟨-, -, hcompleted, -⟩⟩ :=
    StateStore.completeAgentRun_eq_ok hwork
  · obtain ⟨-, -, _, run'', _, _, -, hrun'', hrunning, -⟩ :=
      RuntimeState.completeRunWithOutputDeliveries_eq_ok hcomplete
    obtain rfl := Option.some.inj (hrun''.symm.trans hrun)
    simp [hrunning] at hsettled
  · obtain rfl := Option.some.inj (hrun'.symm.trans hrun)
    simp [hcompleted] at hsettled

theorem agentRunOutcomes_lawful (id : RunId) : (agentRunOutcomes id).Lawful where
  fresh _ := rfl
  marks hmethod hstate h := by
    obtain ⟨run', hrun', hreply, hmarks, hcommit⟩ := hmethod.marks hstate h
    exact ⟨run', hrun', hreply, hmarks, hcommit.imp_left (·.1)⟩
  replays hmethod hrun hmarks := hmethod.replays hrun hmarks
  excludes hmethod hother hstate hrun hmarks h := by
    have hsettled := hmethod.settled hmarks
    rcases hother with hother | ⟨messages, time, rfl⟩
    · obtain ⟨run', hrun', -, hmarks', ⟨-, run₀, hrun₀, hrunning⟩ | ⟨-, rfl⟩⟩ := hother.marks hstate h
      · obtain rfl := Option.some.inj (hrun₀.symm.trans hrun)
        simp [hrunning] at hsettled
      · obtain rfl := Option.some.inj (hrun'.symm.trans hrun)
        exact hmethod.marks_unique hother hmarks hmarks'
    · exact (Method.completeAgentRun_not_settled hrun hsettled h).elim

end Runs

/-! ## Resolutions of deliveries -/

/-- The methods that resolve a delivery of uncertain outcome. -/
inductive Method.Resolves (id : OutboundDeliveryId) : Method → Prop
  | delivered (resolvedAtUnix : U64) : Resolves id (.resolveOutboundDeliveryAsDelivered id resolvedAtUnix)
  | failed (resolvedAtUnix : U64) (reason : String) :
    Resolves id (.resolveOutboundDeliveryAsFailed id resolvedAtUnix reason)

/-- What such a method leaves in the record of the delivery. -/
def Method.MarksDelivery : Method → OutboundDeliveryRecord → Prop
  | .resolveOutboundDeliveryAsDelivered _ resolvedAtUnix, delivery =>
    delivery.status = .delivered ∧ delivery.deliveredAtUnix = some resolvedAtUnix
  | .resolveOutboundDeliveryAsFailed _ resolvedAtUnix reason, delivery =>
    delivery.status = .failed ∧ isBlank reason = false ∧ delivery.updatedAtUnix = resolvedAtUnix ∧
      delivery.lastError = some reason
  | _, _ => False

def deliveryResolutions (id : OutboundDeliveryId) : Replayable OutboundDeliveryRecord where
  find := (·.outboundDelivery id)
  reply := .delivery
  Ends := Method.Resolves id
  Competes := Method.Resolves id
  Marks := Method.MarksDelivery

namespace OutboundDeliveryRecord

variable {record record' : OutboundDeliveryRecord} {time : U64} {error : String}

theorem resolveUncertainAsDelivered_eq (hrecord : record.Valid) (hstatus : record.status = .uncertain)
    (htime : record.updatedAtUnix ≤ time) :
    resolveUncertainAsDelivered time record = .ok () (touchAt time { record with
      status := .delivered
      deliveredAtUnix := some time
      lastError := none }) := by
  have hresolution : record.validateResolutionTime time "resolve as delivered" = .ok () := by
    simp only [validateResolutionTime, except_bind_unit_eq_ok, rejectIf_eq_ok, not_lt]
    exact ⟨hrecord.created_le.trans htime, htime⟩
  simp only [resolveUncertainAsDelivered, estate_bind_eq_ok, estate_get_eq_ok, question_eq_ok,
    rejectIf_eq_ok, estate_modify_eq_ok, not_not]
  exact ⟨_, _, ⟨rfl, rfl⟩, (), _, ⟨hstatus, rfl⟩, (), _, ⟨hresolution, rfl⟩, rfl⟩

theorem resolveUncertainAsFailed_eq (hrecord : record.Valid) (hstatus : record.status = .uncertain)
    (htime : record.updatedAtUnix ≤ time) (herror : isBlank error = false) :
    resolveUncertainAsFailed time error record = .ok () (touchAt time { record with
      status := .failed
      deliveredAtUnix := none
      lastError := some error }) := by
  have hresolution : record.validateResolutionTime time "resolve as failed" = .ok () := by
    simp only [validateResolutionTime, except_bind_unit_eq_ok, rejectIf_eq_ok, not_lt]
    exact ⟨hrecord.created_le.trans htime, htime⟩
  simp only [resolveUncertainAsFailed, estate_bind_eq_ok, estate_get_eq_ok, question_eq_ok,
    rejectIf_eq_ok, estate_modify_eq_ok, not_not]
  exact ⟨_, _, ⟨rfl, rfl⟩, (), _, ⟨hstatus, rfl⟩, (), _, ⟨hresolution, rfl⟩, (), _,
    ⟨by simp [herror], rfl⟩, rfl⟩

theorem deliveredAt_of_resolve (h : resolveUncertainAsDelivered time record = .ok () record') :
    record'.deliveredAtUnix = some time := by
  simp only [resolveUncertainAsDelivered, estate_bind_eq_ok, question_eq_ok, estate_get_eq_ok,
    estate_modify_eq_ok] at h
  obtain ⟨_, _, ⟨rfl, rfl⟩, _, _, ⟨-, rfl⟩, _, _, ⟨-, rfl⟩, rfl⟩ := h
  rfl

theorem error_of_resolve (h : resolveUncertainAsFailed time error record = .ok () record') :
    isBlank error = false ∧ record'.updatedAtUnix = time ∧ record'.lastError = some error := by
  simp only [resolveUncertainAsFailed, estate_bind_eq_ok, question_eq_ok, rejectIf_eq_ok,
    estate_get_eq_ok, estate_modify_eq_ok] at h
  obtain ⟨_, _, ⟨rfl, rfl⟩, _, _, ⟨-, rfl⟩, _, _, ⟨hresolution, rfl⟩, _, _, ⟨herror, rfl⟩, rfl⟩ := h
  exact ⟨by simpa using herror,
    max_eq_right (updatedAt_le_of_validateResolutionTime hresolution), rfl⟩

end OutboundDeliveryRecord

section Deliveries

variable {id : OutboundDeliveryId} {method other : Method} {delivery : OutboundDeliveryRecord}
  {state state' : RuntimeState} {now : U64} {reply : Reply} {commit : Commit}

/-- An update of one delivery, seen at its record. -/
theorem RuntimeState.outboundDelivery_of_update {update : EStateM String OutboundDeliveryRecord Unit}
    (hstate : state.Valid)
    (hupdate : ∀ record record', update record = .ok () record' → record.Advances record')
    (h : updateOutboundDelivery id now update state = .ok delivery state') :
    ∃ previous, state.outboundDelivery id = some previous ∧
      state'.outboundDelivery id = some delivery ∧ update previous = .ok () delivery := by
  obtain ⟨before, previous, after, hdeliveries, rfl, hfound, hprevious⟩ :=
    updateOutboundDelivery_eq_ok h
  obtain ⟨hmem, hid⟩ := find_key_eq_some hfound
  have hid' : delivery.id = previous.id := (hupdate previous delivery hprevious).id_eq
  refine ⟨previous, hfound, ?_, hprevious⟩
  have hnodup : ((before ++ delivery :: after).map (·.id)).Nodup := by
    have := hstate.delivery_ids
    rw [hdeliveries] at this
    simpa [hid'] using this
  exact (find_key_iff hnodup).mpr ⟨by simp, hid'.trans hid⟩

theorem Method.Resolves.marks (hmethod : method.Resolves id) (hstate : state.Valid)
    (h : method.work now state = .ok (reply, commit) state') :
    ∃ delivery, state'.outboundDelivery id = some delivery ∧ reply = .delivery delivery ∧
      method.MarksDelivery delivery ∧
      (commit = .write ∧ (∃ previous, state.outboundDelivery id = some previous ∧
          previous.status = .uncertain) ∨ commit = .confirm ∧ state' = state) := by
  cases hmethod with
  | delivered time =>
    obtain ⟨delivery, hwork, rfl⟩ := replying_eq_ok.mp h
    rcases StateStore.resolveOutboundDeliveryAsDelivered_eq_ok hwork with
      ⟨hresolve, rfl⟩ | ⟨rfl, rfl, hdelivery, hmarks⟩
    · obtain ⟨previous, hprevious, hdelivery, hupdate⟩ := RuntimeState.outboundDelivery_of_update
        hstate (fun _ _ h ↦ (OutboundDeliveryRecord.advances_of_resolveUncertainAsDelivered h).1)
        hresolve
      obtain ⟨-, huncertain, hdelivered⟩ :=
        OutboundDeliveryRecord.advances_of_resolveUncertainAsDelivered hupdate
      exact ⟨delivery, hdelivery, rfl,
        ⟨hdelivered, OutboundDeliveryRecord.deliveredAt_of_resolve hupdate⟩,
        .inl ⟨rfl, previous, hprevious, huncertain⟩⟩
    · exact ⟨delivery, hdelivery, rfl, hmarks, .inr ⟨rfl, rfl⟩⟩
  | failed time reason =>
    obtain ⟨delivery, hwork, rfl⟩ := replying_eq_ok.mp h
    rcases StateStore.resolveOutboundDeliveryAsFailed_eq_ok hwork with
      ⟨hresolve, rfl⟩ | ⟨rfl, rfl, hdelivery, hmarks⟩
    · obtain ⟨previous, hprevious, hdelivery, hupdate⟩ := RuntimeState.outboundDelivery_of_update
        hstate (fun _ _ h ↦ (OutboundDeliveryRecord.advances_of_resolveUncertainAsFailed h).1)
        hresolve
      obtain ⟨-, huncertain, hfailed⟩ :=
        OutboundDeliveryRecord.advances_of_resolveUncertainAsFailed hupdate
      exact ⟨delivery, hdelivery, rfl, ⟨hfailed, OutboundDeliveryRecord.error_of_resolve hupdate⟩,
        .inl ⟨rfl, previous, hprevious, huncertain⟩⟩
    · exact ⟨delivery, hdelivery, rfl, hmarks, .inr ⟨rfl, rfl⟩⟩

/-- A delivery bears the mark of one resolution. -/
theorem Method.Resolves.marks_unique (hmethod : method.Resolves id) (hother : other.Resolves id)
    (h : method.MarksDelivery delivery) (h' : other.MarksDelivery delivery) : other = method := by
  cases hmethod with
  | delivered time =>
    cases hother with
    | delivered time' => rw [Option.some.inj (h'.2.symm.trans h.2)]
    | failed => cases h'.1.symm.trans h.1
  | failed time reason =>
    cases hother with
    | delivered => cases h'.1.symm.trans h.1
    | failed time' reason' =>
      obtain ⟨-, -, htime, hreason⟩ := h
      obtain ⟨-, -, htime', hreason'⟩ := h'
      rw [htime'.symm.trans htime, Option.some.inj (hreason'.symm.trans hreason)]

theorem Method.Resolves.not_uncertain (hmethod : method.Resolves id)
    (h : method.MarksDelivery delivery) : delivery.status ≠ .uncertain := by
  cases hmethod <;> rw [h.1] <;> exact fun h ↦ by cases h

theorem Method.Resolves.replays (hmethod : method.Resolves id)
    (hdelivery : state.outboundDelivery id = some delivery) (hmarks : method.MarksDelivery delivery) :
    method.work now state = .ok (.delivery delivery, .confirm) state := by
  cases hmethod with
  | delivered time =>
    obtain ⟨hstatus, hdelivered⟩ := hmarks
    refine replying_eq_ok.mpr ⟨delivery, ?_, rfl⟩
    simp only [StateStore.resolveOutboundDeliveryAsDelivered, estate_bind_eq_ok, estate_get_eq_ok,
      question_eq_ok, okOr_eq_ok]
    refine ⟨_, _, ⟨rfl, rfl⟩, delivery, _, ⟨hdelivery, rfl⟩, ?_⟩
    simp only [hstatus, hdelivered, if_true, estate_pure_eq_ok, and_self]
  | failed time reason =>
    obtain ⟨hstatus, hblank, hupdated, herror⟩ := hmarks
    refine replying_eq_ok.mpr ⟨delivery, ?_, rfl⟩
    simp only [StateStore.resolveOutboundDeliveryAsFailed, estate_bind_eq_ok, estate_get_eq_ok,
      question_eq_ok, okOr_eq_ok]
    refine ⟨_, _, ⟨rfl, rfl⟩, delivery, _, ⟨hdelivery, rfl⟩, ?_⟩
    simp only [hstatus, hblank, hupdated, herror, Bool.false_eq_true, if_false, and_self, if_true,
      estate_pure_eq_ok]

theorem deliveryResolutions_lawful (id : OutboundDeliveryId) : (deliveryResolutions id).Lawful where
  fresh _ := rfl
  marks hmethod hstate h := by
    obtain ⟨delivery, hdelivery, hreply, hmarks, hcommit⟩ := hmethod.marks hstate h
    exact ⟨delivery, hdelivery, hreply, hmarks, hcommit.imp_left (·.1)⟩
  replays hmethod hdelivery hmarks := hmethod.replays hdelivery hmarks
  excludes hmethod hother hstate hdelivery hmarks h := by
    obtain ⟨delivery', hdelivery', -, hmarks', ⟨-, previous, hprevious, huncertain⟩ | ⟨-, rfl⟩⟩ :=
      hother.marks hstate h
    · obtain rfl := Option.some.inj (hprevious.symm.trans hdelivery)
      exact absurd huncertain (hmethod.not_uncertain hmarks)
    · obtain rfl := Option.some.inj (hdelivery'.symm.trans hdelivery)
      exact hmethod.marks_unique hother hmarks hmarks'

end Deliveries

/-! ## Explicit resolutions -/

section Explicit

variable {id : RunId} {run run' : RunRecord} {state : RuntimeState} {time now : U64}

theorem RunRecord.finish_eq {status : RunStatus} (hrun : run.Valid) (htime : run.updatedAtUnix ≤ time) :
    RunRecord.finish status time run =
      .ok () (touchAt time { run with status, finishedAtUnix := some time }) := by
  have hcreated : ¬time < run.createdAtUnix := not_lt.mpr (hrun.created_le.trans htime)
  have hstarted : ¬run.startedAtUnix.any (fun start ↦ decide (time < start)) = true := by
    simp only [Option.any_eq_true, decide_eq_true_eq, not_exists, not_and, not_lt]
    exact fun start hstart ↦ (hrun.started start hstart).2.trans htime
  simp only [finish, estate_bind_eq_ok, estate_get_eq_ok, question_eq_ok, rejectIf_eq_ok,
    estate_modify_eq_ok]
  exact ⟨_, _, ⟨rfl, rfl⟩, (), _, ⟨hcreated, rfl⟩, (), _, ⟨hstarted, rfl⟩, rfl⟩

/-- The transitions that resolve an interrupted run. -/
inductive RunRecord.Settles : (U64 → EStateM String RunRecord Unit) → RunStatus → Prop
  | fail : Settles RunRecord.fail .failed
  | cancel : Settles RunRecord.cancel .cancelled

theorem RunRecord.Settles.eq {settle : U64 → EStateM String RunRecord Unit} {status : RunStatus}
    (h : RunRecord.Settles settle status) (hrun : run.Valid) (hinterrupted : run.status = .interrupted)
    (htime : run.updatedAtUnix ≤ time) :
    settle time run = .ok () (touchAt time { run with status, finishedAtUnix := some time }) := by
  have hactive : ¬run.status.isTerminal = true := by simp [hinterrupted, RunStatus.isTerminal]
  cases h <;> exact estate_bind_eq_ok.mpr ⟨run, run, rfl, estate_bind_eq_ok.mpr
    ⟨(), run, question_eq_ok.mpr ⟨rejectIf_eq_ok.mpr hactive, rfl⟩, finish_eq hrun htime⟩⟩

theorem RunRecord.Settles.advances {settle : U64 → EStateM String RunRecord Unit} {status : RunStatus}
    (h : RunRecord.Settles settle status) (hsettle : settle time run = .ok () run') :
    run.Advances time run' ∧ run'.outputDeliveryIds = run.outputDeliveryIds := by
  cases h with
  | fail =>
    obtain ⟨hadvances, -, houtputs⟩ := fail_eq_ok hsettle
    exact ⟨hadvances, houtputs⟩
  | cancel =>
    obtain ⟨hadvances, -, houtputs⟩ := cancel_eq_ok hsettle
    exact ⟨hadvances, houtputs⟩

/-- An interrupted run can be settled in a snapshot, and the snapshot is saved as it is. -/
theorem StateStore.settle_interrupted (self : StateStore)
    {settle : U64 → EStateM String RunRecord Unit} {status : RunStatus}
    (hsettles : RunRecord.Settles settle status) (hstate : state.Valid)
    (hrun : state.run id = some run) (hinterrupted : run.status = .interrupted)
    (htime : run.updatedAtUnix ≤ time) :
    ∃ settled : RuntimeState, (do
        RuntimeState.runMut id (settle time)
        modify (RuntimeState.touchAt (max time now)) : EStateM String RuntimeState Unit) state =
          .ok () settled ∧
      settled.run id = some (RunRecord.touchAt time { run with status, finishedAtUnix := some time }) ∧
      ∀ io disk, Io.Faultless io → disk.visible = some state →
        self.save io settled disk = .ok () ⟨some settled, some settled⟩ := by
  obtain ⟨hmem, hid⟩ := find_key_eq_some hrun
  have hsettle := hsettles.eq (hstate.runs run hmem) hinterrupted htime
  obtain ⟨hmatches, before, after, hruns, hbefore⟩ := List.find?_eq_some_iff_append.mp hrun
  have hrunMut : RuntimeState.runMut id (settle time) state = .ok () { state with
      runs := before ++ RunRecord.touchAt time { run with status, finishedAtUnix := some time } :: after } := by
    refine zoom_eq_ok.mpr ⟨_, ?_, rfl⟩
    rw [hruns]
    exact updateFirst_eq_some (by simpa using hbefore) hmatches hsettle
  have hoperation := (estate_ok_bind (f := fun _ ↦ modify (RuntimeState.touchAt (max time now)))
    hrunMut).trans rfl
  have hchange := RuntimeState.SnapshotChange.of_runTransition hstate
    (fun _ _ _ h ↦ hsettles.advances h) hoperation
  obtain ⟨_, _, hfound, hfound', -, hupdate⟩ := RuntimeState.run_of_runTransition hstate
    (fun _ _ _ h ↦ (hsettles.advances h).1) hoperation
  obtain rfl := Option.some.inj (hfound.symm.trans hrun)
  rw [hsettle] at hupdate
  cases hupdate
  refine ⟨_, hoperation, hfound', fun io disk hio hvisible ↦ ?_⟩
  have hdisk : ∀ visible ∈ disk.visible, visible.validate = .ok () := by
    rw [hvisible]
    rintro _ ⟨⟩
    exact RuntimeState.validate_eq_ok.mpr hstate
  have hvalid := hchange.valid hstate
  rcases self.save_continuation hio.readForMerge hvisible hdisk (.inl rfl)
      ((RuntimeState.Continues.refl state).step hstate hchange) hvalid with
    ⟨hsave, -⟩ | ⟨err, -, -, _, ⟨⟩, run', hrun', -, hnew, hstatus⟩
  · rw [hsave]
    exact self.writeUnlocked_eq_ok disk hio.write (RuntimeState.validate_eq_ok.mpr hvalid)
  -- The only record that has changed is settled, and it is neither running nor completed.
  · rw [hruns] at hnew
    rcases List.mem_append.mp hrun' with h | h
    · exact absurd (List.mem_append_left _ h) hnew
    rcases List.mem_cons.mp h with rfl | h
    · cases hsettles <;> rcases hstatus with h | h <;> cases h
    · exact absurd (List.mem_append_right _ (List.mem_cons_of_mem _ h)) hnew

end Explicit

/-! ## Replay -/

/-- An operation that settles an interrupted run in a snapshot, which is then saved. -/
def StateStore.SettlesInterrupted (self : StateStore)
    (operation : RunId → U64 → U64 → EStateM String RuntimeState Unit) (status : RunStatus) : Prop :=
  ∀ state id run time now, state.validate = .ok () → state.run id = some run →
    run.status = .interrupted → run.updatedAtUnix ≤ time →
      ∃ settled, operation id time now state = .ok () settled ∧
        (∃ run', settled.run id = some run' ∧ run'.status = status ∧
          run'.finishedAtUnix = some time) ∧
        ∀ io disk, Io.Faultless io → disk.visible = some state →
          self.save io settled disk = .ok () ⟨some settled, some settled⟩

/-- The time and the reason of a resolution are such that it can be made. -/
def Method.AcceptableFor (delivery : OutboundDeliveryRecord) : Method → Prop
  | .resolveOutboundDeliveryAsDelivered _ resolvedAtUnix => delivery.updatedAtUnix ≤ resolvedAtUnix
  | .resolveOutboundDeliveryAsFailed _ resolvedAtUnix reason =>
    delivery.updatedAtUnix ≤ resolvedAtUnix ∧ isBlank reason = false
  | _ => False

/-- A resolution that can be made succeeds. -/
theorem StateStore.call_resolution (self : StateStore) {id : OutboundDeliveryId} {method : Method}
    {state : RuntimeState} {delivery : OutboundDeliveryRecord} {io : Io} {disk : Disk}
    (hmethod : method.Resolves id) (hacceptable : method.AcceptableFor delivery) (hio : io.Faultless)
    (hstate : state.Valid) (hdisk : disk.visible = some state)
    (hdelivery : state.outboundDelivery id = some delivery) (huncertain : delivery.status = .uncertain) :
    ∃ reply written, written.Valid ∧
      self.call io (.method method) disk = .ok reply ⟨some written, some written⟩ := by
  have hvalid : disk.Valid := fun visible hvisible ↦
    Option.some.inj (hdisk.symm.trans hvisible) ▸ hstate
  have hloaded : io.loaded disk.visible = state := by
    rw [hdisk]
    rfl
  obtain ⟨hmem, rfl⟩ := find_key_eq_some hdelivery
  obtain ⟨before, after, hdeliveries⟩ := List.append_of_mem hmem
  have hrecord := hstate.deliveries delivery hmem
  obtain ⟨delivery', state', hwork⟩ : ∃ delivery' state',
      method.work io.now state = .ok (.delivery delivery', .write) state' := by
    cases hmethod with
    | delivered time =>
      obtain ⟨delivery', state', hresolve⟩ : ∃ delivery' state',
          RuntimeState.resolveOutboundDeliveryAsDelivered delivery.id time io.now state =
            .ok delivery' state' :=
        ⟨_, _, RuntimeState.updateOutboundDelivery_eq io.now hstate hdeliveries
          (OutboundDeliveryRecord.resolveUncertainAsDelivered_eq hrecord huncertain hacceptable)⟩
      refine ⟨delivery', state', replying_eq_ok.mpr ⟨delivery', ?_, rfl⟩⟩
      simp only [resolveOutboundDeliveryAsDelivered, estate_bind_eq_ok, estate_get_eq_ok,
        question_eq_ok, okOr_eq_ok]
      refine ⟨_, _, ⟨rfl, rfl⟩, delivery, _, ⟨hdelivery, rfl⟩, ?_⟩
      simp only [huncertain]
      exact (estate_ok_bind hresolve).trans rfl
    | failed time reason =>
      obtain ⟨delivery', state', hresolve⟩ : ∃ delivery' state',
          RuntimeState.resolveOutboundDeliveryAsFailed delivery.id time reason io.now state =
            .ok delivery' state' :=
        ⟨_, _, RuntimeState.updateOutboundDelivery_eq io.now hstate hdeliveries
          (OutboundDeliveryRecord.resolveUncertainAsFailed_eq hrecord huncertain hacceptable.1
            hacceptable.2)⟩
      refine ⟨delivery', state', replying_eq_ok.mpr ⟨delivery', ?_, rfl⟩⟩
      simp only [resolveOutboundDeliveryAsFailed, estate_bind_eq_ok, estate_get_eq_ok,
        question_eq_ok, okOr_eq_ok]
      refine ⟨_, _, ⟨rfl, rfl⟩, delivery, _, ⟨hdelivery, rfl⟩, ?_⟩
      simp only [huncertain]
      exact (estate_ok_bind hresolve).trans rfl
  have hwritten := (Method.change hstate hwork).1.valid hstate
  rw [← hloaded] at hwork
  exact ⟨_, state', hwritten, self.call_method_eq_ok hio hvalid hwork fun h ↦ by cases h⟩

/-- Replays of outcomes are exact. A call of the store that has failed or interrupted an agent run, or
has resolved a delivery, is recognised when it is made again, and only that call is; an interrupted
run can still be failed or cancelled in a snapshot; and of two different resolutions of an uncertain
delivery, which the write lock of the store puts in some order, the first succeeds and the second
fails. -/
theorem StateStore.outcome_replay_exact (self : StateStore) :
    (∀ id, self.ReplaysExactly (agentRunOutcomes id)) ∧
      (∀ id, self.ReplaysExactly (deliveryResolutions id)) ∧
      self.SettlesInterrupted RuntimeState.failRun .failed ∧
      self.SettlesInterrupted RuntimeState.cancelRun .cancelled ∧
      ∀ (id : OutboundDeliveryId) (first second : Method) (state : RuntimeState)
        (delivery : OutboundDeliveryRecord) (disk : Disk) (io io' : Io),
        state.validate = .ok () → disk.visible = some state →
        state.outboundDelivery id = some delivery → delivery.status = .uncertain →
        first.Resolves id → second.Resolves id → first ≠ second → first.AcceptableFor delivery →
        second.AcceptableFor delivery → io.Faultless → io'.Faultless →
          ∃ reply disk' err, self.call io (.method first) disk = .ok reply disk' ∧
            self.call io' (.method second) disk' = .error err disk' := by
  refine ⟨fun id ↦ (agentRunOutcomes_lawful id).replaysExactly self,
    fun id ↦ (deliveryResolutions_lawful id).replaysExactly self, ?_, ?_, ?_⟩
  · intro state id run time now hstate hrun hinterrupted htime
    obtain ⟨settled, hfail, hsettled, hsave⟩ := self.settle_interrupted .fail
      (RuntimeState.validate_eq_ok.mp hstate) hrun hinterrupted htime
    exact ⟨settled, hfail, ⟨_, hsettled, rfl, rfl⟩, hsave⟩
  · intro state id run time now hstate hrun hinterrupted htime
    obtain ⟨settled, hcancel, hsettled, hsave⟩ := self.settle_interrupted .cancel
      (RuntimeState.validate_eq_ok.mp hstate) hrun hinterrupted htime
    exact ⟨settled, hcancel, ⟨_, hsettled, rfl, rfl⟩, hsave⟩
  · intro id first second state delivery disk io io' hstate hdisk hdelivery huncertain hfirst hsecond
      hne hacceptable _ hio _
    rw [RuntimeState.validate_eq_ok] at hstate
    obtain ⟨reply, written, hwritten, hcall⟩ := self.call_resolution hfirst hacceptable hio hstate
      hdisk hdelivery huncertain
    have hvalid : ∀ visible ∈ disk.visible, visible.validate = .ok () := by
      rw [hdisk]
      rintro _ ⟨⟩
      exact RuntimeState.validate_eq_ok.mpr hstate
    have hreplays := (deliveryResolutions_lawful id).replaysExactly self first io disk hfirst hvalid
    rw [TakesEffect, hcall] at hreplays
    obtain ⟨record, hrecord, -, hlater⟩ := hreplays (.inl ⟨reply, rfl⟩)
    have hwritten' : ∀ visible ∈ (Disk.mk (some written) (some written)).visible,
        visible.validate = .ok () := by
      rintro _ ⟨⟩
      exact RuntimeState.validate_eq_ok.mpr hwritten
    obtain ⟨err, hrefused⟩ := (hlater _ hwritten' hrecord).2 second hsecond hne.symm io'
    exact ⟨reply, _, err, hcall, hrefused⟩

/-- The chat whose reply may have been delivered. -/
def uncertainState : RuntimeState :=
  { chatState with outboundDeliveries := [{ pendingReply with
      status := .uncertain
      deliveryAttempts := 1
      lastError := some "connection reset" }] }

/-- Of two resolutions of the reply the first counts. -/
theorem StateStore.outcome_replay_exact_uncertain : ∃ reply disk' err,
    (StateStore.mk "state.json").call .untroubled
        (.method (.resolveOutboundDeliveryAsDelivered pendingReply.id 1)) ⟨some uncertainState, none⟩ =
      .ok reply disk' ∧
    (StateStore.mk "state.json").call .untroubled
        (.method (.resolveOutboundDeliveryAsFailed pendingReply.id 2 "not received")) disk' =
      .error err disk' := by
  have hdelivery : uncertainState.outboundDelivery pendingReply.id = some { pendingReply with
      status := .uncertain
      deliveryAttempts := 1
      lastError := some "connection reset" } := rfl
  have hle : pendingReply.updatedAtUnix ≤ 1 := by decide
  exact (StateStore.mk "state.json").outcome_replay_exact.2.2.2.2 pendingReply.id _ _ uncertainState _
    ⟨some uncertainState, none⟩ .untroubled .untroubled rfl rfl hdelivery rfl (.delivered 1)
    (.failed 2 "not received") (fun h ↦ by cases h) hle ⟨by decide, rfl⟩
    Io.faultless_untroubled Io.faultless_untroubled

end FerrisBridge
