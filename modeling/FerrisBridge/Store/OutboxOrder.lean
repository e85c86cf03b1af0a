import FerrisBridge.Store.Completion
import FerrisBridge.Store.Deliveries

/-!
# Order of the outbox

The outbox is a list, and a claim takes the first delivery in it that is due. A delivery that has
never been attempted is due from the time at which it was enqueued, so that a first attempt passes
over an earlier such delivery only if that one was enqueued later. A completed run links its outputs
in the order in which they enter the outbox.
-/

open Foundations

namespace FerrisBridge

/-! ## Pending records -/

namespace OutboundDeliveryRecord

variable {before after record : OutboundDeliveryRecord}

/-- A record that is still pending is as it was enqueued. -/
theorem Evolves.eq_of_pending (h : before.Evolves after) (hafter : after.status = .pending) :
    after = before := by
  rcases Relation.ReflTransGen.cases_tail h with rfl | ⟨previous, -, hadvances⟩
  · rfl
  · have hstatus := hadvances.status
    rw [hafter] at hstatus
    cases hprevious : previous.status <;> simp [hprevious, OutboundDeliveryStatus.canBecome] at hstatus

/-- The pending records are those without an attempt. -/
theorem Valid.pending_iff (h : record.Valid) :
    record.status = .pending ↔ record.deliveryAttempts = 0 := by
  have hshape := h.shape
  unfold StatusShape at hshape
  cases hstatus : record.status <;> rw [hstatus] at hshape <;> simp [hshape.1]

end OutboundDeliveryRecord

/-! ## First attempts -/

/-- No method marks or resolves a pending delivery. -/
theorem Method.transition_ne_pending {method : Method} {id : OutboundDeliveryId}
    {target : OutboundDeliveryStatus} : method.transition ≠ some (id, .pending, target) := by
  cases method <;> simp [Method.transition]

theorem OutboundRetryPolicy.isDue_of_pending {policy : OutboundRetryPolicy}
    {delivery : OutboundDeliveryRecord} {time : U64} (h : delivery.status = .pending) :
    policy.isDue delivery time = decide (delivery.updatedAtUnix ≤ time) := by
  unfold isDue nextAttemptAtUnix
  rw [h]
  rfl

section Calls

variable {io : Io} {disk : Disk} {request : Request} {method : Method} {reply : Reply}
  {state : RuntimeState} {id first : OutboundDeliveryId}
  {before after earlier : OutboundDeliveryRecord}

/-- The ids of the deliveries, in the order of the outbox. -/
def Disk.outbox (disk : Disk) : List OutboundDeliveryId :=
  disk.visible.elim [] fun state ↦ state.outboundDeliveries.map (·.id)

theorem Disk.outbox_loaded (io : Io) :
    (io.loaded disk.visible).outboundDeliveries.map (·.id) = disk.outbox := by
  unfold Disk.outbox
  cases disk.visible <;> rfl

theorem Disk.Valid.outbox_nodup (h : disk.Valid) : disk.outbox.Nodup := by
  rw [← Disk.outbox_loaded .untroubled]
  exact (h.loaded _).delivery_ids

theorem Disk.mem_outbox : id ∈ disk.outbox ↔ (disk.delivery id).isSome := by
  rw [← Disk.outbox_loaded .untroubled, ← Disk.delivery_loaded .untroubled]
  exact find_key_isSome.symm

/-- The outbox only grows at its end. -/
theorem Disk.Evolves.outbox {disk' : Disk} (h : disk.Evolves disk') : disk.outbox <+: disk'.outbox := by
  unfold Disk.outbox
  cases hvisible : disk.visible with
  | none => exact List.nil_prefix
  | some state =>
    obtain ⟨state', hstate', hevolves⟩ := h state hvisible
    rw [Option.mem_def.mp hstate']
    exact hevolves.deliveries.map_key_prefix _ fun _ _ h ↦ h.id_eq.symm

/-- A call that begins the first attempt of a delivery claims it, and passes over the deliveries in
front of it that are not due. -/
theorem Computes.first_attempt (hdisk : disk.Valid) (hstate : state.Valid)
    (h : Computes io disk.visible request reply state)
    (hbefore : disk.delivery id = some before) (hpending : before.status = .pending)
    (hafter : state.outboundDelivery id = some after) (hattempted : after.status ≠ .pending)
    (hprecedes : Precedes disk.outbox first id)
    (hearlier : disk.delivery first = some earlier) (hwaiting : earlier.status = .pending) :
    before.updatedAtUnix < earlier.updatedAtUnix := by
  have hloaded := hdisk.loaded io
  have hstep := h.deliveryStep hdisk id
  rw [hbefore, hafter] at hstep
  cases hstep with
  | stays => exact absurd hpending hattempted
  | moved hrequest hadvances hmoves =>
    subst hrequest
    cases hmoves with
    | transition htransition =>
      rw [hpending] at htransition
      exact absurd htransition Method.transition_ne_pending
    | recovery hdelivering => cases hpending.symm.trans hdelivering
    | claim hdue hdelivering =>
      obtain ⟨commit, -, hreplying⟩ := h.work_eq_ok hdisk
      obtain ⟨_, hwork, -⟩ := replying_eq_ok.mp hreplying
      obtain ⟨_, hclaimed, -⟩ := StateStore.claimNextOutboundDeliveryAttempt_eq_ok hwork
      obtain ⟨-, rfl⟩ | ⟨front, previous, delivery, back, -, hdeliveries, rfl, hdue, hbegin, hfirst⟩ :=
        RuntimeState.claimNextOutboundDeliveryWhere_eq_ok hclaimed
      · rw [Disk.delivery_loaded, hbefore] at hafter
        obtain rfl := Option.some.inj hafter
        exact absurd hpending hattempted
      rw [← Disk.delivery_loaded io] at hbefore hearlier
      have hids := hloaded.delivery_ids
      obtain ⟨hmem, rfl⟩ := find_key_eq_some hbefore
      -- the claimed delivery is the one that is no longer pending
      have hclaimed : before = previous := by
        by_contra hne
        have hkept : before ∈ front ++ delivery :: back := by
          simp only [hdeliveries, List.mem_append, List.mem_cons, hne, false_or] at hmem ⊢
          exact hmem.imp_right .inr
        have hfound := find_key_of_mem hstate.delivery_ids hkept
        obtain rfl := Option.some.inj (hfound.symm.trans hafter)
        exact hattempted hpending
      subst hclaimed
      rw [← Disk.outbox_loaded io, hdeliveries, List.map_append, List.map_cons] at hprecedes
      rw [hdeliveries, List.map_append, List.map_cons] at hids
      obtain ⟨other, hother, rfl⟩ := List.mem_map.mp (hprecedes.mem_front hids)
      have hfound : (io.loaded disk.visible).outboundDelivery other.id = some other :=
        find_key_of_mem hloaded.delivery_ids (by simp [hdeliveries, hother])
      obtain rfl := Option.some.inj (hfound.symm.trans hearlier)
      rw [OutboundRetryPolicy.isDue_of_pending hpending, decide_eq_true_eq] at hdue
      have hearly := hfirst other hother hwaiting
      rw [OutboundRetryPolicy.isDue_of_pending hwaiting, decide_eq_false_iff_not, not_le] at hearly
      exact hdue.trans_lt hearly

end Calls

/-! ## Outputs of runs -/

namespace RuntimeState

variable {state state' : RuntimeState} {now time : U64}

/-- A run with outputs had them before, or it has been completed with the deliveries that are new,
which were all created at one time and not touched since. -/
def LinksOutputs (before after : RuntimeState) : Prop :=
  ∀ run ∈ after.runs, run.outputDeliveryIds = [] ∨
    (∃ previous ∈ before.runs, previous.id = run.id ∧
      previous.outputDeliveryIds = run.outputDeliveryIds) ∨
    ∃ added time, after.outboundDeliveries = before.outboundDeliveries ++ added ∧
      run.outputDeliveryIds = added.map (·.id) ∧
        ∀ delivery ∈ added, delivery.createdAtUnix = time ∧ delivery.updatedAtUnix = time

theorem linksOutputs_of_eq (h : state'.runs = state.runs) : LinksOutputs state state' :=
  fun run hrun ↦ .inr (.inl ⟨run, h ▸ hrun, rfl, rfl⟩)

theorem SnapshotChange.linksOutputs (h : SnapshotChange state state') :
    LinksOutputs state state' := by
  cases h with
  | refl => exact linksOutputs_of_eq rfl
  | upsertSession now hsession =>
    rcases state.upsertSession_sessions _ now with ⟨_, -, -, heq⟩ | ⟨-, heq⟩ <;> rw [heq] <;>
      exact linksOutputs_of_eq rfl
  | addRun hrun houtputs =>
    intro run' hrun'
    rcases List.mem_append.mp hrun' with hrun' | hrun'
    · exact .inr (.inl ⟨run', hrun', rfl, rfl⟩)
    · exact .inl (List.mem_singleton.mp hrun' ▸ houtputs)
  | stepRuns hsteps =>
    intro run' hrun'
    obtain ⟨run, hrun, hstep⟩ := exists_of_mem_right hsteps hrun'
    refine .inr (.inl ⟨run, hrun, hstep.evolves.id_eq.symm, ?_⟩)
    rcases hstep with rfl | ⟨-, houtputs⟩
    · rfl
    · exact houtputs.symm
  | @recordEvent event _ queued => cases queued <;> exact linksOutputs_of_eq rfl
  | enqueue => exact linksOutputs_of_eq rfl

theorem linksOutputs_of_updateOutboundDelivery {id : OutboundDeliveryId}
    {update : EStateM String OutboundDeliveryRecord Unit} {delivery : OutboundDeliveryRecord}
    (h : updateOutboundDelivery id now update state = .ok delivery state') :
    LinksOutputs state state' := by
  obtain ⟨_, _, _, -, rfl, -, -⟩ := updateOutboundDelivery_eq_ok h
  exact linksOutputs_of_eq rfl

/-- A completion links the deliveries of its messages, which are new. -/
theorem linksOutputs_of_complete {id : RunId} {sessionId : SessionId} {messages : List Message}
    {expected deliveries : List OutboundDeliveryRecord}
    (hexpected : StateStore.outputDeliveries id sessionId messages time = .ok expected)
    (h : completeRunWithOutputDeliveries id expected time now state = .ok deliveries state') :
    LinksOutputs state state' := by
  obtain ⟨-, -, before, run, run', after, hruns, -, -, rfl, -, -, -, houtputs, -⟩ :=
    completeRunWithOutputDeliveries_eq_ok h
  have hkept : ∀ other, other ∈ before ∨ other ∈ after → other ∈ state.runs := by
    simp only [hruns, List.mem_append, List.mem_cons]
    tauto
  intro other hother
  rcases List.mem_append.mp hother with hother | hother
  · exact .inr (.inl ⟨other, hkept other (.inl hother), rfl, rfl⟩)
  rcases List.mem_cons.mp hother with rfl | hother
  · refine .inr (.inr ⟨expected, time, rfl, houtputs, fun delivery hdelivery ↦ ?_⟩)
    obtain ⟨_, _, hnew⟩ := StateStore.exists_new_of_outputDeliveries hexpected hdelivery
    obtain ⟨-, -, -, -, hcreated, hupdated, -⟩ := OutboundDeliveryRecord.new_eq_ok hnew
    exact ⟨hcreated, hupdated⟩
  · exact .inr (.inl ⟨other, hkept other (.inr hother), rfl, rfl⟩)

end RuntimeState

namespace Method

open RuntimeState

variable {state state' : RuntimeState} {now : U64} {method : Method} {reply : Reply}
  {commit : Commit}

/-- What a method does to the outputs of the runs. -/
theorem linksOutputs (hstate : state.Valid) (h : method.work now state = .ok (reply, commit) state') :
    LinksOutputs state state' := by
  cases method with
  | load =>
    simp only [work, estate_bind_eq_ok, estate_get_eq_ok, estate_pure_eq_ok] at h
    obtain ⟨_, _, ⟨rfl, rfl⟩, -, rfl⟩ := h
    exact linksOutputs_of_eq rfl
  | persistInboundEvent =>
    obtain ⟨_, hwork, -⟩ := replying_eq_ok.mp h
    exact linksOutputs_of_eq (recordInboundEvent_runs (StateStore.persistInboundEvent_eq_ok hwork).1)
  | pollMessageQueue =>
    obtain ⟨_, hwork, -⟩ := replying_eq_ok.mp h
    simp only [StateStore.pollMessageQueue, estate_bind_eq_ok, estate_get_eq_ok,
      estate_pure_eq_ok] at hwork
    obtain ⟨_, _, ⟨rfl, rfl⟩, -, rfl⟩ := hwork
    exact linksOutputs_of_eq rfl
  | claimMessageBatch =>
    obtain ⟨_, hwork, -⟩ := replying_eq_ok.mp h
    rcases claimMessageBatch_eq_ok (StateStore.claimMessageBatch_eq_ok hwork).1 with
      ⟨_, -, rfl⟩ | ⟨run, _, -, rfl, -, -, -, -, -, rfl⟩
    · exact linksOutputs_of_eq rfl
    · intro run' hrun'
      rcases List.mem_append.mp hrun' with hrun' | hrun'
      · exact .inr (.inl ⟨run', hrun', rfl, rfl⟩)
      · exact .inl (by rw [List.mem_singleton.mp hrun']; rfl)
  | enqueueOutboundDelivery =>
    obtain ⟨_, hwork, -⟩ := replying_eq_ok.mp h
    exact linksOutputs_of_eq
      (enqueueOutboundDelivery_runs (StateStore.enqueueOutboundDelivery_eq_ok hwork).1)
  | claimNextOutboundDeliveryAttempt =>
    obtain ⟨_, hwork, -⟩ := replying_eq_ok.mp h
    obtain ⟨_, hclaimed, -⟩ := StateStore.claimNextOutboundDeliveryAttempt_eq_ok hwork
    obtain ⟨-, rfl⟩ | ⟨_, _, _, _, -, -, rfl, -, -⟩ :=
      claimNextOutboundDeliveryWhere_eq_ok hclaimed <;> exact linksOutputs_of_eq rfl
  | markOutboundDeliveryDelivered | markOutboundDeliveryFailed | markOutboundDeliveryUncertain =>
    obtain ⟨_, hwork, -⟩ := replying_eq_ok.mp h
    exact linksOutputs_of_updateOutboundDelivery (StateStore.writing_eq_ok hwork).1
  | resolveOutboundDeliveryAsDelivered =>
    obtain ⟨_, hwork, -⟩ := replying_eq_ok.mp h
    rcases StateStore.resolveOutboundDeliveryAsDelivered_eq_ok hwork with ⟨hresolve, -⟩ | ⟨rfl, -⟩
    · exact linksOutputs_of_updateOutboundDelivery hresolve
    · exact linksOutputs_of_eq rfl
  | resolveOutboundDeliveryAsFailed =>
    obtain ⟨_, hwork, -⟩ := replying_eq_ok.mp h
    rcases StateStore.resolveOutboundDeliveryAsFailed_eq_ok hwork with ⟨hresolve, -⟩ | ⟨rfl, -⟩
    · exact linksOutputs_of_updateOutboundDelivery hresolve
    · exact linksOutputs_of_eq rfl
  | reconcileRunsAtStartup =>
    obtain ⟨_, hwork, -⟩ := replying_eq_ok.mp h
    simp only [StateStore.reconcileRunsAtStartup, estate_bind_eq_ok, estate_pure_eq_ok] at hwork
    obtain ⟨_, _, hreconcile, -, rfl⟩ := hwork
    exact (SnapshotChange.of_reconcileRunsAtStartup hstate hreconcile).linksOutputs
  | reconcileOutboundDeliveriesAtStartup =>
    obtain ⟨_, hwork, -⟩ := replying_eq_ok.mp h
    simp only [StateStore.reconcileOutboundDeliveriesAtStartup,
      RuntimeState.reconcileOutboundDeliveriesAtStartup, estate_bind_eq_ok, estate_modify_eq_ok,
      estate_pure_eq_ok, zoom_eq_ok] at hwork
    obtain ⟨_, _, ⟨loop, _, ⟨deliveries, -, rfl⟩, _, _, rfl, -, rfl⟩, -, rfl⟩ := hwork
    obtain ⟨_, heq, -⟩ := touchLatest_eq loop.latestRecoveredAt
      { state with outboundDeliveries := deliveries }
    rw [heq]
    exact linksOutputs_of_eq rfl
  | startAgentRun =>
    obtain ⟨_, hwork, -⟩ := replying_eq_ok.mp h
    obtain ⟨-, -, _, -, -, -, hstart⟩ := StateStore.startAgentRun_eq_ok hwork
    exact (SnapshotChange.of_startRun hstate hstart).linksOutputs
  | completeAgentRun =>
    obtain ⟨_, hwork, -⟩ := replying_eq_ok.mp h
    obtain ⟨_, _, -, hexpected, ⟨-, hcomplete⟩ | ⟨-, rfl, -⟩⟩ :=
      StateStore.completeAgentRun_eq_ok hwork
    · exact linksOutputs_of_complete hexpected hcomplete
    · exact linksOutputs_of_eq rfl
  | failAgentRun =>
    obtain ⟨_, hwork, -⟩ := replying_eq_ok.mp h
    rcases StateStore.failAgentRun_eq_ok hwork with ⟨-, hfail, -⟩ | ⟨-, rfl, -⟩
    · exact (SnapshotChange.of_failRun hstate hfail).linksOutputs
    · exact linksOutputs_of_eq rfl
  | interruptAgentRun =>
    obtain ⟨_, hwork, -⟩ := replying_eq_ok.mp h
    rcases StateStore.interruptAgentRun_eq_ok hwork with ⟨-, hinterrupt, -⟩ | ⟨-, rfl, -⟩
    · exact (SnapshotChange.of_interruptRun hstate hinterrupt).linksOutputs
    · exact linksOutputs_of_eq rfl

end Method

/-- A saved snapshot gives no run outputs. -/
theorem Computes.linksOutputs {io : Io} {disk : Disk} {request : Request} {reply : Reply}
    {state : RuntimeState} (hdisk : disk.Valid)
    (h : Computes io disk.visible request reply state) :
    (io.loaded disk.visible).LinksOutputs state := by
  cases request with
  | method method =>
    obtain ⟨commit, -, hwork⟩ := h.work_eq_ok hdisk
    exact Method.linksOutputs (hdisk.loaded io) hwork
  | save snapshot valid =>
    obtain - | - | ⟨-, hmerge⟩ := h
    have hforges := StateStore.forgesNothing_of_merge hdisk valid hmerge
    intro run hrun
    have houtputs := hforges.outputs run hrun
    cases hfound : disk.visible.bind (·.run run.id) with
    | none =>
      rw [hfound] at houtputs
      exact .inl houtputs
    | some previous =>
      rw [hfound] at houtputs
      obtain ⟨existing, hvisible, hprevious⟩ := Option.bind_eq_some_iff.mp hfound
      obtain ⟨hmem, hid⟩ := find_key_eq_some hprevious
      rw [hvisible]
      exact .inr (.inl ⟨previous, hmem, hid, houtputs.symm⟩)

/-! ## Outputs in the outbox -/

/-- The outputs of a run, in order. -/
def Disk.outputs (disk : Disk) (id : RunId) : List OutboundDeliveryId :=
  ((disk.visible.bind (·.run id)).map (·.outputDeliveryIds)).getD []

/-- The outputs of a run were created at one time. -/
theorem Disk.Valid.createdAt_of_outputs {disk : Disk} (hdisk : disk.Valid) {runId : RunId}
    {id id' : OutboundDeliveryId} {record record' : OutboundDeliveryRecord}
    (hid : id ∈ disk.outputs runId) (hid' : id' ∈ disk.outputs runId)
    (hrecord : disk.delivery id = some record) (hrecord' : disk.delivery id' = some record') :
    record.createdAtUnix = record'.createdAtUnix := by
  cases hrun : disk.visible.bind (·.run runId) with
  | none =>
    rw [Disk.outputs, hrun] at hid
    exact absurd hid List.not_mem_nil
  | some run =>
    rw [Disk.outputs, hrun] at hid hid'
    obtain ⟨state, hstate, hfound⟩ := Option.bind_eq_some_iff.mp hrun
    have houtputs := (hdisk state hstate).outputs run (find_key_eq_some hfound).1
    rw [Disk.delivery, hstate, Option.bind_some] at hrecord hrecord'
    obtain ⟨delivery, hdelivery, -, -, hcreated⟩ := houtputs id hid
    obtain ⟨delivery', hdelivery', -, -, hcreated'⟩ := houtputs id' hid'
    obtain rfl := Option.some.inj (hrecord.symm.trans hdelivery)
    obtain rfl := Option.some.inj (hrecord'.symm.trans hdelivery')
    exact Option.some.inj (hcreated.trans hcreated'.symm)

/-- The outputs that a run has got since the start are new deliveries in the order of the outbox; as
long as they are pending, they were last updated when they were created. -/
def OutputsInOrder (start disk : Disk) : Prop :=
  ∀ id, start.outputs id = [] → (disk.outputs id).Sublist disk.outbox ∧
    ∀ deliveryId ∈ disk.outputs id, deliveryId ∉ start.outbox ∧
      ∀ record, disk.delivery deliveryId = some record → record.status = .pending →
        record.updatedAtUnix = record.createdAtUnix

namespace OutputsInOrder

variable {start disk : Disk} {io : Io} {request : Request} {reply : Reply} {state : RuntimeState}

theorem refl (disk : Disk) : OutputsInOrder disk disk := by
  intro id hid
  rw [hid]
  exact ⟨List.nil_sublist _, fun _ h ↦ absurd h List.not_mem_nil⟩

theorem of_computes (horder : OutputsInOrder start disk) (hstart : start.Evolves disk)
    (hdisk : disk.Valid) (hstate : state.Valid)
    (h : Computes io disk.visible request reply state) (durable : Option RuntimeState) :
    OutputsInOrder start ⟨some state, durable⟩ := by
  have hevolves : disk.Evolves ⟨some state, durable⟩ :=
    fun existing hexisting ↦ ⟨state, rfl, h.evolves hdisk existing hexisting⟩
  intro id hid
  obtain ⟨hsublist, hfresh⟩ := horder id hid
  have hnone : ∀ outputs : List OutboundDeliveryId, outputs = [] →
      outputs.Sublist (Disk.mk (some state) durable).outbox ∧
        ∀ deliveryId ∈ outputs, deliveryId ∉ start.outbox ∧ ∀ record,
          (Disk.mk (some state) durable).delivery deliveryId = some record →
            record.status = .pending → record.updatedAtUnix = record.createdAtUnix := by
    rintro _ rfl
    exact ⟨List.nil_sublist _, fun _ h ↦ absurd h List.not_mem_nil⟩
  cases hrun : state.run id with
  | none => exact hnone _ (by simp only [Disk.outputs, Option.bind_some, hrun]; rfl)
  | some run =>
    obtain ⟨hmem, rfl⟩ := find_key_eq_some hrun
    have houtputs : (Disk.mk (some state) durable).outputs run.id = run.outputDeliveryIds := by
      simp only [Disk.outputs, Option.bind_some, hrun, Option.map_some, Option.getD_some]
    rcases h.linksOutputs hdisk run hmem with hnil | ⟨previous, hprevious, hpid, hkept⟩ |
      ⟨added, time, hadded, hlinked, hnew⟩
    · exact hnone _ (houtputs.trans hnil)
    · have hbefore : disk.outputs run.id = run.outputDeliveryIds := by
        have hfound := find_key_of_mem (hdisk.loaded io).run_ids hprevious
        rw [hpid] at hfound
        have hvisible := Io.visible_of_run hfound
        rw [Disk.outputs, hvisible, Option.bind_some]
        exact (congrArg (fun run ↦ (run.map RunRecord.outputDeliveryIds).getD []) hfound).trans hkept
      rw [houtputs, ← hbefore]
      refine ⟨hsublist.trans hevolves.outbox.sublist, fun deliveryId hdelivery ↦
        ⟨(hfresh deliveryId hdelivery).1, fun record hrecord hpending ↦ ?_⟩⟩
      obtain ⟨earlier, hearlier⟩ :=
        Option.isSome_iff_exists.mp (Disk.mem_outbox.mp (hsublist.subset hdelivery))
      obtain ⟨_, hlater, hrecords⟩ := hevolves.delivery hearlier
      obtain rfl := Option.some.inj (hrecord.symm.trans hlater)
      obtain rfl := hrecords.eq_of_pending hpending
      exact (hfresh deliveryId hdelivery).2 _ hearlier hpending
    · have houtbox : (Disk.mk (some state) durable).outbox = disk.outbox ++ added.map (·.id) := by
        change state.outboundDeliveries.map _ = _
        rw [hadded, List.map_append, Disk.outbox_loaded]
      have hids : (disk.outbox ++ added.map (·.id)).Nodup := houtbox ▸ hstate.delivery_ids
      rw [houtputs, hlinked, houtbox]
      refine ⟨List.sublist_append_right _ _, fun deliveryId hdelivery ↦
        ⟨fun hold ↦ ?_, fun record hrecord _ ↦ ?_⟩⟩
      · exact (List.disjoint_of_nodup_append hids) (hstart.outbox.subset hold) hdelivery
      · obtain ⟨delivery, hmem, rfl⟩ := List.mem_map.mp hdelivery
        have hfound : state.outboundDelivery delivery.id = some delivery :=
          find_key_of_mem hstate.delivery_ids (by rw [hadded]; exact List.mem_append_right _ hmem)
        obtain rfl := Option.some.inj (hfound.symm.trans hrecord)
        rw [(hnew delivery hmem).1, (hnew delivery hmem).2]

/-- Every call of the store keeps the outputs in order. -/
theorem step (horder : OutputsInOrder start disk) (hstart : start.Evolves disk) (hdisk : disk.Valid)
    (self : StateStore) (call : Call) : OutputsInOrder start (self.step call disk).2 := by
  have heffect := self.call_effect call.io call.request disk
  change OutputsInOrder start (finalState (self.call call.io call.request disk))
  generalize self.call call.io call.request disk = result at heffect ⊢
  rcases heffect.visible with hvisible | ⟨_, state, hcomputes, hstate, hvisible⟩
  · intro id hid
    have hkept := horder id hid
    unfold Disk.outputs Disk.outbox Disk.delivery at hkept ⊢
    rwa [hvisible]
  · have hwritten := horder.of_computes hstart hdisk hstate hcomputes (finalState result).durable
    rwa [← hvisible] at hwritten

end OutputsInOrder

end FerrisBridge
