import FerrisBridge.Store.History

/-!
# Saving snapshots

What a save does with the state that the file holds and an arbitrary valid snapshot, which may be
stale, newer or divergent. Either it fails and leaves the file, or it replaces the content by the
merge of the two: no durable work is lost or reordered, no privileged transition is forged, and the
merge is valid up to the two conditions that the merge steps leave open.
-/

open Foundations

namespace FerrisBridge

namespace RuntimeState

/-- What the records that two states share must satisfy to be merged. -/
structure Compatible (existing candidate : RuntimeState) : Prop where
  events : ∀ id event candidateEvent, existing.inboundEvent id = some event →
    candidate.inboundEvent id = some candidateEvent → candidateEvent = event
  messages : ∀ id, (existing.inboundEvent id).isSome → (candidate.inboundEvent id).isSome →
    (existing.messageRecordForEvent id).map (·.identity) =
      (candidate.messageRecordForEvent id).map (·.identity)
  inputs : ∀ id input candidateInput, existing.runInput id = some input →
    candidate.runInput id = some candidateInput → candidateInput = input
  deliveries : ∀ id delivery candidateDelivery, existing.outboundDelivery id = some delivery →
    candidate.outboundDelivery id = some candidateDelivery → candidateDelivery = delivery
  runs : ∀ id run candidateRun, existing.run id = some run → candidate.run id = some candidateRun →
    candidateRun = run ∨ candidateRun.isDescendantOf run = true ∨
      run.isDescendantOf candidateRun = true

/-- The written state keeps the existing records in place, up to newer versions of runs, and the
records that only the candidate has follow in their order. -/
structure ExtendsBy (existing candidate written : RuntimeState) : Prop where
  events : written.inboundEvents = existing.inboundEvents ++
    candidate.inboundEvents.filter (·.id ∉ existing.inboundEvents.map (·.id))
  deliveries : written.outboundDeliveries = existing.outboundDeliveries ++
    candidate.outboundDeliveries.filter (·.id ∉ existing.outboundDeliveries.map (·.id))
  inputs : written.runInputs = existing.runInputs
  runs : ∃ kept, written.runs = kept ++
      candidate.runs.filter (·.id ∉ existing.runs.map (·.id)) ∧
    List.Forall₂ (fun run run' ↦ run' = run ∨ run'.isDescendantOf run = true) existing.runs kept
  queued : ∃ added, written.queuedMessages = existing.queuedMessages ++ added ∧
    List.Forall₂ (fun queued queued' ↦ queued.enqueuedAtUnix ≤ queued'.enqueuedAtUnix ∧
        queued' = { queued with enqueuedAtUnix := queued'.enqueuedAtUnix })
      (candidate.queuedMessages.filter
        (·.eventId ∉ (existing.claimedMessages ++ existing.queuedMessages).map (·.eventId))) added

variable {existing candidate : RuntimeState}

theorem Mergeable.compatible (h : Mergeable existing candidate) : Compatible existing candidate where
  events id event candidateEvent hevent hcandidate := by
    obtain ⟨hmem, rfl⟩ := find_key_eq_some hcandidate
    exact (h.events candidateEvent hmem event hevent).1.symm
  messages id hevent hcandidate := by
    obtain ⟨event, hevent⟩ := Option.isSome_iff_exists.mp hevent
    obtain ⟨candidateEvent, hcandidate⟩ := Option.isSome_iff_exists.mp hcandidate
    obtain ⟨hmem, rfl⟩ := find_key_eq_some hcandidate
    exact (h.events candidateEvent hmem event hevent).2
  inputs id input candidateInput hinput hcandidate := by
    obtain ⟨hmem, rfl⟩ := find_key_eq_some hcandidate
    exact Option.some.inj ((h.inputs candidateInput hmem).symm.trans hinput)
  deliveries id delivery candidateDelivery hdelivery hcandidate := by
    obtain ⟨hmem, rfl⟩ := find_key_eq_some hcandidate
    exact (h.deliveries candidateDelivery hmem delivery hdelivery).symm
  runs id run candidateRun hrun hcandidate := by
    obtain ⟨hmem, rfl⟩ := find_key_eq_some hcandidate
    simp only [RunRecord.isDescendantOf_iff]
    exact (h.runs candidateRun hmem run hrun).imp_left Eq.symm

theorem extendsBy_merged : ExtendsBy existing candidate (merged existing candidate) where
  events := rfl
  deliveries := rfl
  inputs := rfl
  runs := by
    refine ⟨_, rfl, List.forall₂_map_right_iff.mpr (List.forall₂_same.mpr fun run _ ↦ ?_)⟩
    exact (evolves_resolveVersion run candidate.runs).imp_right RunRecord.isDescendantOf_iff.mpr
  queued := by
    refine ⟨_, rfl, forall₂_rebaseAll.imp fun queued queued' hlater ↦ ⟨hlater.2, ?_⟩⟩
    have hidentity := hlater.1
    simp only [QueuedMessage.identity, Prod.mk.injEq] at hidentity
    obtain ⟨heventId, hsession, hmessage, hreceived⟩ := hidentity
    cases queued'
    cases queued
    simp_all

end RuntimeState

/-! ## A chat and one reply -/

def chat : SessionScope := ⟨"lark", "chat:oc_123", by decide, by decide⟩

/-- The chat without any work. -/
def chatState : RuntimeState := { RuntimeState.new 0 with sessions := [.new chat 0] }

/-- A reply that waits for its first attempt. -/
def pendingReply : OutboundDeliveryRecord where
  id := ⟨"out_1", by decide⟩
  sessionId := .forScope chat
  message :=
    { id := ⟨"msg_out_1", by decide⟩
      sessionId := some (.forScope chat)
      author := .agent
      content := .text "reply" (by decide)
      createdAtUnix := 0 }
  status := .pending
  createdAtUnix := 0
  updatedAtUnix := 0
  deliveryAttempts := 0
  deliveredAtUnix := none
  lastError := none

/-- The chat with the reply. -/
def replyState : RuntimeState := { chatState with outboundDeliveries := [pendingReply] }

/-! ## What a save does -/

namespace StateStore

open RuntimeState

variable {self : StateStore} {io : Io} {disk : Disk} {candidate : RuntimeState}

/-- A save fails and leaves the file, or replaces the content by the merge. -/
theorem save_cases (self : StateStore) (io : Io) (candidate : RuntimeState) (disk : Disk) :
    (∃ err, self.save io candidate disk = .error err disk) ∨
      ∃ written, candidate.mergeSnapshot disk.visible = .ok written ∧ written.Valid ∧
        disk.Valid ∧ (self.save io candidate disk = .ok () ⟨some written, some written⟩ ∨
          ∃ err, self.save io candidate disk =
            .error err { disk with visible := some written }) := by
  rcases self.saveUnlocked_cases io candidate disk with hfailed | ⟨written, hmerge, hdisk, hsave⟩
  · exact .inl hfailed
  · rw [save, hsave]
    rcases self.writeUnlocked_cases io written disk with hfailed | ⟨hwritten, hwrite⟩
    · exact .inl hfailed
    · exact .inr ⟨written, hmerge, hwritten, hdisk, hwrite⟩

/-- Saving a snapshot never loses or reorders durable work: a save that replaces the content of the
file keeps every record of it, and snapshots that contradict it are refused. -/
theorem save_keeps_durable_work (self : StateStore) (io : Io) (existing candidate : RuntimeState)
    (durable : Option RuntimeState) (hexisting : existing.validate = .ok ())
    (hcandidate : candidate.validate = .ok ()) :
    ((∃ err, self.save io candidate ⟨some existing, durable⟩ =
          .error err ⟨some existing, durable⟩) ∨
        ∃ written, ExtendsBy existing candidate written ∧ Compatible existing candidate ∧
          (self.save io candidate ⟨some existing, durable⟩ =
              .ok () ⟨some written, some written⟩ ∨
            ∃ err, self.save io candidate ⟨some existing, durable⟩ =
              .error err ⟨some written, durable⟩)) ∧
      (¬Compatible existing candidate → ∃ err, self.save io candidate ⟨some existing, durable⟩ =
        .error err ⟨some existing, durable⟩) := by
  rcases self.save_cases io candidate ⟨some existing, durable⟩ with
    hfailed | ⟨written, hmerge, -, -, hsave⟩
  · exact ⟨.inl hfailed, fun _ ↦ hfailed⟩
  · obtain ⟨hmergeable, rfl⟩ :=
      (mergeSnapshot_eq_ok (validate_eq_ok.mp hexisting) (validate_eq_ok.mp hcandidate)).mp hmerge
    exact ⟨.inr ⟨_, extendsBy_merged, hmergeable.compatible, hsave⟩,
      fun h ↦ absurd hmergeable.compatible h⟩

/-- A snapshot from before the reply does not take the reply away. -/
theorem save_keeps_durable_work_stale : ∃ written, ExtendsBy replyState chatState written ∧
    (StateStore.mk "state.json").save .untroubled chatState ⟨some replyState, none⟩ =
      .ok () ⟨some written, some written⟩ := by
  rcases (save_keeps_durable_work ⟨"state.json"⟩ .untroubled replyState chatState none rfl rfl).1 with
    ⟨_, h⟩ | ⟨written, hextends, -, h | ⟨_, h⟩⟩
  · cases h
  · exact ⟨written, hextends, h⟩
  · cases h

/-- The merge steps leave exactly two conditions open for the merged state to be valid. -/
theorem merged_valid_iff (existing candidate written : RuntimeState)
    (hexisting : existing.validate = .ok ()) (hcandidate : candidate.validate = .ok ())
    (hmerge : candidate.mergeSnapshot (some existing) = .ok written) :
    (written.validate = .ok () ↔
      (∀ id ∈ existing.referencedSessions, id ∈ candidate.sessions.map (·.id)) ∧
        AtMostOneActive written.runs) ∧
      written.Coherent := by
  obtain ⟨hmergeable, rfl⟩ :=
    (mergeSnapshot_eq_ok (validate_eq_ok.mp hexisting) (validate_eq_ok.mp hcandidate)).mp hmerge
  rw [validate_eq_ok] at hexisting hcandidate ⊢
  exact ⟨hmergeable.valid_iff hexisting hcandidate, hmergeable.coherent hexisting hcandidate⟩

theorem merged_valid_iff_stale : (∀ id ∈ replyState.referencedSessions,
    id ∈ chatState.sessions.map (·.id)) ∧ AtMostOneActive replyState.runs :=
  (merged_valid_iff replyState chatState replyState rfl rfl rfl).1.mp rfl

/-- No snapshot can claim messages, hand a durable agent run over or complete it, link outputs to a
run, or advance a delivery. -/
structure ForgesNothing (existing : Option RuntimeState) (written : RuntimeState) : Prop where
  inputs : written.runInputs = (existing.map (·.runInputs)).getD []
  runs : ∀ state ∈ existing, ∀ run ∈ state.runs, (state.runInput run.id).isSome →
    ∃ run', written.run run.id = some run' ∧ (run' = run ∨
      run'.isDescendantOf run = true ∧
        (run'.status = .interrupted ∨ run'.status = .failed ∨ run'.status = .cancelled))
  outputs : ∀ run ∈ written.runs, run.outputDeliveryIds =
    ((existing.bind (·.run run.id)).map (·.outputDeliveryIds)).getD []
  deliveries : ∀ delivery ∈ written.outboundDeliveries,
    existing.bind (·.outboundDelivery delivery.id) = some delivery ∨
      existing.bind (·.outboundDelivery delivery.id) = none ∧ delivery.status = .pending

theorem forgesNothing_none (h : candidate.mergeSnapshot none = .ok candidate) :
    ForgesNothing none candidate := by
  obtain ⟨⟨hdeliveries, hinputs, houtputs⟩, -⟩ := mergeSnapshot_none_eq_ok.mp h
  exact ⟨hinputs, nofun, houtputs, fun delivery hdelivery ↦ .inr ⟨rfl, hdeliveries delivery hdelivery⟩⟩

theorem forgesNothing_merged {existing : RuntimeState} (h : Mergeable existing candidate)
    (hexisting : existing.Valid) (hcandidate : candidate.Valid) :
    ForgesNothing (some existing) (merged existing candidate) where
  inputs := rfl
  runs state hstate run hrun hinput := by
    obtain rfl := Option.some.inj hstate
    have hfound : existing.run run.id = some run := find_key_of_mem hexisting.run_ids hrun
    obtain ⟨run', hrun', hevolves⟩ := (h.evolves hexisting hcandidate).run hfound
    refine ⟨run', hrun', hevolves.imp_right fun hdescends ↦
      ⟨RunRecord.isDescendantOf_iff.mpr hdescends, ?_⟩⟩
    obtain ⟨hmem, hid⟩ := find_key_eq_some hrun'
    have hnew : run' ∈ candidate.runs := by
      rcases mem_mergedRuns hmem with ⟨previous, hprevious, hprevious', rfl | hrun'⟩ | ⟨hrun', -⟩
      · obtain rfl := eq_of_key_eq hexisting.run_ids hprevious hrun hid
        exact absurd hdescends RunRecord.Descends.irrefl
      · exact hrun'
      · exact hrun'
    rw [← hid] at hfound hinput
    rcases h.handoffs run' hnew run hfound hinput with rfl | hback | ⟨hrunning, hcompleted⟩
    · exact absurd hdescends RunRecord.Descends.irrefl
    · exact absurd hback hdescends.asymm
    · have hpending := hdescends.not_pending
      cases hstatus : run'.status <;> simp_all
  outputs run hrun := by
    rcases List.mem_append.mp hrun with hrun | hrun
    · obtain ⟨previous, hprevious, rfl⟩ := List.mem_map.mp hrun
      have hid := (evolves_resolveVersion previous candidate.runs).id_eq
      have hfound : existing.run previous.id = some previous :=
        find_key_of_mem hexisting.run_ids hprevious
      rw [h.outputs_eq hexisting hprevious, Option.bind_some, hid, hfound]
      rfl
    · have hnew := (mem_missingFrom.mp hrun).2
      have hfound : existing.run run.id = none := find_key_eq_none_iff_notMem.mpr hnew
      rw [h.outputs_eq_nil hrun, Option.bind_some, hfound]
      rfl
  deliveries delivery hdelivery := by
    rcases List.mem_append.mp hdelivery with hdelivery | hdelivery
    · exact .inl (find_key_of_mem hexisting.delivery_ids hdelivery)
    · obtain ⟨hmem, hnew⟩ := mem_missingFrom.mp hdelivery
      have hfound := find_key_eq_none_iff_notMem.mpr hnew
      exact .inr ⟨hfound, h.additions delivery hmem hfound⟩

/-- Whatever a snapshot merges into, nothing is forged. -/
theorem forgesNothing_of_merge {written : RuntimeState} (hdisk : disk.Valid)
    (hcandidate : candidate.validate = .ok ())
    (hmerge : candidate.mergeSnapshot disk.visible = .ok written) :
    ForgesNothing disk.visible written := by
  cases hvisible : disk.visible with
  | none =>
    rw [hvisible] at hmerge
    obtain ⟨-, rfl⟩ := mergeSnapshot_none_eq_ok.mp hmerge
    exact forgesNothing_none hmerge
  | some existing =>
    rw [hvisible] at hmerge
    obtain ⟨hmergeable, rfl⟩ :=
      (mergeSnapshot_eq_ok (hdisk existing hvisible) (validate_eq_ok.mp hcandidate)).mp hmerge
    exact forgesNothing_merged hmergeable (hdisk existing hvisible) (validate_eq_ok.mp hcandidate)

/-- A public snapshot save cannot forge a privileged transition. -/
theorem save_forges_nothing (self : StateStore) (io : Io) (candidate : RuntimeState) (disk : Disk)
    (hexisting : ∀ existing ∈ disk.visible, existing.validate = .ok ())
    (hcandidate : candidate.validate = .ok ()) :
    (∃ err, self.save io candidate disk = .error err disk) ∨
      ∃ written, ForgesNothing disk.visible written ∧
        (self.save io candidate disk = .ok () ⟨some written, some written⟩ ∨
          ∃ err, self.save io candidate disk = .error err { disk with visible := some written }) := by
  rcases self.save_cases io candidate disk with hfailed | ⟨written, hmerge, -, -, hsave⟩
  · exact .inl hfailed
  · have hdisk : disk.Valid := fun existing h ↦ validate_eq_ok.mp (hexisting existing h)
    exact .inr ⟨written, forgesNothing_of_merge hdisk hcandidate hmerge, hsave⟩

theorem save_forges_nothing_reply : ∃ written, ForgesNothing (some chatState) written ∧
    (StateStore.mk "state.json").save .untroubled replyState ⟨some chatState, none⟩ =
      .ok () ⟨some written, some written⟩ := by
  have hexisting : ∀ existing ∈ some chatState, existing.validate = .ok () := by
    rintro _ ⟨⟩
    rfl
  rcases save_forges_nothing ⟨"state.json"⟩ .untroubled replyState ⟨some chatState, none⟩ hexisting
    rfl with ⟨_, h⟩ | ⟨written, hforges, h | ⟨_, h⟩⟩
  · cases h
  · exact ⟨written, hforges, h⟩
  · cases h

end StateStore

end FerrisBridge
