import FerrisBridge.State.Merge

/-!
# The merge order of runs

The snapshot merge keeps the later of two versions of a run by `isDescendantOf`, which looks at the
two records only. The order is compared here with the histories of a run: the sequences of its
transition methods.
-/

open Foundations

namespace FerrisBridge

namespace RunRecord

/-! ## Histories of one run -/

/-- A call of a transition method. -/
inductive Transition
  | start (startedAtUnix : U64)
  | interrupt (interruptedAtUnix : U64)
  | complete (finishedAtUnix : U64)
  | completeWithOutputDeliveries (finishedAtUnix : U64) (outputDeliveryIds : List OutboundDeliveryId)
  | fail (finishedAtUnix : U64)
  | cancel (finishedAtUnix : U64)

def Transition.apply : Transition → EStateM String RunRecord Unit
  | .start startedAtUnix => RunRecord.start startedAtUnix
  | .interrupt interruptedAtUnix => RunRecord.interrupt interruptedAtUnix
  | .complete finishedAtUnix => RunRecord.complete finishedAtUnix
  | .completeWithOutputDeliveries finishedAtUnix outputDeliveryIds =>
    RunRecord.completeWithOutputDeliveries finishedAtUnix outputDeliveryIds
  | .fail finishedAtUnix => RunRecord.fail finishedAtUnix
  | .cancel finishedAtUnix => RunRecord.cancel finishedAtUnix

/-- A transition method succeeds on the record. -/
def Becomes (run run' : RunRecord) : Prop := ∃ transition : Transition, transition.apply run = .ok () run'

/-- The record leads to the other one by no transition, by one, or by several. -/
def LeadsTo (run run' : RunRecord) : Prop := Relation.ReflTransGen Becomes run run'

variable {run run' : RunRecord}

theorem Becomes.descends (h : run.Becomes run') : run'.Descends run := by
  obtain ⟨transition, h⟩ := h
  cases transition with
  | start => exact (start_eq_ok h).1.descends
  | interrupt => exact (interrupt_eq_ok h).1.descends
  | complete => exact (complete_eq_ok h).1.descends
  | completeWithOutputDeliveries => exact (completeWithOutputDeliveries_eq_ok h).1.descends
  | fail => exact (fail_eq_ok h).1.descends
  | cancel => exact (cancel_eq_ok h).1.descends

/-- Whatever a non-empty sequence of transitions leads to descends from where it began. -/
theorem descends_of_transGen (h : Relation.TransGen Becomes run run') : run'.Descends run := by
  induction h with
  | single hstep => exact hstep.descends
  | tail _ hstep ih => exact hstep.descends.trans ih

theorem LeadsTo.evolves (h : run.LeadsTo run') : run.Evolves run' := by
  rcases Relation.reflTransGen_iff_eq_or_transGen.mp h with heq | hsteps
  · exact .inl heq
  · exact .inr (descends_of_transGen hsteps)

/-- A terminal record descends from no other one that is terminal. -/
theorem not_descends_of_terminal (hrun : run.isTerminal = true) : ¬run'.Descends run := by
  intro h
  rw [h.previous_active] at hrun
  cases hrun

end RunRecord

namespace RuntimeState

variable {existing candidate merged : RuntimeState} {run other : RunRecord}

/-! ## Merging two versions of a run -/

/-- A merge finds the version that `resolveVersion` chooses for a run of the existing state. -/
theorem run_of_preserveRunsFrom (hexisting : (existing.runs.map (·.id)).Nodup)
    (hcandidate : (candidate.runs.map (·.id)).Nodup)
    (h : preserveRunsFrom existing candidate = .ok merged) (hother : other ∈ existing.runs) :
    merged.run other.id =
      some (resolveVersion RunRecord.id RunRecord.isDescendantOf candidate.runs other) := by
  obtain ⟨-, rfl⟩ := (preserveRunsFrom_eq_ok hexisting hcandidate).mp h
  have hmerged : ((mergedRuns existing candidate).map (·.id)).Nodup := by
    have hkeys : (existing.runs.map (resolveVersion RunRecord.id RunRecord.isDescendantOf
        candidate.runs)).map RunRecord.id = existing.runs.map RunRecord.id := map_key_resolveVersion
    rw [mergedRuns, List.map_append, hkeys, ← List.map_append]
    exact nodup_append_missingFrom hexisting hcandidate
  have hmem : resolveVersion RunRecord.id RunRecord.isDescendantOf candidate.runs other ∈
      mergedRuns existing candidate :=
    List.mem_append_left _ (List.mem_map_of_mem hother)
  have hid : (resolveVersion RunRecord.id RunRecord.isDescendantOf candidate.runs other).id =
      other.id := key_resolveVersion other
  rw [← hid]
  exact find_key_of_mem hmerged hmem

/-- Of two versions of a run, the merge keeps the one that the other evolves to. -/
theorem run_of_preserveRunsFrom_of_evolves (hexisting : (existing.runs.map (·.id)).Nodup)
    (hcandidate : (candidate.runs.map (·.id)).Nodup)
    (h : preserveRunsFrom existing candidate = .ok merged) (hrun : run ∈ candidate.runs)
    (hother : existing.run run.id = some other) :
    (run.Evolves other → merged.run run.id = some other) ∧
      (other.Evolves run → merged.run run.id = some run) := by
  obtain ⟨hmem, hid⟩ := find_key_eq_some hother
  have hmerged := run_of_preserveRunsFrom hexisting hcandidate h hmem
  have hfind : candidate.runs.find? (·.id = other.id) = some run := by
    rw [hid]
    exact find_key_of_mem hcandidate hrun
  rw [hid] at hmerged
  simp only [resolveVersion, hfind] at hmerged
  rw [hmerged]
  constructor
  · rintro (rfl | hdescends)
    · simp
    · have hnot : ¬run.isDescendantOf other = true :=
        fun h ↦ hdescends.asymm (RunRecord.isDescendantOf_iff.mp h)
      rw [if_neg hnot]
  · rintro (rfl | hdescends)
    · simp
    · rw [if_pos (RunRecord.isDescendantOf_iff.mpr hdescends)]

/-- The order in which runs are merged is a strict partial order that contains every history of a
run. So the merge takes the later of two versions on one history, on whichever side it is, and
reports a conflict for two different outcomes. -/
theorem run_merge_order :
    (∀ run : RunRecord, run.validate = .ok () → run.isDescendantOf run = false) ∧
      (∀ run other : RunRecord, run.validate = .ok () → other.validate = .ok () →
        run.isDescendantOf other = true → other.isDescendantOf run = false) ∧
      (∀ first second third : RunRecord, first.validate = .ok () → second.validate = .ok () →
        third.validate = .ok () → second.isDescendantOf first = true →
          third.isDescendantOf second = true → third.isDescendantOf first = true) ∧
      (∀ run run' : RunRecord, run.validate = .ok () →
        Relation.TransGen RunRecord.Becomes run run' → run'.isDescendantOf run = true) ∧
      ∀ existing candidate : RuntimeState, existing.validate = .ok () →
        candidate.validate = .ok () →
          ((∀ run ∈ candidate.runs, ∀ other, existing.run run.id = some other →
              run.LeadsTo other ∨ other.LeadsTo run) →
            ∃ merged, preserveRunsFrom existing candidate = .ok merged) ∧
          (∀ merged, preserveRunsFrom existing candidate = .ok merged →
            ∀ run ∈ candidate.runs, ∀ other, existing.run run.id = some other →
              (run.LeadsTo other → merged.run run.id = some other) ∧
                (other.LeadsTo run → merged.run run.id = some run)) ∧
          ∀ run ∈ candidate.runs, ∀ other, existing.run run.id = some other →
            ∀ root : RunRecord, root.LeadsTo run → root.LeadsTo other → run.isTerminal = true →
              other.isTerminal = true → run ≠ other →
                ∃ err, preserveRunsFrom existing candidate = .error err := by
  refine ⟨fun run _ ↦ ?_, fun run other _ _ h ↦ ?_, fun first second third _ _ _ h h' ↦ ?_,
    fun run run' _ h ↦ ?_, fun existing candidate hexisting hcandidate ↦ ⟨fun hhistory ↦ ?_,
      fun merged h run hrun other hother ↦ ?_, ?_⟩⟩
  · rw [← Bool.not_eq_true, RunRecord.isDescendantOf_iff]
    exact RunRecord.Descends.irrefl
  · rw [← Bool.not_eq_true, RunRecord.isDescendantOf_iff]
    exact (RunRecord.isDescendantOf_iff.mp h).asymm
  · rw [RunRecord.isDescendantOf_iff] at h h' ⊢
    exact h'.trans h
  · exact RunRecord.isDescendantOf_iff.mpr (RunRecord.descends_of_transGen h)
  · have hcompatible : ∀ run ∈ candidate.runs, ∀ other, existing.run run.id = some other →
        other = run ∨ run.Descends other ∨ other.Descends run := by
      intro run hrun other hother
      rcases hhistory run hrun other hother with h | h
      · rcases h.evolves with heq | hdescends
        · exact .inl heq
        · exact .inr (.inr hdescends)
      · rcases h.evolves with heq | hdescends
        · exact .inl heq.symm
        · exact .inr (.inl hdescends)
    exact ⟨_, (preserveRunsFrom_eq_ok (validate_eq_ok.mp hexisting).run_ids
      (validate_eq_ok.mp hcandidate).run_ids).mpr ⟨hcompatible, rfl⟩⟩
  · have hmerged := run_of_preserveRunsFrom_of_evolves (validate_eq_ok.mp hexisting).run_ids
      (validate_eq_ok.mp hcandidate).run_ids h hrun hother
    exact ⟨fun hleads ↦ hmerged.1 hleads.evolves, fun hleads ↦ hmerged.2 hleads.evolves⟩
  · intro run hrun other hother root _ _ hterminal hterminal' hne
    cases hmerge : preserveRunsFrom existing candidate with
    | error err => exact ⟨err, rfl⟩
    | ok merged =>
      have hcompatible := ((preserveRunsFrom_eq_ok (validate_eq_ok.mp hexisting).run_ids
        (validate_eq_ok.mp hcandidate).run_ids).mp hmerge).1 run hrun other hother
      rcases hcompatible with heq | hdescends | hdescends
      · exact absurd heq.symm hne
      · exact absurd hdescends (RunRecord.not_descends_of_terminal hterminal')
      · exact absurd hdescends (RunRecord.not_descends_of_terminal hterminal)

def askedScope : SessionScope := ⟨"teams", "channel:ask", by decide, by decide⟩

def askedRun : RunRecord := .new ⟨"run_asked", by decide⟩ (.forScope askedScope) 1

def startedRun : RunRecord :=
  { askedRun with status := .running, updatedAtUnix := 2, startedAtUnix := some 2 }

def failedRun : RunRecord :=
  { startedRun with status := .failed, updatedAtUnix := 4, finishedAtUnix := some 4 }

def cancelledRun : RunRecord :=
  { startedRun with status := .cancelled, updatedAtUnix := 3, finishedAtUnix := some 3 }

/-- The channel with one version of the run. -/
def askedState (run : RunRecord) : RuntimeState :=
  { RuntimeState.new 9 with sessions := [.new askedScope 0], runs := [run] }

/-- A failure is later than the start; a failure and a cancellation are a conflict. -/
theorem run_merge_order_outcomes :
    failedRun.isDescendantOf askedRun = true ∧
      (∃ merged, preserveRunsFrom (askedState startedRun) (askedState failedRun) = .ok merged) ∧
      ∃ err, preserveRunsFrom (askedState failedRun) (askedState cancelledRun) = .error err := by
  have hstarted : askedRun.Becomes startedRun := ⟨.start 2, rfl⟩
  have hfailed : startedRun.Becomes failedRun := ⟨.fail 4, rfl⟩
  have hcancelled : startedRun.Becomes cancelledRun := ⟨.cancel 3, rfl⟩
  have hsame := (run_merge_order.2.2.2.2 (askedState startedRun) (askedState failedRun) rfl rfl).1
  have hdiverged :=
    (run_merge_order.2.2.2.2 (askedState failedRun) (askedState cancelledRun) rfl rfl).2.2
  refine ⟨run_merge_order.2.2.2.1 askedRun failedRun rfl (.tail (.single hstarted) hfailed),
    hsame fun run hrun other hother ↦ ?_,
    hdiverged cancelledRun List.mem_cons_self failedRun rfl startedRun (.single hcancelled)
      (.single hfailed) rfl rfl (by decide)⟩
  obtain rfl := List.mem_singleton.mp hrun
  obtain rfl : startedRun = other := Option.some.inj hother
  exact .inr (.single hfailed)

end RuntimeState

end FerrisBridge
