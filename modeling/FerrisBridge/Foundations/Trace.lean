import Mathlib

/-!
# Runs of a machine

A machine takes one input at a time; everything that is not decided by its state, such as the
scheduling or the answers of its environment, is part of the input. The trace of a run keeps every
step with the states before and after it.

The rules reduce statements about whole runs to single steps: `trace_invariant` for a property of
states, `trace_pairwise` for a preorder between any two moments of a run, and `exists_cause` for the
step that has brought something about. Steps may be restricted by a condition `Allowed` that a
statement assumes of every step of the run.
-/

namespace Foundations

variable {σ ι ο : Type}

/-- One step of a run. -/
structure Entry (σ ι ο : Type) where
  before : σ
  input : ι
  output : ο
  after : σ

section Runs

variable (step : ι → σ → ο × σ)

/-- The step that a machine takes on an input. -/
def stepEntry (s : σ) (i : ι) : Entry σ ι ο := ⟨s, i, (step i s).1, (step i s).2⟩

/-- The steps of a run. -/
def trace : σ → List ι → List (Entry σ ι ο)
  | _, [] => []
  | s, i :: rest => stepEntry step s i :: trace (step i s).2 rest

/-- The state that a run ends in. -/
def finalOf : σ → List ι → σ
  | s, [] => s
  | s, i :: rest => finalOf (step i s).2 rest

end Runs

variable {step : ι → σ → ο × σ} {s : σ} {inputs more : List ι} {e : Entry σ ι ο}

theorem finalOf_append : finalOf step s (inputs ++ more) = finalOf step (finalOf step s inputs) more := by
  induction inputs generalizing s with
  | nil => rfl
  | cons i rest ih => exact ih

theorem trace_append :
    trace step s (inputs ++ more) = trace step s inputs ++ trace step (finalOf step s inputs) more := by
  induction inputs generalizing s with
  | nil => rfl
  | cons i rest ih => exact congrArg _ ih

/-- Every step of a trace is one of the machine. -/
theorem eq_stepEntry_of_mem (h : e ∈ trace step s inputs) : e = stepEntry step e.before e.input := by
  induction inputs generalizing s with
  | nil => cases h
  | cons i rest ih =>
    rcases List.mem_cons.mp h with rfl | h
    · rfl
    · exact ih h

theorem exists_eq_stepEntry (h : e ∈ trace step s inputs) : ∃ before input, e = stepEntry step before input :=
  ⟨e.before, e.input, eq_stepEntry_of_mem h⟩

/-- A step of a trace splits the run. -/
theorem exists_of_mem_trace (h : e ∈ trace step s inputs) :
    ∃ earlier later, inputs = earlier ++ e.input :: later ∧ finalOf step s earlier = e.before := by
  induction inputs generalizing s with
  | nil => cases h
  | cons i rest ih =>
    rcases List.mem_cons.mp h with rfl | h
    · exact ⟨[], rest, rfl, rfl⟩
    · obtain ⟨earlier, later, rfl, hbefore⟩ := ih h
      exact ⟨i :: earlier, later, rfl, hbefore⟩

theorem input_mem (h : e ∈ trace step s inputs) : e.input ∈ inputs := by
  obtain ⟨earlier, later, rfl, -⟩ := exists_of_mem_trace h
  exact List.mem_append_right _ List.mem_cons_self

/-- A trace splits where its inputs do. -/
theorem trace_eq_append {front back : List (Entry σ ι ο)} (h : trace step s inputs = front ++ back) :
    ∃ earlier later, inputs = earlier ++ later ∧ front = trace step s earlier ∧
      back = trace step (finalOf step s earlier) later := by
  induction front generalizing s inputs with
  | nil => exact ⟨[], inputs, rfl, rfl, h.symm⟩
  | cons e front ih =>
    cases inputs with
    | nil => cases h
    | cons i rest =>
      obtain ⟨rfl, hrest⟩ := List.cons.inj h
      obtain ⟨earlier, later, rfl, hfront, hback⟩ := ih hrest
      exact ⟨i :: earlier, later, rfl, congrArg _ hfront, hback⟩

/-- What lies between two steps of a trace is a run from the state after the first one to the state
before the second one. -/
theorem trace_between {front middle back : List (Entry σ ι ο)} {later : Entry σ ι ο}
    (h : trace step s inputs = front ++ e :: (middle ++ later :: back)) :
    ∃ between, middle = trace step e.after between ∧ finalOf step e.after between = later.before := by
  obtain ⟨_, inputs', -, -, hfirst⟩ := trace_eq_append h
  cases inputs' with
  | nil => cases hfirst
  | cons i rest =>
    obtain ⟨rfl, hrest⟩ := List.cons.inj hfirst
    obtain ⟨between, inputs'', -, hmiddle, hsecond⟩ := trace_eq_append hrest.symm
    cases inputs'' with
    | nil => cases hsecond
    | cons i' rest' =>
      obtain ⟨rfl, -⟩ := List.cons.inj hsecond
      exact ⟨between, hmiddle, rfl⟩

/-- A run with a step ends in the state after one of its steps. -/
theorem exists_after_eq_finalOf (step : ι → σ → ο × σ) (s : σ)
    {inputs : List ι} (h : inputs ≠ []) :
    ∃ e ∈ trace step s inputs, e.after = finalOf step s inputs := by
  induction inputs generalizing s with
  | nil => exact absurd rfl h
  | cons i rest ih =>
    cases rest with
    | nil => exact ⟨stepEntry step s i, List.mem_singleton_self _, rfl⟩
    | cons i' rest =>
      obtain ⟨e, he, hafter⟩ := ih (step i s).2 (List.cons_ne_nil _ _)
      exact ⟨e, List.mem_cons_of_mem _ he, hafter⟩

/-- What holds at the end of a run and not at its start has come about in a step. -/
theorem exists_cause (step : ι → σ → ο × σ) (s : σ) (P : σ → Prop) (hinit : ¬P s) (h : P (finalOf step s inputs)) :
    ∃ e ∈ trace step s inputs, ¬P e.before ∧ P e.after := by
  induction inputs generalizing s with
  | nil => exact absurd h hinit
  | cons i rest ih =>
    by_cases hnext : P (step i s).2
    · exact ⟨stepEntry step s i, List.mem_cons_self, hinit, hnext⟩
    · obtain ⟨e, he, hcause⟩ := ih (step i s).2 hnext h
      exact ⟨e, List.mem_cons_of_mem _ he, hcause⟩

/-- What every allowed step preserves holds throughout a run of allowed steps. -/
theorem trace_invariant (Inv : σ → Prop) (Allowed : Entry σ ι ο → Prop) (hinit : Inv s)
    (hstep : ∀ s i, Inv s → Allowed (stepEntry step s i) → Inv (step i s).2)
    (hallowed : ∀ e ∈ trace step s inputs, Allowed e) :
    (∀ e ∈ trace step s inputs, Inv e.before ∧ Inv e.after) ∧ Inv (finalOf step s inputs) := by
  induction inputs generalizing s with
  | nil => exact ⟨nofun, hinit⟩
  | cons i rest ih =>
    obtain ⟨hfirst, hrest⟩ := List.forall_mem_cons.mp hallowed
    have hafter := hstep s i hinit hfirst
    obtain ⟨htrace, hfinal⟩ := ih hafter hrest
    exact ⟨List.forall_mem_cons.mpr ⟨⟨hinit, hafter⟩, htrace⟩, hfinal⟩

/-- A preorder that every allowed step extends relates the start of a run to all of it, and every
moment of a run to its end. -/
theorem trace_extends (Inv : σ → Prop) (R : σ → σ → Prop) (Allowed : Entry σ ι ο → Prop)
    (hinit : Inv s) (hrefl : ∀ s, R s s) (htrans : ∀ a b c, R a b → R b c → R a c)
    (hstep : ∀ s i, Inv s → Allowed (stepEntry step s i) → Inv (step i s).2 ∧ R s (step i s).2)
    (hallowed : ∀ e ∈ trace step s inputs, Allowed e) :
    R s (finalOf step s inputs) ∧
      ∀ e ∈ trace step s inputs, R s e.before ∧ R e.after (finalOf step s inputs) := by
  induction inputs generalizing s with
  | nil => exact ⟨hrefl s, nofun⟩
  | cons i rest ih =>
    obtain ⟨hfirst, hrest⟩ := List.forall_mem_cons.mp hallowed
    obtain ⟨hafter, hR⟩ := hstep s i hinit hfirst
    obtain ⟨hfinal, htrace⟩ := ih hafter hrest
    refine ⟨htrans _ _ _ hR hfinal, List.forall_mem_cons.mpr ⟨⟨hrefl s, hfinal⟩, fun e he ↦ ?_⟩⟩
    exact ⟨htrans _ _ _ hR (htrace e he).1, (htrace e he).2⟩

/-- A preorder that every allowed step extends relates any two moments of a run. -/
theorem trace_pairwise (Inv : σ → Prop) (R : σ → σ → Prop) (Allowed : Entry σ ι ο → Prop)
    (hinit : Inv s) (hrefl : ∀ s, R s s) (htrans : ∀ a b c, R a b → R b c → R a c)
    (hstep : ∀ s i, Inv s → Allowed (stepEntry step s i) → Inv (step i s).2 ∧ R s (step i s).2)
    (hallowed : ∀ e ∈ trace step s inputs, Allowed e) :
    (trace step s inputs).Pairwise fun e later ↦ R e.after later.before := by
  induction inputs generalizing s with
  | nil => exact .nil
  | cons i rest ih =>
    obtain ⟨hfirst, hrest⟩ := List.forall_mem_cons.mp hallowed
    have hafter := (hstep s i hinit hfirst).1
    refine .cons (fun later hlater ↦ ?_) (ih hafter hrest)
    exact ((trace_extends Inv R Allowed hafter hrefl htrans hstep hrest).2 later hlater).1

end Foundations
