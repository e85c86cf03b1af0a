import FerrisBridge.Foundations.Trace

/-!
# Interleaved programs

Processes run programs over a shared state. A program is a tree of atomic operations, and each
operation goes on with the answer of the environment, so that a program reads as the code that it
models. A machine takes one operation of one process at a time, in any order; other events change the
shared state between operations.

The rules are of the rely and guarantee kind. A protocol fixes an invariant of the shared state and
what the others may do to a process between two of its operations. A triple says that a program, run
from a precondition among the others, keeps to the protocol and ends in its postcondition; triples
compose along the program, and `Protocol.run_invariant` gives the invariant for every interleaving.
-/

namespace Foundations

/-- A program: a result, or an operation and how it goes on with each answer. -/
inductive Program (Op : Type) (Answer : Op → Type) (α : Type) : Type
  | done (a : α)
  | call (op : Op) (next : Answer op → Program Op Answer α)

namespace Program

variable {Op : Type} {Answer : Op → Type} {α β γ : Type}

/-- Sequencing. -/
def andThen : Program Op Answer α → (α → Program Op Answer β) → Program Op Answer β
  | done a, f => f a
  | call op next, f => call op fun answer ↦ (next answer).andThen f

instance : Monad (Program Op Answer) where
  pure := done
  bind := andThen

/-- One operation. -/
def perform (op : Op) : Program Op Answer (Answer op) := call op done

/-- A loop of at most so many rounds, left by the first round with a result. -/
def rounds (body : Program Op Answer (Option α)) (otherwise : α) : ℕ → Program Op Answer α
  | 0 => done otherwise
  | count + 1 => do
    match ← body with
    | some a => return a
    | none => rounds body otherwise count

end Program

/-! ## Machines -/

/-- How operations and events act on the shared state. An outcome holds the choices of the environment
for an operation. -/
structure Machine (Pid σ Op : Type) (Answer : Op → Type) (Outcome Event : Type) where
  running : σ → Pid → Bool
  exec : Pid → (op : Op) → Outcome → σ → Answer op × σ
  occur : Event → σ → σ

/-- The shared state, and what is left of the program of every process. -/
structure Processes (Pid σ Op : Type) (Answer : Op → Type) where
  shared : σ
  program : Pid → Program Op Answer Unit

inductive Turn (Pid Outcome Event : Type)
  | step (pid : Pid) (outcome : Outcome)
  | event (event : Event)

variable {Pid σ Op Outcome Event : Type} {Answer : Op → Type}

namespace Machine

section Turns

variable [DecidableEq Pid]

/-- One turn: an operation of a running process, or an event. -/
def turn (machine : Machine Pid σ Op Answer Outcome Event) (turn : Turn Pid Outcome Event)
    (processes : Processes Pid σ Op Answer) : Unit × Processes Pid σ Op Answer :=
  match turn with
  | .event event => ((), { processes with shared := machine.occur event processes.shared })
  | .step pid outcome =>
    if machine.running processes.shared pid then
      match processes.program pid with
      | .done _ => ((), processes)
      | .call op next =>
        let result := machine.exec pid op outcome processes.shared
        ((), ⟨result.2, Function.update processes.program pid (next result.1)⟩)
    else ((), processes)

/-- A turn of a run, with the shared state and the programs before and after it. -/
abbrev Moment (_machine : Machine Pid σ Op Answer Outcome Event) : Type :=
  Entry (Processes Pid σ Op Answer) (Turn Pid Outcome Event) Unit

/-- The turns of a run. -/
def run (machine : Machine Pid σ Op Answer Outcome Event) (processes : Processes Pid σ Op Answer)
    (turns : List (Turn Pid Outcome Event)) : List machine.Moment :=
  trace machine.turn processes turns

end Turns

/-- A condition on the operations and events of a run, in the shared state before them. -/
structure Condition (Pid σ Op Outcome Event : Type) where
  operation : σ → Pid → Op → Outcome → Prop
  event : σ → Event → Prop

/-- The operation or the event of a turn meets the condition. -/
def Meets (machine : Machine Pid σ Op Answer Outcome Event)
    (condition : Condition Pid σ Op Outcome Event) (moment : machine.Moment) : Prop :=
  match moment.input with
  | .event event => condition.event moment.before.shared event
  | .step pid outcome => machine.running moment.before.shared pid = true → ∀ op next,
      moment.before.program pid = .call op next →
        condition.operation moment.before.shared pid op outcome

instance (machine : Machine Pid σ Op Answer Outcome Event)
    (condition : Condition Pid σ Op Outcome Event)
    [∀ s pid op outcome, Decidable (condition.operation s pid op outcome)]
    [∀ s event, Decidable (condition.event s event)] (moment : machine.Moment) :
    Decidable (machine.Meets condition moment) :=
  match moment with
  | ⟨before, .event event, _, _⟩ => inferInstanceAs (Decidable (condition.event before.shared event))
  | ⟨before, .step pid outcome, _, _⟩ =>
    match hprogram : before.program pid with
    | .done _ => .isTrue fun _ op next hcall ↦ by
        have hdone := hprogram.symm.trans hcall
        cases hdone
    | .call op next =>
      decidable_of_iff (machine.running before.shared pid = true →
        condition.operation before.shared pid op outcome)
        ⟨fun h hrunning op' next' hcall ↦ by
          cases hprogram.symm.trans hcall
          exact h hrunning,
        fun h hrunning ↦ h hrunning op next hprogram⟩

end Machine

/-! ## Protocols -/

/-- The invariant of the shared state, and what a process relies on between its operations: `other`
relates the states before and after turns of the others. -/
structure Protocol (machine : Machine Pid σ Op Answer Outcome Event) where
  condition : Machine.Condition Pid σ Op Outcome Event
  inv : σ → Prop
  other : Pid → σ → σ → Prop
  other_refl : ∀ pid s, other pid s s
  other_trans : ∀ pid a b c, other pid a b → other pid b c → other pid a c
  event_keeps : ∀ s event, inv s → condition.event s event →
    inv (machine.occur event s) ∧ ∀ pid, other pid s (machine.occur event s)

namespace Protocol

variable {machine : Machine Pid σ Op Answer Outcome Event} (P : Protocol machine) {pid : Pid}
  {α β : Type}

/-- What a process guarantees of its own operations. -/
structure Keeps (pid : Pid) (s s' : σ) : Prop where
  inv : P.inv s'
  others : ∀ other ≠ pid, P.other other s s'

theorem Keeps.refl {P : Protocol machine} {pid : Pid} {s : σ} (h : P.inv s) : P.Keeps pid s s :=
  ⟨h, fun other _ ↦ P.other_refl other s⟩

/-- The weakest precondition: among the others, the program keeps to the protocol and ends in the
postcondition. -/
def Wp (pid : Pid) : Program Op Answer α → (α → σ → Prop) → σ → Prop
  | .done a, post, s => post a s
  | .call op next, post, s => ∀ s', P.inv s' → P.other pid s s' → machine.running s' pid = true →
      ∀ outcome, P.condition.operation s' pid op outcome →
        P.Keeps pid s' (machine.exec pid op outcome s').2 ∧
          Wp pid (next (machine.exec pid op outcome s').1) post (machine.exec pid op outcome s').2

/-- A program run from a precondition keeps to the protocol and ends in a postcondition. -/
def Triple (pid : Pid) (pre : σ → Prop) (program : Program Op Answer α) (post : α → σ → Prop) : Prop :=
  ∀ s, pre s → P.Wp pid program post s

/-- What holds at the end of a program that may end early with an error. -/
def Ends {ε : Type} (good : α → σ → Prop) (bad : ε → σ → Prop) : Except ε α → σ → Prop
  | .ok a => good a
  | .error err => bad err

/-- What the others do not destroy. -/
def Stable (pid : Pid) (pre : σ → Prop) : Prop :=
  ∀ s s', pre s → P.other pid s s' → machine.running s' pid = true → pre s'

variable {P} {pre pre' : σ → Prop} {post post' : α → σ → Prop} {program : Program Op Answer α}
  {next : α → Program Op Answer β} {last : β → σ → Prop}

theorem Wp.mono (hpost : ∀ a s, post a s → post' a s) :
    ∀ {s : σ}, P.Wp pid program post s → P.Wp pid program post' s := by
  induction program with
  | done a =>
    intro s h
    exact hpost a s h
  | call op next ih =>
    intro s h s' hinv hother hrunning outcome hcondition
    obtain ⟨hkeeps, hnext⟩ := h s' hinv hother hrunning outcome hcondition
    exact ⟨hkeeps, ih _ hnext⟩

theorem Wp.andThen {s : σ} (h : P.Wp pid program (fun a s ↦ P.Wp pid (next a) last s) s) :
    P.Wp pid (program >>= next) last s := by
  induction program generalizing s with
  | done a => exact h
  | call op rest ih =>
    intro s' hinv hother hrunning outcome hcondition
    obtain ⟨hkeeps, hrest⟩ := h s' hinv hother hrunning outcome hcondition
    exact ⟨hkeeps, ih _ hrest⟩

theorem Stable.and {fact fact' : σ → Prop} (h : P.Stable pid fact) (h' : P.Stable pid fact') :
    P.Stable pid fun s ↦ fact s ∧ fact' s :=
  fun s s' hs hother hrunning ↦ ⟨h s s' hs.1 hother hrunning, h' s s' hs.2 hother hrunning⟩

namespace Triple

theorem imp (h : P.Triple pid pre program post) (hpre : ∀ s, pre' s → pre s)
    (hpost : ∀ a s, post a s → post' a s) : P.Triple pid pre' program post' :=
  fun s hs ↦ (h s (hpre s hs)).mono hpost

theorem imp_pre (h : P.Triple pid pre program post) (hpre : ∀ s, pre' s → pre s) :
    P.Triple pid pre' program post :=
  h.imp hpre fun _ _ hs ↦ hs

theorem imp_post (h : P.Triple pid pre program post) (hpost : ∀ a s, post a s → post' a s) :
    P.Triple pid pre program post' :=
  h.imp (fun _ hs ↦ hs) hpost

theorem andThen (h : P.Triple pid pre program post)
    (hnext : ∀ a, P.Triple pid (post a) (next a) last) :
    P.Triple pid pre (program >>= next) last :=
  fun s hs ↦ Wp.andThen ((h s hs).mono fun a s' hs' ↦ hnext a s' hs')

theorem pure {a : α} (h : ∀ s, pre s → post a s) :
    P.Triple pid pre (Pure.pure a : Program Op Answer α) post := h

/-- A precondition that is known of the program itself. -/
theorem of_pure {fact : Prop} (h : fact → P.Triple pid pre program post) :
    P.Triple pid (fun s ↦ pre s ∧ fact) program post :=
  fun s hs ↦ h hs.2 s hs.1

theorem perform {op : Op} {post : Answer op → σ → Prop} (hstable : P.Stable pid pre)
    (h : ∀ s outcome, P.inv s → machine.running s pid = true → pre s →
      P.condition.operation s pid op outcome → P.Keeps pid s (machine.exec pid op outcome s).2 ∧
        post (machine.exec pid op outcome s).1 (machine.exec pid op outcome s).2) :
    P.Triple pid pre (Program.perform op) post :=
  fun s hs s' hinv hother hrunning outcome hcondition ↦
    h s' outcome hinv hrunning (hstable s s' hs hother hrunning) hcondition

/-- An operation that leaves the shared state. -/
theorem read {op : Op} {post : Answer op → σ → Prop} (hstable : P.Stable pid pre)
    (hstate : ∀ outcome s, (machine.exec pid op outcome s).2 = s)
    (h : ∀ s outcome, P.inv s → machine.running s pid = true → pre s →
      P.condition.operation s pid op outcome → post (machine.exec pid op outcome s).1 s) :
    P.Triple pid pre (Program.perform op) post := by
  apply perform hstable
  intro s outcome hinv hrunning hpre hcondition
  rw [hstate]
  exact ⟨Keeps.refl hinv, h s outcome hinv hrunning hpre hcondition⟩

/-- One step of a program that may end early with an error. -/
theorem exceptBind {ε : Type} {first : ExceptT ε (Program Op Answer) α}
    {rest : α → ExceptT ε (Program Op Answer) β} {middle : α → σ → Prop} {good : β → σ → Prop}
    {bad : ε → σ → Prop} (hfirst : P.Triple pid pre first.run (Ends middle bad))
    (hrest : ∀ a, P.Triple pid (middle a) (rest a).run (Ends good bad)) :
    P.Triple pid pre (first >>= rest).run (Ends good bad) := by
  apply hfirst.andThen
  intro result
  cases result with
  | ok a => exact hrest a
  | error err => exact fun _ hbad ↦ hbad

/-- A program that does not end early. -/
theorem exceptLift {ε : Type} {program : Program Op Answer α} {good : α → σ → Prop}
    {bad : ε → σ → Prop} (h : P.Triple pid pre program good) :
    P.Triple pid pre (ExceptT.lift program : ExceptT ε (Program Op Answer) α).run (Ends good bad) :=
  Triple.andThen h fun _ ↦ Triple.pure fun _ hs ↦ hs

/-- The invariant of a loop. -/
theorem rounds {body : Program Op Answer (Option α)} {otherwise : α}
    (hbody : P.Triple pid pre body fun result s ↦ result.elim (pre s) fun a ↦ post a s)
    (hotherwise : ∀ s, pre s → post otherwise s) (count : ℕ) :
    P.Triple pid pre (Program.rounds body otherwise count) post := by
  induction count with
  | zero => exact hotherwise
  | succ count ih =>
    apply hbody.andThen
    intro result
    cases result with
    | none => exact ih
    | some a => exact fun s hs ↦ hs

end Triple

/-- The rest of a program that only has to keep to the protocol does not mind the others. -/
theorem Wp.of_other {program : Program Op Answer Unit} {s s' : σ}
    (h : P.Wp pid program (fun _ _ ↦ True) s) (hother : P.other pid s s') :
    P.Wp pid program (fun _ _ ↦ True) s' := by
  cases program with
  | done a => exact h
  | call op next =>
    intro s'' hinv hlater
    exact h s'' hinv (P.other_trans pid s s' s'' hother hlater)

/-- The invariant holds throughout every run whose programs keep to the protocol. -/
theorem run_invariant [DecidableEq Pid] (P : Protocol machine) {processes : Processes Pid σ Op Answer}
    {turns : List (Turn Pid Outcome Event)} (hinv : P.inv processes.shared)
    (hprograms : ∀ pid, P.Wp pid (processes.program pid) (fun _ _ ↦ True) processes.shared)
    (hmeets : ∀ moment ∈ machine.run processes turns, machine.Meets P.condition moment) :
    ∀ moment ∈ machine.run processes turns,
      P.inv moment.before.shared ∧ P.inv moment.after.shared := by
  have hrun := (trace_invariant (fun processes : Processes Pid σ Op Answer ↦
      P.inv processes.shared ∧
        ∀ pid, P.Wp pid (processes.program pid) (fun _ _ ↦ True) processes.shared)
    (machine.Meets P.condition) ⟨hinv, hprograms⟩ ?_ hmeets).1
  · intro moment hmoment
    exact ⟨(hrun moment hmoment).1.1, (hrun moment hmoment).2.1⟩
  · rintro processes turn ⟨hinv, hprograms⟩ hmeet
    cases turn with
    | event event =>
      obtain ⟨hafter, hother⟩ := P.event_keeps processes.shared event hinv hmeet
      exact ⟨hafter, fun pid ↦ (hprograms pid).of_other (hother pid)⟩
    | step pid outcome =>
      by_cases hrunning : machine.running processes.shared pid = true
      · cases hprogram : processes.program pid with
        | done a =>
          simp only [Machine.turn, hrunning, if_true, hprogram]
          exact ⟨hinv, hprograms⟩
        | call op next =>
          have hwp := hprograms pid
          rw [hprogram] at hwp
          obtain ⟨hkeeps, hnext⟩ := hwp processes.shared hinv (P.other_refl pid _) hrunning outcome
            (hmeet hrunning op next hprogram)
          simp only [Machine.turn, hrunning, if_true, hprogram]
          refine ⟨hkeeps.inv, fun other ↦ ?_⟩
          by_cases hother : other = pid
          · subst hother
            rw [Function.update_self]
            exact hnext
          · rw [Function.update_of_ne hother]
            exact (hprograms other).of_other (hkeeps.others other hother)
      · simp only [Machine.turn, hrunning, if_false, Bool.false_eq_true]
        exact ⟨hinv, hprograms⟩

end Protocol

end Foundations
