import FerrisBridge.Foundations.Program

/-!
# Programs that may be cut off

A program that runs alone, and that a crash may cut off before any of its operations. A triple has two
postconditions: one for the end of the program, and one for every state in which it may be cut off.
Triples compose along the program, where the states of being cut off are those of all its parts.
-/

namespace Foundations

variable {σ Op Outcome : Type} {Answer : Op → Type} {α β : Type}

/-- The ways of a program that runs alone: to its end, or until it is cut off. -/
inductive Program.Runs (exec : (op : Op) → Outcome → σ → Answer op × σ) :
    Program Op Answer α → σ → Option α → σ → Prop
  | done (a : α) (s : σ) : Runs exec (.done a) s (some a) s
  | cut (op : Op) (next : Answer op → Program Op Answer α) (s : σ) :
    Runs exec (.call op next) s none s
  | call {op : Op} {next : Answer op → Program Op Answer α} {s s' : σ} {result : Option α}
    (outcome : Outcome)
    (rest : Runs exec (next (exec op outcome s).1) (exec op outcome s).2 result s') :
    Runs exec (.call op next) s result s'

variable {exec : (op : Op) → Outcome → σ → Answer op × σ}

/-- The way of a program through its two parts. -/
theorem Program.Runs.of_bind {first : Program Op Answer α} {rest : α → Program Op Answer β} {s' : σ}
    {result : Option β} : ∀ {s : σ}, Runs exec (first >>= rest) s result s' →
      (∃ a s'', Runs exec first s (some a) s'' ∧ Runs exec (rest a) s'' result s') ∨
        result = none ∧ Runs exec first s none s' := by
  induction first with
  | done a =>
    intro s h
    exact .inl ⟨a, s, .done a s, h⟩
  | call op next ih =>
    intro s h
    cases h with
    | cut => exact .inr ⟨rfl, .cut op next _⟩
    | call outcome hrest =>
      rcases ih _ hrest with ⟨a, s'', hfirst, hsecond⟩ | ⟨hnone, hfirst⟩
      · exact .inl ⟨a, s'', .call outcome hfirst, hsecond⟩
      · exact .inr ⟨hnone, .call outcome hfirst⟩

/-- The way of a program through a list of outcomes, at whose end it is cut off. -/
def Program.runWith (exec : (op : Op) → Outcome → σ → Answer op × σ) :
    Program Op Answer α → List Outcome → σ → Option α × σ
  | .done a, _, s => (some a, s)
  | .call _ _, [], s => (none, s)
  | .call op next, outcome :: outcomes, s =>
    (next (exec op outcome s).1).runWith exec outcomes (exec op outcome s).2

theorem Program.runs_runWith (program : Program Op Answer α) (outcomes : List Outcome) (s : σ) :
    program.Runs exec s (program.runWith exec outcomes s).1 (program.runWith exec outcomes s).2 := by
  induction program generalizing outcomes s with
  | done a => exact .done a s
  | call op next ih =>
    cases outcomes with
    | nil => exact .cut op next s
    | cons outcome outcomes => exact .call outcome (ih _ outcomes _)

/-- From the precondition, the program ends in its postcondition or is cut off in a state of the other
kind. -/
def CrashTriple (exec : (op : Op) → Outcome → σ → Answer op × σ) (pre : σ → Prop)
    (program : Program Op Answer α) (post : α → σ → Prop) (cut : σ → Prop) : Prop :=
  ∀ s, pre s → ∀ result s', program.Runs exec s result s' → result.elim (cut s') fun a ↦ post a s'

namespace CrashTriple

variable {pre pre' cut cut' : σ → Prop} {post post' : α → σ → Prop} {program : Program Op Answer α}
  {rest : α → Program Op Answer β} {last : β → σ → Prop}

theorem imp (h : CrashTriple exec pre program post cut) (hpre : ∀ s, pre' s → pre s)
    (hpost : ∀ a s, post a s → post' a s) (hcut : ∀ s, cut s → cut' s) :
    CrashTriple exec pre' program post' cut' := by
  intro s hs result s' hruns
  have hend := h s (hpre s hs) result s' hruns
  cases result with
  | none => exact hcut s' hend
  | some a => exact hpost a s' hend

theorem imp_post (h : CrashTriple exec pre program post cut) (hpost : ∀ a s, post a s → post' a s) :
    CrashTriple exec pre program post' cut :=
  h.imp (fun _ hs ↦ hs) hpost fun _ hs ↦ hs

theorem imp_pre (h : CrashTriple exec pre program post cut) (hpre : ∀ s, pre' s → pre s) :
    CrashTriple exec pre' program post cut :=
  h.imp hpre (fun _ _ hs ↦ hs) fun _ hs ↦ hs

theorem imp_cut (h : CrashTriple exec pre program post cut) (hcut : ∀ s, cut s → cut' s) :
    CrashTriple exec pre program post cut' :=
  h.imp (fun _ hs ↦ hs) (fun _ _ hs ↦ hs) hcut

theorem pure {a : α} (h : ∀ s, pre s → post a s) :
    CrashTriple exec pre (Pure.pure a : Program Op Answer α) post cut := by
  intro s hs result s' hruns
  cases hruns with
  | done => exact h s hs

theorem perform {op : Op} {post : Answer op → σ → Prop} (hcut : ∀ s, pre s → cut s)
    (h : ∀ s outcome, pre s → post (exec op outcome s).1 (exec op outcome s).2) :
    CrashTriple exec pre (Program.perform op) post cut := by
  intro s hs result s' hruns
  cases hruns with
  | cut => exact hcut s hs
  | call outcome hrest =>
    cases hrest with
    | done => exact h s outcome hs

theorem andThen (h : CrashTriple exec pre program post cut)
    (hrest : ∀ a, CrashTriple exec (post a) (rest a) last cut) :
    CrashTriple exec pre (program >>= rest) last cut := by
  intro s hs result s' hruns
  rcases hruns.of_bind with ⟨a, s'', hfirst, hsecond⟩ | ⟨rfl, hfirst⟩
  · exact hrest a s'' (h s hs (some a) s'' hfirst) result s' hsecond
  · exact h s hs none s' hfirst

/-- A precondition that is known of the program itself. -/
theorem of_pure {fact : Prop} (h : fact → CrashTriple exec pre program post cut) :
    CrashTriple exec (fun s ↦ pre s ∧ fact) program post cut :=
  fun s hs ↦ h hs.2 s hs.1

/-- One step of a program that may end early with an error. -/
theorem exceptBind {ε : Type} {first : ExceptT ε (Program Op Answer) α}
    {rest : α → ExceptT ε (Program Op Answer) β} {middle : α → σ → Prop} {good : β → σ → Prop}
    {bad : ε → σ → Prop} (hfirst : CrashTriple exec pre first.run (Protocol.Ends middle bad) cut)
    (hrest : ∀ a, CrashTriple exec (middle a) (rest a).run (Protocol.Ends good bad) cut) :
    CrashTriple exec pre (first >>= rest).run (Protocol.Ends good bad) cut := by
  apply hfirst.andThen
  intro result
  cases result with
  | ok a => exact hrest a
  | error err => exact pure fun _ hbad ↦ hbad

/-- A program that does not end early. -/
theorem exceptLift {ε : Type} {good : α → σ → Prop} {bad : ε → σ → Prop}
    (h : CrashTriple exec pre program good cut) :
    CrashTriple exec pre (ExceptT.lift program : ExceptT ε (Program Op Answer) α).run
      (Protocol.Ends good bad) cut :=
  andThen h fun _ ↦ pure fun _ hs ↦ hs

end CrashTriple

end Foundations
