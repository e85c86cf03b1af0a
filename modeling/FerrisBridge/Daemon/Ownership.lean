import FerrisBridge.Daemon.Commands

/-!
# Ownership of the record files

At most one daemon serves at a time, and the record files are its own. Whoever writes or removes a
record file holds the lifecycle lock and knows that no live process is past its record writes, from
what it has read of the files and of the processes; as long as the lock is held, no other process
gets there.
-/

open Foundations

namespace FerrisBridge.Daemon

/-! ## Conditions on a run -/

/-- The child that an operation waits for. -/
def Op.awaited : Op → Option U32
  | wait child => some child
  | _ => none

def Op.spawns : Op → Bool
  | spawn _ _ => true
  | _ => false

/-- Process ids and tokens are not reused, and a child that has been waited for has exited. -/
def assumptions : Machine.Condition U32 Host Op Outcome Event where
  operation host pid op outcome :=
    (op = .generateToken → host.issuer (FerrisBridge.generateToken pid outcome.nanos) = none) ∧
      (op.spawns = true → host.status outcome.child = .unborn) ∧
        ∀ child ∈ op.awaited, host.status child = .dead
  event host event :=
    match event with
    | .launch pid arguments =>
      host.status pid = .unborn ∧ ∀ token ∈ arguments.token, host.issuer token = none
    | .die _ => True

instance (host : Host) (pid : U32) (op : Op) (outcome : Outcome) :
    Decidable (assumptions.operation host pid op outcome) :=
  inferInstanceAs (Decidable ((op = .generateToken → _) ∧ (op.spawns = true → _) ∧
    ∀ child ∈ op.awaited, _))

instance (host : Host) (event : Event) : Decidable (assumptions.event host event) :=
  match event with
  | .launch pid arguments => inferInstanceAs (Decidable (host.status pid = .unborn ∧
      ∀ token ∈ arguments.token, host.issuer token = none))
  | .die _ => inferInstanceAs (Decidable True)

namespace Host

/-- The process is live and past its record writes. -/
def Serves (host : Host) (pid : U32) (record : DaemonRecord) : Prop :=
  host.status pid = .live ∧ host.serving pid = some record

/-- At most one live process is past its record writes, and both files hold its record. -/
structure SingleDaemon (host : Host) : Prop where
  unique : ∀ pid other record record', host.Serves pid record → host.Serves other record' → pid = other
  files : ∀ pid record, host.Serves pid record → record.pid = pid ∧
    host.files .lock = some (.record record) ∧ host.files .state = some (.record record)

/-! ## The protocol -/

/-- The startup token that the process was launched with. -/
def token (host : Host) (pid : U32) : Option String := (host.arguments pid).bind Arguments.token

/-- The files are those of every process that serves, and its record and its token are its own. -/
structure Inv (host : Host) : Prop where
  files : ∀ pid record, host.Serves pid record → ∀ file, host.files file = some (.record record)
  own : ∀ pid record, host.serving pid = some record →
    record.pid = pid ∧ record.mode ≠ .starting ∧ host.token pid = some record.token
  born : ∀ pid record, host.serving pid = some record → host.status pid ≠ .unborn
  unborn : ∀ pid, host.status pid = .unborn → host.arguments pid = none
  issued : ∀ pid token, host.token pid = some token → host.issuer token ≠ none

/-- What the others may do to a process between its operations. -/
structure Other (pid : U32) (before after : Host) : Prop where
  dead : ∀ other, before.status other = .dead → after.status other = .dead
  arguments : ∀ other arguments, before.arguments other = some arguments →
    after.arguments other = some arguments
  issuer : ∀ token other, before.issuer token = some other → after.issuer token = some other
  launched : ∀ token, before.issuer token = some pid → ∀ other, after.token other = some token →
    before.token other = some token
  held : after.status pid ≠ .dead → before.holder = some pid →
    after.holder = some pid ∧ after.files = before.files ∧ after.serving = before.serving

variable {host before after : Host} {pid : U32}

theorem Inv.singleDaemon (h : host.Inv) : host.SingleDaemon where
  unique pid other record record' hpid hother := by
    have hrecord : record = record' := by
      simpa using (h.files pid record hpid .lock).symm.trans (h.files other record' hother .lock)
    calc
      pid = record.pid := (h.own pid record hpid.2).1.symm
      _ = record'.pid := by rw [hrecord]
      _ = other := (h.own other record' hother.2).1
  files pid record hpid :=
    ⟨(h.own pid record hpid.2).1, h.files pid record hpid .lock, h.files pid record hpid .state⟩

theorem Other.refl (pid : U32) (host : Host) : Other pid host host where
  dead _ h := h
  arguments _ _ h := h
  issuer _ _ h := h
  launched _ _ _ h := h
  held _ h := ⟨h, rfl, rfl⟩

theorem Other.trans (pid : U32) (a b c : Host) (hab : Other pid a b) (hbc : Other pid b c) :
    Other pid a c where
  dead other h := hbc.dead other (hab.dead other h)
  arguments other arguments h := hbc.arguments other arguments (hab.arguments other arguments h)
  issuer token other h := hbc.issuer token other (hab.issuer token other h)
  launched token htoken other h :=
    hab.launched token htoken other (hbc.launched token (hab.issuer token pid htoken) other h)
  held halive hholder := by
    have hbefore : b.status pid ≠ .dead := fun hdead ↦ halive (hbc.dead pid hdead)
    obtain ⟨hholder', hfiles, hserving⟩ := hab.held hbefore hholder
    obtain ⟨hholder'', hfiles', hserving'⟩ := hbc.held halive hholder'
    exact ⟨hholder'', hfiles'.trans hfiles, hserving'.trans hserving⟩

/-- The processes are left as they are. -/
structure SameProcesses (before after : Host) : Prop where
  status : after.status = before.status
  arguments : after.arguments = before.arguments
  issuer : after.issuer = before.issuer
  serving : after.serving = before.serving

theorem SameProcesses.token (h : SameProcesses before after) (pid : U32) :
    after.token pid = before.token pid := by
  rw [Host.token, Host.token, h.arguments]

theorem SameProcesses.inv (h : SameProcesses before after) (hinv : before.Inv)
    (hfiles : ∀ pid record, before.Serves pid record → after.files = before.files) : after.Inv where
  files pid record hserves := by
    rw [Serves, h.status, h.serving] at hserves
    rw [hfiles pid record hserves]
    exact hinv.files pid record hserves
  own pid record hserving := by
    rw [h.serving] at hserving
    rw [h.token]
    exact hinv.own pid record hserving
  born pid record hserving := by
    rw [h.serving] at hserving
    rw [h.status]
    exact hinv.born pid record hserving
  unborn pid hstatus := by
    rw [h.status] at hstatus
    rw [h.arguments]
    exact hinv.unborn pid hstatus
  issued pid token htoken := by
    rw [h.token] at htoken
    rw [h.issuer]
    exact hinv.issued pid token htoken

theorem SameProcesses.other (h : SameProcesses before after)
    (hheld : after.status pid ≠ .dead → before.holder = some pid →
      after.holder = some pid ∧ after.files = before.files) : Other pid before after where
  dead other hdead := by rwa [h.status]
  arguments other arguments harguments := by rwa [h.arguments]
  issuer token other hissuer := by rwa [h.issuer]
  launched token _ other htoken := by rwa [h.token] at htoken
  held halive hholder := ⟨(hheld halive hholder).1, (hheld halive hholder).2, h.serving⟩

/-! ### Processes that come and go -/

theorem inv_kill (h : host.Inv) : (host.kill pid).Inv where
  files := by
    rintro other record ⟨hstatus, hserving⟩
    have hother : other ≠ pid := by
      rintro rfl
      simp at hstatus
    rw [status_kill, Function.update_of_ne hother] at hstatus
    exact h.files other record ⟨hstatus, hserving⟩
  own := h.own
  born other record hserving := by
    by_cases hother : other = pid
    · simp [hother]
    · rw [status_kill, Function.update_of_ne hother]
      exact h.born other record hserving
  unborn other hstatus := by
    by_cases hother : other = pid
    · simp [hother] at hstatus
    · rw [status_kill, Function.update_of_ne hother] at hstatus
      exact h.unborn other hstatus
  issued := h.issued

theorem other_kill (other : U32) : Other other host (host.kill pid) where
  dead process hdead := by
    by_cases hprocess : process = pid
    · simp [hprocess]
    · rwa [status_kill, Function.update_of_ne hprocess]
  arguments _ _ h := h
  issuer _ _ h := h
  launched _ _ _ h := h
  held _ h := ⟨h, rfl, rfl⟩

theorem inv_issue {token : String} (h : host.Inv) : (host.issue pid token).Inv where
  files := h.files
  own := h.own
  born := h.born
  unborn := h.unborn
  issued other token' htoken := by
    by_cases heq : token' = token
    · simp [heq]
    · rw [issuer_issue, Function.update_of_ne heq]
      exact h.issued other token' htoken

theorem other_issue {token : String} (hfresh : host.issuer token = none) (other : U32) :
    Other other host (host.issue pid token) where
  dead _ h := h
  arguments _ _ h := h
  issuer token' process hissuer := by
    have heq : token' ≠ token := by
      rintro rfl
      rw [hfresh] at hissuer
      cases hissuer
    rwa [issuer_issue, Function.update_of_ne heq]
  launched _ _ _ h := h
  held _ h := ⟨h, rfl, rfl⟩

theorem token_launch_self (arguments : Arguments) :
    (host.launch pid arguments).token pid = arguments.token := by
  simp [token, launch]

theorem token_launch_of_ne {other : U32} (arguments : Arguments) (hother : other ≠ pid) :
    (host.launch pid arguments).token other = host.token other := by
  simp [token, launch, hother]

theorem inv_launch {arguments : Arguments} (h : host.Inv) (hunborn : host.status pid = .unborn)
    (hissued : ∀ token ∈ arguments.token, host.issuer token ≠ none) :
    (host.launch pid arguments).Inv := by
  have hserving (other : U32) (record : DaemonRecord) (hrecord : host.serving other = some record) :
      other ≠ pid := by
    rintro rfl
    exact h.born other record hrecord hunborn
  exact
    { files := by
        rintro other record ⟨hstatus, hrecord⟩
        rw [status_launch, Function.update_of_ne (hserving other record hrecord)] at hstatus
        exact h.files other record ⟨hstatus, hrecord⟩
      own := by
        intro other record hrecord
        rw [token_launch_of_ne arguments (hserving other record hrecord)]
        exact h.own other record hrecord
      born := by
        intro other record hrecord
        rw [status_launch, Function.update_of_ne (hserving other record hrecord)]
        exact h.born other record hrecord
      unborn := by
        intro other hstatus
        by_cases hother : other = pid
        · simp [hother] at hstatus
        · rw [status_launch, Function.update_of_ne hother] at hstatus
          rw [arguments_launch, Function.update_of_ne hother]
          exact h.unborn other hstatus
      issued := by
        intro other token htoken
        by_cases hother : other = pid
        · rw [hother, token_launch_self] at htoken
          exact hissued token htoken
        · rw [token_launch_of_ne arguments hother] at htoken
          exact h.issued other token htoken }

theorem other_launch {other : U32} {arguments : Arguments} (h : host.Inv) (hunborn : host.status pid = .unborn)
    (hissuer : ∀ token ∈ arguments.token, host.issuer token ≠ some other) :
    Other other host (host.launch pid arguments) where
  dead process hdead := by
    have hprocess : process ≠ pid := by
      rintro rfl
      rw [hunborn] at hdead
      cases hdead
    rwa [status_launch, Function.update_of_ne hprocess]
  arguments process arguments' harguments := by
    have hprocess : process ≠ pid := by
      rintro rfl
      rw [h.unborn process hunborn] at harguments
      cases harguments
    rwa [arguments_launch, Function.update_of_ne hprocess]
  issuer _ _ h := h
  launched token htoken process hprocess := by
    by_cases heq : process = pid
    · rw [heq, token_launch_self] at hprocess
      exact absurd htoken (hissuer token hprocess)
    · rwa [token_launch_of_ne arguments heq] at hprocess
  held _ h := ⟨h, rfl, rfl⟩

theorem occur_keeps (host : Host) (event : Event) (h : host.Inv)
    (hcondition : assumptions.event host event) :
    (occur event host).Inv ∧ ∀ pid, Other pid host (occur event host) := by
  cases event with
  | die pid => exact ⟨inv_kill h, fun other ↦ other_kill other⟩
  | launch pid arguments =>
    obtain ⟨hunborn, hfresh⟩ := hcondition
    cases htoken : arguments.token with
    | none =>
      simp only [occur, htoken]
      rw [htoken] at hfresh
      exact ⟨inv_launch h hunborn (by simp [htoken]), fun other ↦ other_launch h hunborn (by simp [htoken])⟩
    | some token =>
      have hnone : host.issuer token = none := hfresh token htoken
      simp only [occur, htoken]
      constructor
      · apply inv_launch (inv_issue h) hunborn
        intro token' htoken'
        obtain rfl : token = token' := by simpa [htoken] using htoken'
        simp
      · intro other
        have hlaunch : Other other host (host.launch pid arguments) := by
          apply other_launch h hunborn
          intro token' htoken'
          simp [hfresh token' htoken']
        have hnone' : (host.launch pid arguments).issuer token = none := hnone
        have hissue : Other other (host.launch pid arguments)
            ((host.launch pid arguments).issue pid token) := other_issue hnone' other
        exact hlaunch.trans other _ _ _ hissue

end Host

/-- The assumptions on a run, and what processes rely on. -/
def protocol : Protocol machine where
  condition := assumptions
  inv := Host.Inv
  other := Host.Other
  other_refl := Host.Other.refl
  other_trans := Host.Other.trans
  event_keeps := Host.occur_keeps

namespace Host

variable {host before after : Host} {pid : U32}

/-! ### What a process knows -/

/-- No live process is past its record writes with such a record. -/
def Unserved (p : DaemonRecord → Prop) (host : Host) : Prop :=
  ∀ pid record, host.serving pid = some record → p record → host.status pid = .dead

/-- No live process is past its record writes. -/
def Idle : Host → Prop := Unserved fun _ ↦ True

/-- Only the process launches daemons with the token, and has launched those of a list. -/
def Issued (pid : U32) (token : String) (children : List U32) (host : Host) : Prop :=
  host.issuer token = some pid ∧ ∀ child, host.token child = some token → child ∈ children

/-- The process holds the lifecycle lock, and knows a fact. -/
def Holding (pid : U32) (fact : Host → Prop) (host : Host) : Prop :=
  host.holder = some pid ∧ fact host

theorem Holding.mono {fact fact' : Host → Prop} (h : Holding pid fact host)
    (hfact : ∀ host, fact host → fact' host) : Holding pid fact' host :=
  ⟨h.1, hfact host h.2⟩

theorem Idle.unserved (h : host.Idle) (p : DaemonRecord → Prop) : host.Unserved p :=
  fun pid record hserving _ ↦ h pid record hserving trivial

theorem Unserved.mono {p q : DaemonRecord → Prop} (h : host.Unserved q) (hpq : ∀ record, p record → q record) :
    host.Unserved p :=
  fun pid record hserving hp ↦ h pid record hserving (hpq record hp)

/-- What is known of one record and of all others. -/
theorem Unserved.idle {p : DaemonRecord → Prop} {record : DaemonRecord}
    (hother : host.Unserved fun other ↦ other ≠ record) (h : host.Unserved p) (hp : p record) :
    host.Idle := by
  intro pid served hserving _
  by_cases heq : served = record
  · exact h pid served hserving (heq ▸ hp)
  · exact hother pid served hserving heq

theorem Idle.not_serves (h : host.Idle) {record : DaemonRecord} : ¬host.Serves pid record := by
  rintro ⟨hlive, hserving⟩
  rw [h pid record hserving trivial] at hlive
  cases hlive

/-- A process that serves is the content of each file. -/
theorem Inv.unserved_of_files {p : DaemonRecord → Prop} (h : host.Inv) (file : RecordFile)
    (hfile : ∀ record, p record → host.files file ≠ some (.record record)) : host.Unserved p := by
  intro pid record hserving hp
  cases hstatus : host.status pid with
  | unborn => exact absurd hstatus (h.born pid record hserving)
  | live => exact absurd (h.files pid record ⟨hstatus, hserving⟩ file) (hfile record hp)
  | dead => rfl

theorem Inv.unserved_of_not_running (h : host.Inv) (hrunning : host.status pid ≠ .live) :
    host.Unserved fun record ↦ record.pid = pid := by
  intro other record hserving hpid
  have hother : other = pid := by rw [← (h.own other record hserving).1, hpid]
  cases hstatus : host.status other with
  | unborn => exact absurd hstatus (h.born other record hserving)
  | live => exact absurd hstatus (hother ▸ hrunning)
  | dead => rfl

/-- When the daemons that a process has launched with a token are dead, none serves with it. -/
theorem Issued.unserved {token : String} {children : List U32} (h : host.Issued pid token children)
    (hinv : host.Inv) (hdead : ∀ child ∈ children, host.status child = .dead) :
    host.Unserved fun record ↦ record.token = token := by
  intro other record hserving htoken
  apply hdead other
  apply h.2 other
  rw [(hinv.own other record hserving).2.2, htoken]

end Host

open Host

/-- What the others do not destroy, nor the process itself when it leaves the processes as they are. -/
structure Lasting (pid : U32) (fact : Host → Prop) : Prop where
  stable : protocol.Stable pid fact
  same : ∀ before after, SameProcesses before after → fact before → fact after

/-- What lasts as long as the process holds the lifecycle lock. -/
structure LastingHeld (pid : U32) (fact : Host → Prop) : Prop where
  stable : protocol.Stable pid (Holding pid fact)
  same : ∀ before after, SameProcesses before after → fact before → fact after

theorem live_of_running {host : Host} {pid : U32} (h : machine.running host pid = true) :
    host.status pid = .live := of_decide_eq_true h

theorem ne_dead_of_running {host : Host} {pid : U32} (h : machine.running host pid = true) :
    host.status pid ≠ .dead := by
  rw [live_of_running h]
  exact fun hdead ↦ by cases hdead

theorem Lasting.held {pid : U32} {fact : Host → Prop} (h : Lasting pid fact) :
    LastingHeld pid fact where
  stable := by
    rintro before after ⟨hholder, hfact⟩ hother hrunning
    exact ⟨(hother.held (ne_dead_of_running hrunning) hholder).1,
      h.stable before after hfact hother hrunning⟩
  same := h.same

theorem Lasting.and {pid : U32} {fact fact' : Host → Prop} (h : Lasting pid fact)
    (h' : Lasting pid fact') : Lasting pid fun host ↦ fact host ∧ fact' host where
  stable := h.stable.and h'.stable
  same before after hsame hboth :=
    ⟨h.same before after hsame hboth.1, h'.same before after hsame hboth.2⟩

theorem Lasting.stop {pid : U32} {fact : Host → Prop} (h : Lasting pid fact) (host : Host)
    (content : Option String) (hfact : fact host) : fact { host with stopFile := content } :=
  h.same host _ ⟨rfl, rfl, rfl, rfl⟩ hfact

theorem lasting_true (pid : U32) : Lasting pid fun _ ↦ True where
  stable _ _ _ _ _ := trivial
  same _ _ _ _ := trivial

theorem lasting_issued (pid : U32) (token : String) (children : List U32) :
    Lasting pid (Issued pid token children) where
  stable := by
    rintro before after ⟨hissuer, hchildren⟩ hother _
    exact ⟨hother.issuer token pid hissuer,
      fun child hchild ↦ hchildren child (hother.launched token hissuer child hchild)⟩
  same := by
    rintro before after hsame ⟨hissuer, hchildren⟩
    refine ⟨hsame.issuer ▸ hissuer, fun child hchild ↦ hchildren child ?_⟩
    rwa [hsame.token] at hchild

theorem lasting_dead (pid : U32) (children : List U32) :
    Lasting pid fun host ↦ ∀ child ∈ children, host.status child = .dead where
  stable _ _ hdead hother _ child hchild := hother.dead child (hdead child hchild)
  same _ _ hsame hdead child hchild := hsame.status ▸ hdead child hchild

theorem lasting_arguments (pid other : U32) (arguments : Arguments) :
    Lasting pid fun host ↦ host.arguments other = some arguments where
  stable _ _ harguments hother _ := hother.arguments other arguments harguments
  same _ _ hsame harguments := hsame.arguments ▸ harguments

namespace LastingHeld

variable {pid : U32} {fact fact' : Host → Prop}

theorem and (h : LastingHeld pid fact) (h' : LastingHeld pid fact') :
    LastingHeld pid fun host ↦ fact host ∧ fact' host where
  stable := by
    rintro before after ⟨hholder, hfact, hfact'⟩ hother hrunning
    obtain ⟨hafter, hfact⟩ := h.stable before after ⟨hholder, hfact⟩ hother hrunning
    exact ⟨hafter, hfact, (h'.stable before after ⟨hholder, hfact'⟩ hother hrunning).2⟩
  same before after hsame hboth :=
    ⟨h.same before after hsame hboth.1, h'.same before after hsame hboth.2⟩

theorem stop (h : LastingHeld pid fact) (host : Host) (content : Option String)
    (hfact : Holding pid fact host) : Holding pid fact { host with stopFile := content } :=
  ⟨hfact.1, h.same host _ ⟨rfl, rfl, rfl, rfl⟩ hfact.2⟩

theorem implies {condition : Prop} (h : LastingHeld pid fact) :
    LastingHeld pid fun host ↦ condition → fact host where
  stable := by
    rintro before after ⟨hholder, hfact⟩ hother hrunning
    exact ⟨(hother.held (ne_dead_of_running hrunning) hholder).1,
      fun hcondition ↦ (h.stable before after ⟨hholder, hfact hcondition⟩ hother hrunning).2⟩
  same before after hsame hfact hcondition := h.same before after hsame (hfact hcondition)

theorem unserved (pid : U32) (p : DaemonRecord → Prop) : LastingHeld pid (Unserved p) where
  stable := by
    rintro before after ⟨hholder, hunserved⟩ hother hrunning
    obtain ⟨hafter, -, hserving⟩ := hother.held (ne_dead_of_running hrunning) hholder
    refine ⟨hafter, fun served record hrecord hp ↦ ?_⟩
    rw [hserving] at hrecord
    exact hother.dead served (hunserved served record hrecord hp)
  same := by
    intro before after hsame hunserved served record hrecord hp
    rw [hsame.serving] at hrecord
    rw [hsame.status]
    exact hunserved served record hrecord hp

end LastingHeld

/-! ## Operations -/

/-- What a process that holds the lifecycle lock learns from a record file. -/
def Reading : Except Unit (Option DaemonRecord) → Host → Prop
  | .ok (some record), host =>
    (host.Unserved fun other ↦ other ≠ record) ∧ (record.mode = .starting → host.Idle)
  | .ok none, host => host.Idle
  | .error _, host => host.Idle

theorem lastingHeld_reading (pid : U32) (answer : Except Unit (Option DaemonRecord)) :
    LastingHeld pid (Reading answer) := by
  cases answer with
  | error err => exact LastingHeld.unserved pid _
  | ok content =>
    cases content with
    | none => exact LastingHeld.unserved pid _
    | some record =>
      exact (LastingHeld.unserved pid _).and (LastingHeld.unserved pid _).implies

theorem Host.Inv.reading {host : Host} (h : host.Inv) (file : RecordFile) :
    Reading (host.read file) host := by
  cases hfile : host.files file with
  | none =>
    simp only [Host.read, hfile, Reading]
    exact h.unserved_of_files file fun record _ ↦ by simp [hfile]
  | some content =>
    cases content with
    | invalid =>
      simp only [Host.read, hfile, Reading]
      exact h.unserved_of_files file fun record _ ↦ by simp [hfile]
    | record record =>
      simp only [Host.read, hfile, Reading]
      have hother : host.Unserved fun other ↦ other ≠ record := by
        apply h.unserved_of_files file
        intro other hother
        rw [hfile]
        simpa using hother.symm
      refine ⟨hother, fun hmode ↦ ?_⟩
      have hstarting : host.Unserved fun other ↦ other.mode = .starting :=
        fun other record hserving hmode ↦ absurd hmode (h.own other record hserving).2.1
      exact hother.idle hstarting hmode

section Operations

variable {pid : U32} {fact : Host → Prop}

theorem keeps_of_same {host after : Host} (hinv : host.Inv) (hsame : SameProcesses host after)
    (hfiles : host.Idle ∨ after.files = host.files)
    (hheld : ∀ other ≠ pid, host.status other ≠ .dead → host.holder = some other →
      after.holder = some other ∧ after.files = host.files) : protocol.Keeps pid host after where
  inv := by
    apply hsame.inv hinv
    intro served record hserves
    rcases hfiles with hidle | hfiles
    · exact absurd hserves hidle.not_serves
    · exact hfiles
  others other hother := by
    apply hsame.other
    intro halive hholder
    rw [hsame.status] at halive
    exact hheld other hother halive hholder

/-- The holder of the lifecycle lock changes a file when no live process is past its record writes. -/
theorem keeps_setFile {host : Host} (hinv : host.Inv) (hholder : host.holder = some pid)
    (hidle : host.Idle) (file : RecordFile) (content : Option Content) :
    protocol.Keeps pid host (host.setFile file content) := by
  have hsame : SameProcesses host (host.setFile file content) := ⟨rfl, rfl, rfl, rfl⟩
  apply keeps_of_same hinv hsame (.inl hidle)
  intro other hother _ hother'
  exact absurd (Option.some.inj (hother'.symm.trans hholder)) hother

/-- An operation that asks for something that the processes do not depend on. -/
theorem triple_ask (op : Op) (hstable : protocol.Stable pid fact)
    (hstate : ∀ outcome (host : Host), (host.exec pid op outcome).2 = host) :
    protocol.Triple pid fact op.run fun _ ↦ fact :=
  Protocol.Triple.read hstable hstate fun _ _ _ _ hfact _ ↦ hfact

theorem triple_arguments :
    protocol.Triple pid (fun _ ↦ True) arguments fun answer host ↦ host.arguments pid = answer :=
  Protocol.Triple.read (lasting_true pid).stable (fun _ _ ↦ rfl) fun _ _ _ _ _ _ ↦ rfl

/-! ### The lifecycle lock -/

theorem triple_acquireLifecycleLock (h : Lasting pid fact) :
    protocol.Triple pid fact acquireLifecycleLock fun acquired host ↦
      if acquired then Holding pid fact host else fact host := by
  apply Protocol.Triple.perform h.stable
  intro host outcome hinv _ hfact _
  by_cases hfree : (!outcome.refused && host.lockIsFree) = true
  · simp only [machine, exec, if_pos hfree, if_true]
    refine ⟨keeps_of_same hinv ⟨rfl, rfl, rfl, rfl⟩ (.inr rfl) fun other _ halive hholder ↦ ?_, rfl,
      h.same host _ ⟨rfl, rfl, rfl, rfl⟩ hfact⟩
    have hdead : host.status other = .dead := by
      simpa [lockIsFree, hholder] using (Bool.and_eq_true_iff.mp hfree).2
    exact absurd hdead halive
  · simp only [machine, exec, if_neg hfree, Bool.false_eq_true, if_false]
    exact ⟨.refl hinv, hfact⟩

theorem triple_releaseLifecycleLock (h : Lasting pid fact) :
    protocol.Triple pid (Holding pid fact) releaseLifecycleLock fun _ ↦ fact := by
  apply Protocol.Triple.perform h.held.stable
  rintro host outcome hinv _ ⟨hholder, hfact⟩ _
  simp only [machine, exec, if_pos hholder]
  refine ⟨keeps_of_same hinv ⟨rfl, rfl, rfl, rfl⟩ (.inr rfl) fun other hother _ hother' ↦ ?_,
    h.same host _ ⟨rfl, rfl, rfl, rfl⟩ hfact⟩
  exact absurd (Option.some.inj (hother'.symm.trans hholder)) hother

/-! ### The record files -/

theorem triple_readRecord (file : RecordFile) (h : LastingHeld pid fact) :
    protocol.Triple pid (Holding pid fact) (readRecord file) fun answer ↦
      Holding pid fun host ↦ fact host ∧ Reading answer host :=
  Protocol.Triple.read h.stable (fun _ _ ↦ rfl) fun _ _ hinv _ hpre _ ↦
    ⟨hpre.1, hpre.2, hinv.reading file⟩

theorem triple_stateFileExists (h : LastingHeld pid fact) :
    protocol.Triple pid (Holding pid fact) stateFileExists fun answer ↦
      Holding pid fun host ↦ fact host ∧ (answer = false → host.Idle) := by
  apply Protocol.Triple.read h.stable fun _ _ ↦ rfl
  rintro host outcome hinv _ ⟨hholder, hfact⟩ _
  refine ⟨hholder, hfact, fun hanswer ↦ hinv.unserved_of_files .state fun record _ hfile ↦ ?_⟩
  simp [machine, exec, hfile] at hanswer

theorem triple_removeRecordFile (file : RecordFile) (h : LastingHeld pid fact)
    (hidle : ∀ host, host.Inv → fact host → host.Idle) :
    protocol.Triple pid (Holding pid fact) (removeRecordFile file) fun _ ↦ Holding pid fact := by
  apply Protocol.Triple.perform h.stable
  rintro host outcome hinv _ ⟨hholder, hfact⟩ _
  cases hrefused : outcome.refused with
  | true =>
    simp only [machine, exec, hrefused, if_true]
    exact ⟨.refl hinv, hholder, hfact⟩
  | false =>
    simp only [machine, exec, hrefused, Bool.false_eq_true, if_false]
    exact ⟨keeps_setFile hinv hholder (hidle host hinv hfact) file none, hholder,
      h.same host _ ⟨rfl, rfl, rfl, rfl⟩ hfact⟩

/-- The lock file is created when there is none, and then no live process is past its record
writes. -/
theorem triple_writeNewRecord (record : DaemonRecord) (h : LastingHeld pid fact) :
    protocol.Triple pid (Holding pid fact) (writeNewRecord record) fun _ ↦ Holding pid fact := by
  apply Protocol.Triple.perform h.stable
  rintro host outcome hinv _ ⟨hholder, hfact⟩ _
  have hset (hfile : host.files .lock = none) (content : Option Content) :
      protocol.Keeps pid host (host.setFile .lock content) ∧
        Holding pid fact (host.setFile .lock content) := by
    have hidle : host.Idle := hinv.unserved_of_files .lock fun record _ ↦ by simp [hfile]
    exact ⟨keeps_setFile hinv hholder hidle .lock content, hholder,
      h.same host _ ⟨rfl, rfl, rfl, rfl⟩ hfact⟩
  simp only [machine, exec, Host.writeNewRecord]
  split_ifs
  · exact ⟨.refl hinv, hholder, hfact⟩
  all_goals
    cases hfile : host.files .lock with
    | some content => exact ⟨.refl hinv, hholder, hfact⟩
    | none => exact hset hfile _

theorem writeRecord_cases (file : RecordFile) (record : DaemonRecord) (outcome : Outcome) (host : Host) :
    host.writeRecord file record outcome = (true, host.setFile file (some (.record record))) ∨
      host.writeRecord file record outcome = (false, host) ∨
        ∃ content, host.writeRecord file record outcome = (false, host.setFile file content) := by
  cases hrefused : outcome.refused with
  | false =>
    left
    simp [Host.writeRecord, hrefused]
  | true =>
    right
    cases hreached : outcome.reached with
    | nothing => simp [Host.writeRecord, hrefused, hreached]
    | torn => exact .inr ⟨none, by simp [Host.writeRecord, hrefused, hreached]⟩
    | whole => exact .inr ⟨some (.record record), by simp [Host.writeRecord, hrefused, hreached]⟩

theorem triple_writeRecord_lock (record : DaemonRecord) (h : LastingHeld pid fact)
    (hidle : ∀ host, fact host → host.Idle) :
    protocol.Triple pid (Holding pid fact) (writeRecord .lock record) fun written host ↦
      Holding pid fact host ∧ (written = true → host.files .lock = some (.record record)) := by
  apply Protocol.Triple.perform h.stable
  rintro host outcome hinv _ ⟨hholder, hfact⟩ _
  have hset (content : Option Content) : protocol.Keeps pid host (host.setFile .lock content) ∧
      Holding pid fact (host.setFile .lock content) :=
    ⟨keeps_setFile hinv hholder (hidle host hfact) .lock content, hholder,
      h.same host _ ⟨rfl, rfl, rfl, rfl⟩ hfact⟩
  rcases writeRecord_cases .lock record outcome host with hresult | hresult | ⟨content, hresult⟩
  · simp only [machine, exec, hresult, reduceCtorEq, false_and, if_false]
    exact ⟨(hset _).1, (hset _).2, fun _ ↦ by simp⟩
  · simp only [machine, exec, hresult, reduceCtorEq, false_and, if_false]
    exact ⟨.refl hinv, ⟨hholder, hfact⟩, fun hwritten ↦ hwritten.elim⟩
  · simp only [machine, exec, hresult, reduceCtorEq, false_and, if_false]
    exact ⟨(hset content).1, (hset content).2, fun hwritten ↦ hwritten.elim⟩

/-- A process that serves has been the only one to, and both files hold its record. -/
theorem keeps_serve {host : Host} {record : DaemonRecord} (hinv : host.Inv)
    (hholder : host.holder = some pid) (hidle : host.Idle) (hlive : host.status pid = .live)
    (hfiles : ∀ file, host.files file = some (.record record)) (hpid : record.pid = pid)
    (hmode : record.mode ≠ .starting) (htoken : host.token pid = some record.token) :
    protocol.Keeps pid host (host.serve pid record) := by
  have hserving (other : U32) (served : DaemonRecord)
      (hserved : (host.serve pid record).serving other = some served) :
      other = pid ∧ served = record ∨ host.serving other = some served := by
    by_cases hother : other = pid
    · rw [serving_serve, hother, Function.update_self] at hserved
      exact .inl ⟨hother, (Option.some.inj hserved).symm⟩
    · rw [serving_serve, Function.update_of_ne hother] at hserved
      exact .inr hserved
  exact
    { inv :=
        { files := by
            rintro other served ⟨hstatus, hserved⟩
            rcases hserving other served hserved with ⟨-, rfl⟩ | hbefore
            · exact hfiles
            · exact absurd ⟨hstatus, hbefore⟩ hidle.not_serves
          own := by
            intro other served hserved
            rcases hserving other served hserved with ⟨rfl, rfl⟩ | hbefore
            · exact ⟨hpid, hmode, htoken⟩
            · exact hinv.own other served hbefore
          born := by
            intro other served hserved
            rcases hserving other served hserved with ⟨rfl, -⟩ | hbefore
            · exact fun hunborn ↦ by cases hlive.symm.trans hunborn
            · exact hinv.born other served hbefore
          unborn := hinv.unborn
          issued := hinv.issued }
      others := fun other hother ↦
        { dead := fun _ h ↦ h
          arguments := fun _ _ h ↦ h
          issuer := fun _ _ h ↦ h
          launched := fun _ _ _ h ↦ h
          held := fun _ hother' ↦ absurd (Option.some.inj (hother'.symm.trans hholder)) hother } }

theorem triple_writeRecord_state {record : DaemonRecord} {starterPid : U32} {foreground : Bool}
    (hpid : record.pid = pid) (hmode : record.mode ≠ .starting) :
    protocol.Triple pid
      (fun host ↦ Holding pid (fun host ↦ host.Idle ∧
          host.arguments pid = some (.daemon record.token starterPid foreground)) host ∧
        host.files .lock = some (.record record))
      (writeRecord .state record) fun _ ↦ Holding pid fun _ ↦ True := by
  apply Protocol.Triple.perform
  · rintro before after ⟨hpre, hfile⟩ hother hrunning
    have hlasting := (LastingHeld.unserved pid fun _ ↦ True).and
      (lasting_arguments pid pid (.daemon record.token starterPid foreground)).held
    refine ⟨hlasting.stable before after hpre hother hrunning, ?_⟩
    rw [(hother.held (ne_dead_of_running hrunning) hpre.1).2.1]
    exact hfile
  · rintro host outcome hinv hrunning ⟨⟨hholder, hidle, harguments⟩, hfile⟩ _
    have hset (content : Option Content) : protocol.Keeps pid host (host.setFile .state content) :=
      keeps_setFile hinv hholder hidle .state content
    rcases writeRecord_cases .state record outcome host with hresult | hresult | ⟨content, hresult⟩
    · simp only [machine, exec, hresult, and_self, if_true]
      have hserve : protocol.Keeps pid (host.setFile .state (some (.record record)))
          ((host.setFile .state (some (.record record))).serve pid record) := by
        apply keeps_serve (hset _).inv hholder hidle (live_of_running hrunning) _ hpid hmode
        · simp [Host.token, setFile, harguments, Arguments.token]
        · intro file
          cases file with
          | lock => simpa using hfile
          | state => simp
      refine ⟨⟨hserve.inv, fun other hother ↦ ?_⟩, hholder, trivial⟩
      exact Other.trans other _ _ _ ((hset _).others other hother) (hserve.others other hother)
    · simp only [machine, exec, hresult, Bool.false_eq_true, and_false, if_false]
      exact ⟨.refl hinv, hholder, trivial⟩
    · simp only [machine, exec, hresult, Bool.false_eq_true, and_false, if_false]
      exact ⟨hset content, hholder, trivial⟩

/-! ### The stop file -/

theorem keeps_stopFile {host : Host} (hinv : host.Inv) (content : Option String) :
    protocol.Keeps pid host { host with stopFile := content } :=
  keeps_of_same hinv ⟨rfl, rfl, rfl, rfl⟩ (.inr rfl) fun _ _ _ hholder ↦ ⟨hholder, rfl⟩

theorem triple_writeStopFile (token : String) (hstable : protocol.Stable pid fact)
    (hstop : ∀ host content, fact host → fact { host with stopFile := content }) :
    protocol.Triple pid fact (writeStopFile token) fun _ ↦ fact := by
  apply Protocol.Triple.perform hstable
  intro host outcome hinv _ hfact _
  cases hrefused : outcome.refused with
  | true =>
    simp only [machine, exec, hrefused, if_true]
    exact ⟨keeps_stopFile hinv _, hstop host _ hfact⟩
  | false =>
    simp only [machine, exec, hrefused, Bool.false_eq_true, if_false]
    exact ⟨keeps_stopFile hinv _, hstop host _ hfact⟩

theorem triple_removeStopFile (hstable : protocol.Stable pid fact)
    (hstop : ∀ host content, fact host → fact { host with stopFile := content }) :
    protocol.Triple pid fact removeStopFile fun _ ↦ fact := by
  apply Protocol.Triple.perform hstable
  intro host outcome hinv _ hfact _
  cases hrefused : outcome.refused with
  | true =>
    simp only [machine, exec, hrefused, if_true]
    exact ⟨.refl hinv, hfact⟩
  | false =>
    simp only [machine, exec, hrefused, Bool.false_eq_true, if_false]
    exact ⟨keeps_stopFile hinv _, hstop host _ hfact⟩

/-! ### Processes -/

theorem triple_isProcessRunning (other : U32) (h : LastingHeld pid fact) :
    protocol.Triple pid (Holding pid fact) (isProcessRunning other) fun running ↦
      Holding pid fun host ↦ fact host ∧
        (running = false → host.Unserved fun record ↦ record.pid = other) := by
  apply Protocol.Triple.read h.stable fun _ _ ↦ rfl
  rintro host outcome hinv _ ⟨hholder, hfact⟩ _
  exact ⟨hholder, hfact, fun hrunning ↦ hinv.unserved_of_not_running (of_decide_eq_false hrunning)⟩

theorem triple_generateToken (h : LastingHeld pid fact) :
    protocol.Triple pid (Holding pid fact) generateToken fun token ↦
      Holding pid (Issued pid token []) := by
  apply Protocol.Triple.perform h.stable
  rintro host outcome hinv _ ⟨hholder, -⟩ hcondition
  have hfresh := hcondition.1 rfl
  refine ⟨⟨inv_issue hinv, fun other _ ↦ other_issue hfresh other⟩, hholder,
    Function.update_self _ _ _, fun child hchild ↦ ?_⟩
  exact absurd hfresh (hinv.issued child _ hchild)

theorem triple_spawn (token : String) (foreground : Bool) :
    protocol.Triple pid (Holding pid (Issued pid token [])) (spawn token foreground) fun child ↦
      Holding pid (Issued pid token child.toList) := by
  apply Protocol.Triple.perform (lasting_issued pid token []).held.stable
  rintro host outcome hinv _ ⟨hholder, hissuer, hchildren⟩ hcondition
  cases hrefused : outcome.refused with
  | true =>
    simp only [machine, exec, hrefused, if_true]
    exact ⟨.refl hinv, hholder, hissuer, hchildren⟩
  | false =>
    simp only [machine, exec, hrefused, Bool.false_eq_true, if_false]
    have hunborn : host.status outcome.child = .unborn := hcondition.2.1 rfl
    have htoken (token' : String) (h : token' ∈ (Arguments.daemon token pid foreground).token) :
        host.issuer token' = some pid := by
      rwa [← Option.some.inj h]
    refine ⟨⟨?_, fun other hother ↦ ?_⟩, hholder, hissuer, fun child hchild ↦ ?_⟩
    · apply inv_launch hinv hunborn
      intro token' h
      simp [htoken token' h]
    · apply other_launch hinv hunborn
      intro token' h
      simpa [htoken token' h] using hother.symm
    · by_cases heq : child = outcome.child
      · simp [heq]
      · rw [token_launch_of_ne _ heq] at hchild
        cases hchildren child hchild

theorem triple_tryWait (child : U32) (hstable : protocol.Stable pid fact) :
    protocol.Triple pid fact (tryWait child) fun exited host ↦
      fact host ∧ (exited = true → host.status child = .dead) :=
  Protocol.Triple.read hstable (fun _ _ ↦ rfl) fun _ _ _ _ hfact _ ↦
    ⟨hfact, fun hexited ↦ of_decide_eq_true hexited⟩

theorem triple_wait (child : U32) (hstable : protocol.Stable pid fact) :
    protocol.Triple pid fact (wait child) fun _ host ↦ fact host ∧ host.status child = .dead :=
  Protocol.Triple.read hstable (fun _ _ ↦ rfl) fun _ _ _ _ hfact hcondition ↦
    ⟨hfact, hcondition.2.2 child rfl⟩

theorem triple_kill (child : U32) (token : String) (children : List U32) :
    protocol.Triple pid (Issued pid token children) (kill child) fun _ ↦
      Issued pid token children := by
  apply Protocol.Triple.perform (lasting_issued pid token children).stable
  intro host outcome hinv _ hissued _
  cases hrefused : outcome.refused with
  | true =>
    simp only [machine, exec, hrefused, if_true]
    exact ⟨.refl hinv, hissued⟩
  | false =>
    simp only [machine, exec, hrefused, Bool.false_eq_true, if_false]
    exact ⟨⟨inv_kill hinv, fun other _ ↦ other_kill other⟩, hissued⟩

end Operations

end FerrisBridge.Daemon
