import Mathlib.Data.List.Infix
import Mathlib.Logic.Function.Basic

/-!
# Storage behind a cache

A directory of files that lie in a cache before they are stored. The names stand for files, and names
and contents are stored apart: until the entries of the directory have been stored, a crash may bring
back any earlier one, for every name on its own, and it leaves anything in a file whose content has not
been stored. Whatever storage the system does by itself is one of these choices.

A name is solid when all files that it stands for or may stand for after a crash are stored; the
contents under a solid name outlive every crash.
-/

namespace Foundations

structure StoredFile (β : Type) where
  content : List β
  stored : Bool
  deriving DecidableEq, Repr

/-- The files, the file behind each name, and the entries of a name before it that are still stored. -/
structure Directory (Name β : Type) where
  files : ℕ → StoredFile β
  next : ℕ
  entries : Name → Option ℕ
  earlier : Name → List (Option ℕ)

/-- What a crash makes of the names and of the contents that have not been stored. -/
structure Loss (Name β : Type) where
  entry : Name → ℕ
  content : ℕ → List β

namespace Directory

variable {Name β : Type}

/-- The entries that a name has, or may have after a crash. -/
def possible (directory : Directory Name β) (name : Name) : List (Option ℕ) :=
  directory.entries name :: directory.earlier name

def contentOf (directory : Directory Name β) (entry : Option ℕ) : Option (List β) :=
  entry.map fun file ↦ (directory.files file).content

/-- The content under a name. -/
def read (directory : Directory Name β) (name : Name) : Option (List β) :=
  directory.contentOf (directory.entries name)

/-! ## Operations -/

section Names

variable [DecidableEq Name]

def setEntry (directory : Directory Name β) (name : Name) (entry : Option ℕ) : Directory Name β :=
  { directory with
    entries := Function.update directory.entries name entry
    earlier := Function.update directory.earlier name (directory.possible name) }

/-- A new empty file under a name. -/
def create (directory : Directory Name β) (name : Name) : Directory Name β :=
  { directory.setEntry name (some directory.next) with
    files := Function.update directory.files directory.next ⟨[], false⟩
    next := directory.next + 1 }

/-- The file under the one name replaces the file under the other. -/
def rename (directory : Directory Name β) (source target : Name) : Directory Name β :=
  (directory.setEntry target (directory.entries source)).setEntry source none

def remove (directory : Directory Name β) (name : Name) : Directory Name β :=
  directory.setEntry name none

end Names

def setFile (directory : Directory Name β) (file : ℕ) (value : StoredFile β) : Directory Name β :=
  { directory with files := Function.update directory.files file value }

def append (directory : Directory Name β) (file : ℕ) (bytes : List β) : Directory Name β :=
  directory.setFile file ⟨(directory.files file).content ++ bytes, false⟩

/-- The content of a file is stored. -/
def store (directory : Directory Name β) (file : ℕ) : Directory Name β :=
  directory.setFile file ⟨(directory.files file).content, true⟩

/-- The entries of the directory are stored. -/
def storeEntries (directory : Directory Name β) : Directory Name β :=
  { directory with earlier := fun _ ↦ [] }

/-- The entry that a crash leaves of a name. -/
def survivor (directory : Directory Name β) (loss : Loss Name β) (name : Name) : Option ℕ :=
  ((directory.possible name)[loss.entry name]?).getD (directory.entries name)

def crash (directory : Directory Name β) (loss : Loss Name β) : Directory Name β where
  files file :=
    if (directory.files file).stored then directory.files file else ⟨loss.content file, true⟩
  next := directory.next
  entries := directory.survivor loss
  earlier _ := []

/-- All names are gone. -/
def clear (directory : Directory Name β) : Directory Name β :=
  { directory with entries := fun _ ↦ none, earlier := fun _ ↦ [] }

variable {directory : Directory Name β} {name : Name} {entry : Option ℕ} {file : ℕ}

@[simp] theorem files_setFile_self {value : StoredFile β} :
    (directory.setFile file value).files file = value :=
  Function.update_self ..

theorem files_setFile_of_ne {value : StoredFile β} {other : ℕ} (h : other ≠ file) :
    (directory.setFile file value).files other = directory.files other :=
  Function.update_of_ne h ..

/-! ## Possible entries -/

@[simp] theorem possible_setFile {value : StoredFile β} :
    (directory.setFile file value).possible name = directory.possible name := rfl

@[simp] theorem possible_append {bytes : List β} :
    (directory.append file bytes).possible name = directory.possible name := rfl

@[simp] theorem possible_store : (directory.store file).possible name = directory.possible name := rfl

@[simp] theorem possible_storeEntries :
    directory.storeEntries.possible name = [directory.entries name] := rfl

@[simp] theorem possible_crash {loss : Loss Name β} :
    (directory.crash loss).possible name = [directory.survivor loss name] := rfl

@[simp] theorem possible_clear : directory.clear.possible name = [none] := rfl

theorem entry_mem_possible : directory.entries name ∈ directory.possible name := List.mem_cons_self

theorem survivor_mem_possible (directory : Directory Name β) (loss : Loss Name β) (name : Name) :
    directory.survivor loss name ∈ directory.possible name := by
  rw [survivor]
  cases hentry : (directory.possible name)[loss.entry name]? with
  | none => exact entry_mem_possible
  | some entry => exact List.mem_of_getElem? hentry

section Names

variable [DecidableEq Name] {other source target : Name}

@[simp] theorem entries_setEntry_self : (directory.setEntry name entry).entries name = entry :=
  Function.update_self ..

theorem entries_setEntry_of_ne (h : other ≠ name) :
    (directory.setEntry name entry).entries other = directory.entries other :=
  Function.update_of_ne h ..

@[simp] theorem possible_setEntry_self :
    (directory.setEntry name entry).possible name = entry :: directory.possible name :=
  congrArg₂ List.cons entries_setEntry_self (Function.update_self ..)

theorem possible_setEntry_of_ne (h : other ≠ name) :
    (directory.setEntry name entry).possible other = directory.possible other :=
  congrArg₂ List.cons (entries_setEntry_of_ne h) (Function.update_of_ne h ..)

theorem possible_create_of_ne (directory : Directory Name β) (h : other ≠ name) :
    (directory.create name).possible other = directory.possible other :=
  possible_setEntry_of_ne h

theorem possible_create_self :
    (directory.create name).possible name = some directory.next :: directory.possible name :=
  possible_setEntry_self

theorem possible_remove_of_ne (directory : Directory Name β) (h : other ≠ name) :
    (directory.remove name).possible other = directory.possible other :=
  possible_setEntry_of_ne h

theorem possible_rename_target (h : target ≠ source) :
    (directory.rename source target).possible target =
      directory.entries source :: directory.possible target := by
  rw [rename, possible_setEntry_of_ne h, possible_setEntry_self]

theorem entries_rename_target (h : target ≠ source) :
    (directory.rename source target).entries target = directory.entries source := by
  rw [rename, entries_setEntry_of_ne h, entries_setEntry_self]

theorem entries_rename_of_ne (hsource : other ≠ source) (htarget : other ≠ target) :
    (directory.rename source target).entries other = directory.entries other := by
  rw [rename, entries_setEntry_of_ne hsource, entries_setEntry_of_ne htarget]

theorem entries_create_of_ne (h : other ≠ name) :
    (directory.create name).entries other = directory.entries other :=
  entries_setEntry_of_ne h

theorem entries_remove_of_ne (h : other ≠ name) :
    (directory.remove name).entries other = directory.entries other :=
  entries_setEntry_of_ne h

end Names

/-! ## Files that exist -/

/-- The names stand for files that have been created. -/
def Bounded (directory : Directory Name β) : Prop :=
  ∀ name, ∀ entry ∈ directory.possible name, ∀ file ∈ entry, file < directory.next

theorem Bounded.ne_next (h : directory.Bounded) (hentry : entry ∈ directory.possible name)
    (hfile : file ∈ entry) : file ≠ directory.next :=
  (h name entry hentry file hfile).ne

theorem Bounded.storeEntries (h : directory.Bounded) : directory.storeEntries.Bounded := by
  intro name entry hentry file hfile
  obtain rfl := List.mem_singleton.mp hentry
  exact h name _ entry_mem_possible file hfile

theorem Bounded.crash (h : directory.Bounded) (loss : Loss Name β) :
    (directory.crash loss).Bounded := by
  intro name entry hentry file hfile
  obtain rfl := List.mem_singleton.mp hentry
  exact h name _ (directory.survivor_mem_possible loss name) file hfile

theorem Bounded.clear : directory.clear.Bounded := by
  intro name entry hentry file hfile
  obtain rfl := List.mem_singleton.mp hentry
  cases hfile

theorem Bounded.setEntry [DecidableEq Name] (h : directory.Bounded)
    (hentry : ∀ file ∈ entry, file < directory.next) : (directory.setEntry name entry).Bounded := by
  intro other entry' hentry' file hfile
  by_cases hother : other = name
  · rw [hother, possible_setEntry_self] at hentry'
    rcases List.mem_cons.mp hentry' with rfl | hentry'
    · exact hentry file hfile
    · exact h name entry' hentry' file hfile
  · rw [possible_setEntry_of_ne hother] at hentry'
    exact h other entry' hentry' file hfile

theorem Bounded.create [DecidableEq Name] (h : directory.Bounded) : (directory.create name).Bounded := by
  intro other entry hentry file hfile
  by_cases hother : other = name
  · rw [hother, possible_create_self] at hentry
    rcases List.mem_cons.mp hentry with rfl | hentry
    · obtain rfl := Option.some.inj hfile
      exact Nat.lt_succ_self _
    · exact (h name entry hentry file hfile).trans (Nat.lt_succ_self _)
  · rw [possible_create_of_ne directory hother] at hentry
    exact (h other entry hentry file hfile).trans (Nat.lt_succ_self _)

theorem Bounded.rename [DecidableEq Name] (h : directory.Bounded) {source target : Name} :
    (directory.rename source target).Bounded :=
  (h.setEntry fun file hfile ↦ h source _ entry_mem_possible file hfile).setEntry
    fun file hfile ↦ by cases hfile

theorem Bounded.remove [DecidableEq Name] (h : directory.Bounded) : (directory.remove name).Bounded :=
  h.setEntry fun file hfile ↦ by cases hfile

/-! ## Solid names -/

/-- The file is none that the name stands for, now or after a crash. -/
def Apart (directory : Directory Name β) (name : Name) (file : ℕ) : Prop :=
  some file ∉ directory.possible name

/-- All files that the name may stand for are stored. -/
def Solid (directory : Directory Name β) (name : Name) : Prop :=
  ∀ entry ∈ directory.possible name, ∀ file ∈ entry, (directory.files file).stored = true

theorem Solid.setFile {value : StoredFile β} (h : directory.Solid name)
    (hfile : directory.Apart name file) : (directory.setFile file value).Solid name := by
  intro entry hentry other hother
  have hne : other ≠ file := by
    rintro rfl
    obtain rfl := Option.mem_def.mp hother
    exact hfile hentry
  rw [files_setFile_of_ne hne]
  exact h entry hentry other hother

theorem Solid.storeEntries (h : directory.Solid name) : directory.storeEntries.Solid name := by
  intro entry hentry file hfile
  obtain rfl := List.mem_singleton.mp hentry
  exact h _ entry_mem_possible file hfile

/-- A crash leaves what is stored. -/
theorem files_crash {loss : Loss Name β} (h : (directory.files file).stored = true) :
    (directory.crash loss).files file = directory.files file :=
  if_pos h

theorem Solid.crash (h : directory.Solid name) (loss : Loss Name β) :
    (directory.crash loss).Solid name := by
  intro entry hentry file hfile
  obtain rfl := List.mem_singleton.mp hentry
  have hstored := h _ (directory.survivor_mem_possible loss name) file hfile
  rwa [files_crash hstored]

theorem Solid.contentOf_crash (h : directory.Solid name) {loss : Loss Name β}
    (hentry : entry ∈ directory.possible name) :
    (directory.crash loss).contentOf entry = directory.contentOf entry := by
  cases entry with
  | none => rfl
  | some file =>
    rw [contentOf, contentOf, Option.map_some, Option.map_some, files_crash (h _ hentry file rfl)]

/-- Under a solid name a crash leaves one of the contents that it may stand for. -/
theorem Solid.read_crash (h : directory.Solid name) (loss : Loss Name β) :
    (directory.crash loss).read name = directory.contentOf (directory.survivor loss name) :=
  h.contentOf_crash (directory.survivor_mem_possible loss name)

end Directory

end Foundations
