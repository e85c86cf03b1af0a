import Mathlib.Data.List.Infix
import Mathlib.Data.Option.Basic

/-!
# Paths and file systems

A path by what it starts with and the parts that follow, as a Unix system reads its text, and what may
be relied on when a file system resolves one. A tree of directories, files and links is such a file
system.
-/

namespace Foundations

/-! ## Paths -/

namespace PathBuf

inductive Part
  | parentDir
  | normal (name : String)
  deriving DecidableEq

/-- What precedes the parts: a slash, a dot, or nothing. -/
inductive Start
  | rootDir
  | curDir
  | plain
  deriving DecidableEq

end PathBuf

/-- A path, with whether its text ends in a slash. -/
@[ext]
structure PathBuf where
  start : PathBuf.Start
  parts : List PathBuf.Part
  slash : Bool
  deriving DecidableEq

namespace PathBuf

def empty : PathBuf := ⟨.plain, [], false⟩

/-- The path without the slash at its end. -/
def bare (path : PathBuf) : PathBuf := { path with slash := false }

/-- Paths compare by their components, so that a slash at the end does not count. -/
def Same (path other : PathBuf) : Prop := path.start = other.start ∧ path.parts = other.parts

instance (path other : PathBuf) : Decidable (path.Same other) :=
  inferInstanceAs (Decidable (_ ∧ _))

def fileName (path : PathBuf) : Option String :=
  match path.parts.getLast? with
  | some (.normal name) => some name
  | _ => none

/-- The parent directory; the root and the empty path have none. -/
def pop (path : PathBuf) : Option PathBuf :=
  if path.parts ≠ [] then some ⟨path.start, path.parts.dropLast, false⟩
  else if path.start = .curDir then some empty
  else none

/-- How often a path can be popped. -/
def depth (path : PathBuf) : ℕ := path.parts.length + if path.start = .curDir then 1 else 0

def push (path : PathBuf) (part : Part) : PathBuf := ⟨path.start, path.parts ++ [part], false⟩

/-- The path with another name at its end, in place of the one that it ends in. -/
def withFileName (path : PathBuf) (name : String) : PathBuf :=
  if path.fileName.isSome then (path.pop.getD path).push (.normal name) else path.push (.normal name)

/-- The text of a path. -/
def display (path : PathBuf) : String :=
  let names := path.parts.map fun
    | .parentDir => ".."
    | .normal name => name
  let text := match path.start with
    | .rootDir => "/" ++ "/".intercalate names
    | .curDir => "/".intercalate ("." :: names)
    | .plain => "/".intercalate names
  if path.slash ∧ path.parts ≠ [] then text ++ "/" else text

/-- Joining an empty path leaves a slash at the end. -/
def join (path tail : PathBuf) : PathBuf :=
  if tail.start = .rootDir ∨ path.Same empty then tail
  else ⟨path.start, path.parts ++ tail.parts, tail.slash || tail.parts.isEmpty⟩

def stripPrefix (path base : PathBuf) : Option PathBuf :=
  if base.start = path.start ∧ base.parts.isPrefixOf path.parts then
    some ⟨.plain, path.parts.drop base.parts.length, false⟩
  else if base.Same empty ∧ path.start = .curDir then some path.bare
  else none

/-- The absolute form, without a look at the file system. -/
def absolute (path : PathBuf) (currentDir : Option PathBuf) : Option PathBuf :=
  if path.Same empty then none
  else if path.start = .rootDir then some path
  else currentDir.map fun dir ↦ ⟨dir.start, dir.parts ++ path.parts, path.slash⟩

/-- The path of the names from the root. -/
def ofNames (names : List String) : PathBuf := ⟨.rootDir, names.map .normal, false⟩

/-- An absolute path of names only. -/
structure Canonical (path : PathBuf) : Prop where
  start : path.start = .rootDir
  parts : ∀ part ∈ path.parts, part ≠ .parentDir
  slash : path.slash = false

variable {path other : PathBuf} {front tail : List Part}

theorem canonical_ofNames (names : List String) : (ofNames names).Canonical where
  start := rfl
  parts := by simp [ofNames]
  slash := rfl

theorem Canonical.eq_bare (h : path.Canonical) : path = ⟨.rootDir, path.parts, false⟩ := by
  obtain ⟨start, parts, slash⟩ := path
  obtain rfl := h.start
  obtain rfl := h.slash
  rfl

theorem not_same_empty (hstart : path.start = .rootDir) : ¬path.Same .empty := by
  rintro ⟨hplain, -⟩
  rw [hstart] at hplain
  cases hplain

/-- Joining to an absolute path. -/
theorem join_plain (hstart : path.start = .rootDir) (tail : List Part) (slash : Bool) :
    path.join ⟨.plain, tail, slash⟩ = ⟨.rootDir, path.parts ++ tail, slash || tail.isEmpty⟩ := by
  have hroot : Start.plain ≠ .rootDir := fun h ↦ by cases h
  rw [join, if_neg (not_or_intro hroot (not_same_empty hstart)), hstart]

theorem pop_snoc (start : Start) (parts : List Part) (part : Part) (slash : Bool) :
    pop ⟨start, parts ++ [part], slash⟩ = some ⟨start, parts, false⟩ := by
  simp [pop]

theorem withFileName_injective {name name' : String}
    (h : path.withFileName name = path.withFileName name') : name = name' := by
  have hpush (front : PathBuf) (heq : front.push (.normal name) = front.push (.normal name')) :
      name = name' :=
    Part.normal.inj (List.singleton_inj.mp (List.append_cancel_left (congrArg parts heq)))
  rw [withFileName, withFileName] at h
  split_ifs at h
  · exact hpush _ h
  · exact hpush _ h

theorem depth_lt_of_pop {parent : PathBuf} (h : path.pop = some parent) :
    parent.depth < path.depth := by
  rw [pop] at h
  by_cases hparts : path.parts ≠ []
  · rw [if_pos hparts] at h
    obtain rfl := Option.some.inj h
    have hlength : path.parts.dropLast.length < path.parts.length := by
      rw [List.length_dropLast]
      have := List.length_pos_iff.mpr hparts
      omega
    simp only [depth]
    omega
  · rw [if_neg hparts] at h
    by_cases hstart : path.start = .curDir
    · rw [if_pos hstart] at h
      obtain rfl := Option.some.inj h
      simp [depth, hstart, empty]
    · rw [if_neg hstart] at h
      cases h

theorem parts_of_fileName {name : String} (h : path.fileName = some name) :
    ∃ front, path.parts = front ++ [.normal name] := by
  rw [fileName] at h
  cases hlast : path.parts.getLast? with
  | none =>
    simp only [hlast] at h
    cases h
  | some part =>
    cases part with
    | parentDir =>
      simp only [hlast] at h
      cases h
    | normal other =>
      simp only [hlast] at h
      obtain rfl := Option.some.inj h
      exact List.getLast?_eq_some_iff.mp hlast

theorem parts_of_pop {parent : PathBuf} (hstart : path.start = .rootDir)
    (h : path.pop = some parent) :
    ∃ front part, path.parts = front ++ [part] ∧ parent = ⟨.rootDir, front, false⟩ := by
  obtain ⟨start, parts, slash⟩ := path
  obtain rfl : start = .rootDir := hstart
  cases parts using List.reverseRecOn with
  | nil => cases h
  | append_singleton front part =>
    rw [pop_snoc] at h
    exact ⟨front, part, rfl, (Option.some.inj h).symm⟩

theorem start_of_pop {parent : PathBuf} (hstart : path.start ≠ .rootDir)
    (h : path.pop = some parent) : parent.start ≠ .rootDir := by
  rw [pop] at h
  split_ifs at h
  · obtain rfl := Option.some.inj h
    exact hstart
  · obtain rfl := Option.some.inj h
    exact fun hempty ↦ by cases hempty

theorem stripPrefix_append (start : Start) (slash between : Bool) :
    stripPrefix ⟨start, front ++ tail, slash⟩ ⟨start, front, between⟩ =
      some ⟨.plain, tail, false⟩ := by
  rw [stripPrefix, if_pos]
  · simp
  · exact ⟨rfl, List.isPrefixOf_iff_prefix.mpr (List.prefix_append front tail)⟩

end PathBuf

/-! ## File systems -/

/-- A file system that does not change. Canonical forms are absolute, so that relative paths have none
without a current directory. -/
structure FileSystem where
  currentDir : Option PathBuf
  canonicalize : PathBuf → Option PathBuf
  currentDir_absolute : ∀ dir, currentDir = some dir → dir.start = .rootDir
  canonical : ∀ path target, canonicalize path = some target → target.Canonical
  fixed : ∀ path target, canonicalize path = some target → canonicalize target = some target
  ancestor : ∀ path target parent, path.start = .rootDir → canonicalize path = some target →
    path.pop = some parent → ∃ other, canonicalize parent = some other
  join : ∀ path target tail, canonicalize path = some target → tail.start ≠ .rootDir →
    canonicalize (target.join tail) = canonicalize (path.join tail)
  relative : currentDir = none → ∀ path, path.start ≠ .rootDir → canonicalize path = none

/-! ## Trees -/

inductive Node
  | directory
  | file
  | link (target : List String)
  deriving DecidableEq

/-- The names lead from the root through directories, without a link. -/
inductive Direct (nodes : List String → Option Node) : List String → Prop
  | root : Direct nodes []
  | child {names : List String} {name : String} {node : Node} : Direct nodes names →
    nodes names = some .directory → nodes (names ++ [name]) = some node →
    (∀ target, node ≠ .link target) → Direct nodes (names ++ [name])

/-- What is found at each name, where links lead to what is no link. -/
structure FileTree where
  nodes : List String → Option Node
  currentDir : Option (List String)
  currentDir_direct : ∀ dir, currentDir = some dir → Direct nodes dir
  link_direct : ∀ names target, nodes names = some (.link target) → Direct nodes target

namespace FileTree

variable (tree : FileTree)

/-- One part further, which is possible from a directory only. -/
def step (names : List String) (part : PathBuf.Part) : Option (List String) :=
  if tree.nodes names = some .directory then
    match part with
    | .parentDir => some names.dropLast
    | .normal name =>
      match tree.nodes (names ++ [name]) with
      | none => none
      | some (.link target) => some target
      | some _ => some (names ++ [name])
  else none

/-- Where a path starts; the empty path starts nowhere. -/
def origin (path : PathBuf) : Option (List String) :=
  match path.start with
  | .rootDir => some []
  | .curDir => tree.currentDir
  | .plain => if path.parts = [] then none else tree.currentDir

def resolve (path : PathBuf) : Option (List String) :=
  (tree.origin path).bind (path.parts.foldlM tree.step)

/-- A slash at the end asks for a directory. -/
def canonicalize (path : PathBuf) : Option PathBuf :=
  (tree.resolve path).bind fun names ↦
    if path.slash = true ∧ tree.nodes names ≠ some .directory then none else some (.ofNames names)

variable {tree} {names next : List String} {path target : PathBuf}

theorem direct_dropLast (h : Direct tree.nodes names) : Direct tree.nodes names.dropLast := by
  cases h with
  | root => exact .root
  | child hparent =>
    rw [List.dropLast_concat]
    exact hparent

theorem direct_step {part : PathBuf.Part} (h : Direct tree.nodes names)
    (hstep : tree.step names part = some next) : Direct tree.nodes next := by
  unfold step at hstep
  by_cases hdirectory : tree.nodes names = some .directory
  · rw [if_pos hdirectory] at hstep
    cases part with
    | parentDir =>
      obtain rfl := Option.some.inj hstep
      exact direct_dropLast h
    | normal name =>
      cases hnode : tree.nodes (names ++ [name]) with
      | none =>
        simp only [hnode] at hstep
        cases hstep
      | some node =>
        cases node with
        | link target =>
          simp only [hnode] at hstep
          obtain rfl := Option.some.inj hstep
          exact tree.link_direct _ _ hnode
        | directory =>
          simp only [hnode] at hstep
          obtain rfl := Option.some.inj hstep
          exact .child h hdirectory hnode (fun target htarget ↦ by cases htarget)
        | file =>
          simp only [hnode] at hstep
          obtain rfl := Option.some.inj hstep
          exact .child h hdirectory hnode (fun target htarget ↦ by cases htarget)
  · rw [if_neg hdirectory] at hstep
    cases hstep

theorem direct_foldlM {parts : List PathBuf.Part} (h : Direct tree.nodes names)
    (hparts : parts.foldlM tree.step names = some next) : Direct tree.nodes next := by
  induction parts generalizing names with
  | nil =>
    obtain rfl := Option.some.inj hparts
    exact h
  | cons part rest ih =>
    rw [List.foldlM_cons] at hparts
    obtain ⟨between, hbetween, hrest⟩ := Option.bind_eq_some_iff.mp hparts
    exact ih (direct_step h hbetween) hrest

/-- Direct names lead to themselves. -/
theorem foldlM_normal (h : Direct tree.nodes names) :
    (names.map PathBuf.Part.normal).foldlM tree.step [] = some names := by
  induction h with
  | root => rfl
  | @child names name node _ hdirectory hnode hlink ih =>
    rw [List.map_append, List.foldlM_append, ih]
    have hstep : tree.step names (.normal name) = some (names ++ [name]) := by
      rw [step, if_pos hdirectory]
      cases node with
      | link target => exact absurd rfl (hlink target)
      | directory => simp only [hnode]
      | file => simp only [hnode]
    simp [hstep]

theorem direct_origin (h : tree.origin path = some names) : Direct tree.nodes names := by
  rw [origin] at h
  cases hstart : path.start with
  | rootDir =>
    simp only [hstart] at h
    obtain rfl := Option.some.inj h
    exact .root
  | curDir =>
    simp only [hstart] at h
    exact tree.currentDir_direct _ h
  | plain =>
    simp only [hstart] at h
    split_ifs at h
    exact tree.currentDir_direct _ h

theorem direct_resolve (h : tree.resolve path = some names) : Direct tree.nodes names := by
  obtain ⟨origin, horigin, hparts⟩ := Option.bind_eq_some_iff.mp h
  exact direct_foldlM (direct_origin horigin) hparts

theorem canonicalize_eq_some : tree.canonicalize path = some target ↔
    ∃ names, tree.resolve path = some names ∧
      (path.slash = true → tree.nodes names = some .directory) ∧ .ofNames names = target := by
  rw [canonicalize, Option.bind_eq_some_iff]
  apply exists_congr
  intro names
  rw [and_congr_right_iff]
  intro _
  by_cases h : path.slash = true ∧ tree.nodes names ≠ some .directory
  · rw [if_pos h]
    simp [h]
  · rw [if_neg h, Option.some_inj]
    have hdirectory : path.slash = true → tree.nodes names = some .directory := by
      intro hslash
      by_contra hnot
      exact h ⟨hslash, hnot⟩
    exact ⟨fun hnames ↦ ⟨hdirectory, hnames⟩, fun hnames ↦ hnames.2⟩

theorem resolve_ofNames (h : Direct tree.nodes names) :
    tree.resolve (.ofNames names) = some names :=
  foldlM_normal h

theorem canonicalize_ofNames (h : Direct tree.nodes names) :
    tree.canonicalize (.ofNames names) = some (.ofNames names) :=
  canonicalize_eq_some.mpr
    ⟨names, resolve_ofNames h, fun hslash ↦ absurd hslash Bool.false_ne_true, rfl⟩

/-- The tail of a joined path is followed from where the path leads. -/
theorem canonicalize_join {tail : PathBuf} (h : tree.resolve path = some names)
    (htail : tail.start ≠ .rootDir) :
    tree.canonicalize (path.join tail) = (tail.parts.foldlM tree.step names).bind fun names ↦
      if (tail.slash || tail.parts.isEmpty) = true ∧ tree.nodes names ≠ some .directory then none
      else some (.ofNames names) := by
  obtain ⟨origin, horigin, hparts⟩ := Option.bind_eq_some_iff.mp h
  have hempty : ¬path.Same .empty := by
    rintro ⟨hstart, hnil⟩
    rw [FileTree.origin, hstart, hnil] at horigin
    cases horigin
  have hjoin : tree.origin ⟨path.start, path.parts ++ tail.parts,
      tail.slash || tail.parts.isEmpty⟩ = some origin := by
    rw [← horigin, FileTree.origin, FileTree.origin]
    cases hstart : path.start with
    | rootDir => rfl
    | curDir => rfl
    | plain =>
      have hparts : path.parts ≠ [] := fun hnil ↦ hempty ⟨hstart, hnil⟩
      simp [hparts]
  rw [PathBuf.join, if_neg (not_or_intro htail hempty), canonicalize, resolve, hjoin,
    Option.bind_some, List.foldlM_append, hparts]
  rfl

/-- The file system of a tree. -/
def fileSystem (tree : FileTree) : FileSystem where
  currentDir := tree.currentDir.map .ofNames
  canonicalize := tree.canonicalize
  currentDir_absolute := by
    intro dir hdir
    obtain ⟨names, -, rfl⟩ := Option.map_eq_some_iff.mp hdir
    rfl
  canonical := by
    intro path target h
    obtain ⟨names, -, -, rfl⟩ := canonicalize_eq_some.mp h
    exact PathBuf.canonical_ofNames names
  fixed := by
    intro path target h
    obtain ⟨names, hnames, -, rfl⟩ := canonicalize_eq_some.mp h
    exact canonicalize_ofNames (direct_resolve hnames)
  ancestor := by
    intro path target parent hstart h hpop
    obtain ⟨names, hnames, -, -⟩ := canonicalize_eq_some.mp h
    obtain ⟨front, part, hparts, rfl⟩ := PathBuf.parts_of_pop hstart hpop
    have horigin : tree.origin path = some [] := by rw [origin, hstart]
    rw [resolve, horigin, Option.bind_some, hparts, List.foldlM_append] at hnames
    obtain ⟨between, hbetween, -⟩ := Option.bind_eq_some_iff.mp hnames
    exact ⟨.ofNames between, canonicalize_eq_some.mpr
      ⟨between, hbetween, fun hslash ↦ absurd hslash Bool.false_ne_true, rfl⟩⟩
  join := by
    intro path target tail h htail
    obtain ⟨names, hnames, -, rfl⟩ := canonicalize_eq_some.mp h
    have htarget := resolve_ofNames (direct_resolve hnames)
    rw [canonicalize_join hnames htail, canonicalize_join htarget htail]
  relative := by
    intro hdir path hstart
    have hnone : tree.currentDir = none := Option.map_eq_none_iff.mp hdir
    have horigin : tree.origin path = none := by
      rw [origin]
      cases hpath : path.start with
      | rootDir => exact absurd hpath hstart
      | curDir => exact hnone
      | plain => simp [hnone]
    rw [canonicalize, resolve, horigin]
    rfl

end FileTree

end Foundations
