import FerrisBridge.Foundations.Files

/-!
# The normalized path of a store

A store is kept under a path that was made absolute and then normalized in rounds until a round
changes nothing. A round replaces the deepest ancestor that exists by its canonical form and takes the
rest of the path by its text.
-/

open Foundations

namespace FerrisBridge

/-! ## Normalization -/

def pushComponent (normalized : PathBuf) : PathBuf.Part → PathBuf
  | .parentDir =>
    if normalized.fileName.isSome then normalized.pop.getD normalized
    else if normalized.start ≠ .rootDir then normalized.push .parentDir
    else normalized
  | .normal name => normalized.push (.normal name)

def normalizeLexically (path : PathBuf) : PathBuf :=
  path.parts.foldl pushComponent
    (if path.start = .rootDir then ⟨.rootDir, [], false⟩ else .empty)

variable (fs : FileSystem)

def absolutePath (path : PathBuf) : PathBuf :=
  (path.absolute fs.currentDir).getD
    (if path.start = .rootDir then path else (fs.currentDir.getD ⟨.curDir, [], false⟩).join path)

/-- The search of a round, which has come up to `ancestor`. -/
def normalizeFromAncestor (path ancestor : PathBuf) : PathBuf :=
  match fs.canonicalize ancestor with
  | some canonicalAncestor =>
    normalizeLexically (canonicalAncestor.join ((path.stripPrefix ancestor).getD .empty))
  | none =>
    match _hpop : ancestor.pop with
    | some parent => normalizeFromAncestor path parent
    | none => normalizeLexically path
termination_by ancestor.depth
decreasing_by exact PathBuf.depth_lt_of_pop _hpop

def normalizeFromDeepestExistingAncestor (path : PathBuf) : PathBuf :=
  normalizeFromAncestor fs path path

/-- The rounds, of which the first that changes nothing is the last. -/
def normalizeRounds : ℕ → PathBuf → Option PathBuf
  | 0, _ => none
  | rounds + 1, normalized =>
    if (normalizeFromDeepestExistingAncestor fs normalized).Same normalized then
      some (normalizeFromDeepestExistingAncestor fs normalized)
    else normalizeRounds rounds (normalizeFromDeepestExistingAncestor fs normalized)

def stateStoreLockKey (path : PathBuf) (rounds : ℕ) : Option PathBuf :=
  normalizeRounds fs rounds (absolutePath fs path)

/-- Some number of rounds gives the key. -/
def HasKey (path key : PathBuf) : Prop := ∃ rounds, stateStoreLockKey fs path rounds = some key

/-! ## By the text alone -/

theorem normalizeLexically_snoc (start : PathBuf.Start) (parts : List PathBuf.Part)
    (part : PathBuf.Part) (slash : Bool) :
    normalizeLexically ⟨start, parts ++ [part], slash⟩ =
      pushComponent (normalizeLexically ⟨start, parts, slash⟩) part := by
  simp only [normalizeLexically, List.foldl_append, List.foldl_cons, List.foldl_nil]

/-- Only the parts count, and whether they are below the root. -/
theorem normalizeLexically_congr {path other : PathBuf} (hparts : path.parts = other.parts)
    (hstart : path.start = .rootDir ↔ other.start = .rootDir) :
    normalizeLexically path = normalizeLexically other := by
  simp only [normalizeLexically, hparts, hstart]

theorem normalizeLexically_push (path : PathBuf) (part : PathBuf.Part) :
    normalizeLexically (path.push part) = pushComponent (normalizeLexically path) part :=
  normalizeLexically_snoc path.start path.parts part false

/-- Behind a name, the parent directory takes the name away. -/
theorem pushComponent_name {path : PathBuf} {front : List PathBuf.Part} {name : String}
    (h : path.parts = front ++ [.normal name]) :
    pushComponent path .parentDir = ⟨path.start, front, false⟩ := by
  have hname : path.fileName = some name := by simp [PathBuf.fileName, h]
  have hpop : path.pop = some ⟨path.start, front, false⟩ := by
    obtain ⟨start, parts, slash⟩ := path
    obtain rfl : parts = front ++ [.normal name] := h
    exact PathBuf.pop_snoc _ _ _ _
  simp [pushComponent, hname, hpop]

theorem pushComponent_root {path : PathBuf} (hname : path.fileName = none)
    (hstart : path.start = .rootDir) : pushComponent path .parentDir = path := by
  simp [pushComponent, hname, hstart]

theorem pushComponent_plain {path : PathBuf} (hname : path.fileName = none)
    (hstart : path.start ≠ .rootDir) :
    pushComponent path .parentDir = path.push .parentDir := by
  simp [pushComponent, hname, hstart]

theorem start_pushComponent (path : PathBuf) (part : PathBuf.Part) :
    (pushComponent path part).start = path.start := by
  cases part with
  | normal name => rfl
  | parentDir =>
    cases hname : path.fileName with
    | some name =>
      obtain ⟨front, hfront⟩ := PathBuf.parts_of_fileName hname
      rw [pushComponent_name hfront]
    | none =>
      by_cases hstart : path.start = .rootDir
      · rw [pushComponent_root hname hstart]
      · rw [pushComponent_plain hname hstart]
        rfl

theorem slash_pushComponent {path : PathBuf} (h : path.slash = false) (part : PathBuf.Part) :
    (pushComponent path part).slash = false := by
  cases part with
  | normal name => rfl
  | parentDir =>
    cases hname : path.fileName with
    | some name =>
      obtain ⟨front, hfront⟩ := PathBuf.parts_of_fileName hname
      rw [pushComponent_name hfront]
    | none =>
      by_cases hstart : path.start = .rootDir
      · rwa [pushComponent_root hname hstart]
      · rw [pushComponent_plain hname hstart]
        rfl

theorem slash_normalizeLexically (path : PathBuf) : (normalizeLexically path).slash = false := by
  obtain ⟨start, parts, slash⟩ := path
  induction parts using List.reverseRecOn with
  | nil => by_cases hstart : start = .rootDir <;> simp [normalizeLexically, hstart, PathBuf.empty]
  | append_singleton parts part ih =>
    rw [normalizeLexically_snoc]
    exact slash_pushComponent ih part

/-- What was normalized stays as it is. -/
theorem normalizeLexically_normalized (path : PathBuf) :
    normalizeLexically (normalizeLexically path) = normalizeLexically path := by
  obtain ⟨start, parts, slash⟩ := path
  induction parts using List.reverseRecOn with
  | nil => by_cases hstart : start = .rootDir <;> simp [normalizeLexically, hstart, PathBuf.empty]
  | append_singleton parts part ih =>
    rw [normalizeLexically_snoc]
    generalize normalizeLexically ⟨start, parts, slash⟩ = path at ih
    cases part with
    | normal name =>
      have hpush : pushComponent path (.normal name) = path.push (.normal name) := rfl
      rw [hpush, normalizeLexically_push, ih, hpush]
    | parentDir =>
      cases hname : path.fileName with
      | some name =>
        obtain ⟨front, hfront⟩ := PathBuf.parts_of_fileName hname
        have hback : (normalizeLexically ⟨path.start, front, false⟩).push (.normal name) = path :=
          calc
            _ = normalizeLexically (PathBuf.push ⟨path.start, front, false⟩ (.normal name)) :=
              (normalizeLexically_push _ _).symm
            _ = normalizeLexically path := normalizeLexically_congr hfront.symm Iff.rfl
            _ = path := ih
        have hstart : (normalizeLexically ⟨path.start, front, false⟩).start = path.start :=
          (congrArg PathBuf.start hback :)
        have hparts : (normalizeLexically ⟨path.start, front, false⟩).parts ++ [.normal name] =
          front ++ [.normal name] := (congrArg PathBuf.parts hback).trans hfront
        rw [pushComponent_name hfront]
        ext1
        · exact hstart
        · exact List.append_cancel_right hparts
        · exact slash_normalizeLexically _
      | none =>
        by_cases hstart : path.start = .rootDir
        · rw [pushComponent_root hname hstart, ih]
        · rw [pushComponent_plain hname hstart, normalizeLexically_push, ih,
            pushComponent_plain hname hstart]

theorem canonical_pushComponent {path : PathBuf} (h : path.Canonical) (part : PathBuf.Part) :
    (pushComponent path part).Canonical := by
  cases part with
  | normal name =>
    have hname : ∀ other ∈ [PathBuf.Part.normal name], other ≠ .parentDir := by simp
    exact ⟨h.start, List.forall_mem_append.mpr ⟨h.parts, hname⟩, rfl⟩
  | parentDir =>
    cases hname : path.fileName with
    | some name =>
      obtain ⟨front, hfront⟩ := PathBuf.parts_of_fileName hname
      rw [pushComponent_name hfront]
      refine ⟨h.start, ?_, rfl⟩
      intro other hother
      exact h.parts other (hfront ▸ List.mem_append_left _ hother)
    | none => rwa [pushComponent_root hname h.start]

/-- Below the root only names remain. -/
theorem canonical_normalizeLexically {path : PathBuf} (hstart : path.start = .rootDir) :
    (normalizeLexically path).Canonical := by
  obtain ⟨start, parts, slash⟩ := path
  obtain rfl : start = .rootDir := hstart
  induction parts using List.reverseRecOn with
  | nil => exact PathBuf.canonical_ofNames []
  | append_singleton parts part ih =>
    rw [normalizeLexically_snoc]
    exact canonical_pushComponent ih part

/-- Names are taken as they are. -/
theorem normalizeLexically_names {parts : List PathBuf.Part}
    (h : ∀ part ∈ parts, part ≠ .parentDir) (slash : Bool) :
    normalizeLexically ⟨.rootDir, parts, slash⟩ = ⟨.rootDir, parts, false⟩ := by
  induction parts using List.reverseRecOn with
  | nil => rfl
  | append_singleton parts part ih =>
    rw [normalizeLexically_snoc, ih fun part hpart ↦ h part (List.mem_append_left _ hpart)]
    cases part with
    | parentDir => exact absurd rfl (h _ (by simp))
    | normal name => rfl

theorem normalizeLexically_canonical {path : PathBuf} (h : path.Canonical) :
    normalizeLexically path = path := by
  rw [h.eq_bare]
  exact normalizeLexically_names h.parts false

/-- A canonical path with names behind it is taken as it is. -/
theorem normalizeLexically_append {path : PathBuf} (h : path.Canonical) {tail : List PathBuf.Part}
    (htail : ∀ part ∈ tail, part ≠ .parentDir) :
    normalizeLexically ⟨.rootDir, path.parts ++ tail, false⟩ =
      ⟨.rootDir, path.parts ++ tail, false⟩ :=
  normalizeLexically_names (List.forall_mem_append.mpr ⟨h.parts, htail⟩) false

/-! ## The deepest ancestor that exists -/

/-- The ancestor of a path that leaves out its last parts. -/
def ancestorOf (path : PathBuf) (front left : List PathBuf.Part) : PathBuf :=
  if left = [] then path else ⟨path.start, front, false⟩

/-- The file system resolves an ancestor of the path, and none that is deeper. -/
structure DeepestExisting (path : PathBuf) (front tail : List PathBuf.Part)
    (canonicalAncestor : PathBuf) : Prop where
  parts : path.parts = front ++ tail
  found : fs.canonicalize (ancestorOf path front tail) = some canonicalAncestor
  missing : ∀ used left, used ≠ [] → tail = used ++ left →
    fs.canonicalize (ancestorOf path (front ++ used) left) = none

variable {fs} {path : PathBuf} {front tail : List PathBuf.Part} {canonicalAncestor : PathBuf}

theorem ancestorOf_bare (hslash : path.slash = false) (hparts : path.parts = front ++ tail) :
    ancestorOf path front tail = ⟨path.start, front, false⟩ := by
  obtain ⟨start, parts, slash⟩ := path
  obtain rfl : slash = false := hslash
  obtain rfl : parts = front ++ tail := hparts
  cases tail with
  | nil => simp [ancestorOf]
  | cons part tail => rfl

theorem pop_ancestorOf {part : PathBuf.Part} (hstart : path.start = .rootDir)
    (hparts : path.parts = front ++ part :: tail) :
    (ancestorOf path (front ++ [part]) tail).pop = some (ancestorOf path front (part :: tail)) := by
  obtain ⟨start, parts, slash⟩ := path
  obtain rfl : start = .rootDir := hstart
  obtain rfl : parts = front ++ part :: tail := hparts
  cases tail with
  | nil => exact PathBuf.pop_snoc _ _ _ _
  | cons next rest => exact PathBuf.pop_snoc _ _ _ _

theorem normalizeFromAncestor_none {ancestor parent : PathBuf}
    (hnone : fs.canonicalize ancestor = none) (hpop : ancestor.pop = some parent) :
    normalizeFromAncestor fs path ancestor = normalizeFromAncestor fs path parent := by
  rw [normalizeFromAncestor]
  simp only [hnone]
  split
  · next other hother =>
    rw [hpop] at hother
    rw [Option.some.inj hother]
  · next hother =>
    rw [hpop] at hother
    cases hother

/-- The search passes over what does not exist. -/
theorem normalizeFromAncestor_missing (hstart : path.start = .rootDir)
    (hparts : path.parts = front ++ tail)
    (hmissing : ∀ used left, used ≠ [] → tail = used ++ left →
      fs.canonicalize (ancestorOf path (front ++ used) left) = none) :
    normalizeFromDeepestExistingAncestor fs path =
      normalizeFromAncestor fs path (ancestorOf path front tail) := by
  induction tail generalizing front with
  | nil => rfl
  | cons part tail ih =>
    have hdeeper : normalizeFromDeepestExistingAncestor fs path =
        normalizeFromAncestor fs path (ancestorOf path (front ++ [part]) tail) := by
      apply ih (by rw [hparts, List.append_cons])
      intro used left hused htail
      rw [List.append_assoc]
      exact hmissing ([part] ++ used) left (by simp) (by rw [htail]; rfl)
    rw [hdeeper]
    exact normalizeFromAncestor_none (hmissing [part] tail (by simp) rfl)
      (pop_ancestorOf hstart hparts)

theorem normalizeFromAncestor_some {ancestor : PathBuf}
    (hsome : fs.canonicalize ancestor = some canonicalAncestor) :
    normalizeFromAncestor fs path ancestor = normalizeLexically
      (canonicalAncestor.join ((path.stripPrefix ancestor).getD .empty)) := by
  rw [normalizeFromAncestor]
  simp only [hsome]

theorem normalizeFromAncestor_end {ancestor : PathBuf}
    (hnone : fs.canonicalize ancestor = none) (hpop : ancestor.pop = none) :
    normalizeFromAncestor fs path ancestor = normalizeLexically path := by
  rw [normalizeFromAncestor]
  simp only [hnone]
  split
  · next parent hparent =>
    rw [hpop] at hparent
    cases hparent
  · rfl

/-- A round puts the canonical form in the place of the deepest ancestor. -/
theorem DeepestExisting.normalize (h : DeepestExisting fs path front tail canonicalAncestor)
    (hstart : path.start = .rootDir) :
    normalizeFromDeepestExistingAncestor fs path =
      normalizeLexically ⟨.rootDir, canonicalAncestor.parts ++ tail, false⟩ := by
  have hstrip : path.stripPrefix (ancestorOf path front tail) = some ⟨.plain, tail, false⟩ := by
    obtain ⟨start, parts, slash⟩ := path
    obtain rfl : parts = front ++ tail := h.parts
    cases tail with
    | nil =>
      have hself : PathBuf.stripPrefix ⟨start, front ++ [], slash⟩ ⟨start, front, slash⟩ = _ :=
        PathBuf.stripPrefix_append start slash slash
      simpa [ancestorOf] using hself
    | cons part rest => exact PathBuf.stripPrefix_append _ _ _
  have hroot := (fs.canonical _ _ h.found).start
  rw [normalizeFromAncestor_missing hstart h.parts h.missing, normalizeFromAncestor_some h.found,
    hstrip, Option.getD_some, PathBuf.join_plain hroot]
  exact normalizeLexically_congr rfl Iff.rfl

/-- Where nothing exists, a round leaves the text. -/
theorem normalize_of_missing (hstart : path.start = .rootDir)
    (hmissing : ∀ used left, path.parts = used ++ left →
      fs.canonicalize (ancestorOf path used left) = none) :
    normalizeFromDeepestExistingAncestor fs path = normalizeLexically path := by
  have htop : (ancestorOf path [] path.parts).pop = none := by
    obtain ⟨start, parts, slash⟩ := path
    obtain rfl : start = .rootDir := hstart
    cases parts with
    | nil => rfl
    | cons part rest => rfl
  rw [normalizeFromAncestor_missing hstart (List.nil_append _).symm]
  · exact normalizeFromAncestor_end (hmissing [] path.parts rfl) htop
  · intro used left _ hparts
    exact hmissing used left hparts

/-- The search finds an ancestor, or none exists. -/
theorem deepest_or_missing (fs : FileSystem) (path : PathBuf) :
    (∃ front tail canonicalAncestor, DeepestExisting fs path front tail canonicalAncestor) ∨
      ∀ used left, path.parts = used ++ left →
        fs.canonicalize (ancestorOf path used left) = none := by
  have hsearch (front tail : List PathBuf.Part) (hparts : path.parts = front ++ tail)
      (hmissing : ∀ used left, used ≠ [] → tail = used ++ left →
        fs.canonicalize (ancestorOf path (front ++ used) left) = none) :
      (∃ front tail canonicalAncestor, DeepestExisting fs path front tail canonicalAncestor) ∨
        ∀ used left, path.parts = used ++ left →
          fs.canonicalize (ancestorOf path used left) = none := by
    -- the search goes from the path upwards, one part after the other
    induction front using List.reverseRecOn generalizing tail with
    | nil =>
      cases hfound : fs.canonicalize (ancestorOf path [] tail) with
      | some canonicalAncestor => exact Or.inl ⟨[], tail, _, hparts, hfound, hmissing⟩
      | none =>
        right
        intro used left hused
        obtain rfl : tail = used ++ left := hparts.symm.trans hused
        cases used with
        | nil => exact hfound
        | cons part used => exact hmissing (part :: used) left (by simp) rfl
    | append_singleton front part ih =>
      cases hfound : fs.canonicalize (ancestorOf path (front ++ [part]) tail) with
      | some canonicalAncestor => exact Or.inl ⟨front ++ [part], tail, _, hparts, hfound, hmissing⟩
      | none =>
        apply ih (part :: tail) (by rw [hparts, List.append_assoc]; rfl)
        intro used left hused htail
        cases used with
        | nil => exact absurd rfl hused
        | cons first used =>
          obtain ⟨rfl, rfl⟩ := List.cons.inj htail
          cases used with
          | nil => exact hfound
          | cons second used =>
            rw [List.append_cons]
            exact hmissing (second :: used) left (by simp) rfl
  exact hsearch path.parts [] (List.append_nil _).symm
    (fun used left hused hnil ↦ absurd (List.append_eq_nil_iff.mp hnil.symm).1 hused)

/-! ## Rounds -/

/-- A round gives an absolute path of names only. -/
theorem canonical_normalize (fs : FileSystem) (hstart : path.start = .rootDir) :
    (normalizeFromDeepestExistingAncestor fs path).Canonical := by
  obtain ⟨front, tail, canonicalAncestor, hdeepest⟩ | hmissing := deepest_or_missing fs path
  · rw [hdeepest.normalize hstart]
    exact canonical_normalizeLexically rfl
  · rw [normalize_of_missing hstart hmissing]
    exact canonical_normalizeLexically hstart

/-- Below the canonical form of the deepest ancestor nothing exists either. -/
theorem DeepestExisting.of_canonical (h : DeepestExisting fs path front tail canonicalAncestor)
    (hstart : path.start = .rootDir) (hslash : path.slash = false) :
    DeepestExisting fs ⟨.rootDir, canonicalAncestor.parts ++ tail, false⟩ canonicalAncestor.parts
      tail canonicalAncestor where
  parts := rfl
  found := by
    rw [ancestorOf_bare rfl rfl, ← (fs.canonical _ _ h.found).eq_bare]
    exact fs.fixed _ _ h.found
  missing := by
    intro used left hused htail
    have hempty : used.isEmpty = false := List.isEmpty_eq_false_iff.mpr hused
    have hbelow : path.parts = (front ++ used) ++ left := by
      rw [h.parts, htail, List.append_assoc]
    have hfound := h.found
    rw [ancestorOf_bare hslash h.parts, hstart] at hfound
    have hjoin := fs.join _ _ ⟨.plain, used, false⟩ hfound
      (fun hroot ↦ by cases hroot)
    rw [PathBuf.join_plain (fs.canonical _ _ hfound).start, PathBuf.join_plain rfl, hempty]
      at hjoin
    rw [ancestorOf_bare rfl (by rw [htail, List.append_assoc])]
    calc
      _ = fs.canonicalize ⟨.rootDir, front ++ used, false⟩ := hjoin
      _ = fs.canonicalize (ancestorOf path (front ++ used) left) := by
        rw [ancestorOf_bare hslash hbelow, hstart]
      _ = none := h.missing used left hused htail

/-- After a round on such a path, the next one changes nothing. -/
theorem normalize_normalize (fs : FileSystem) (h : path.Canonical) :
    normalizeFromDeepestExistingAncestor fs (normalizeFromDeepestExistingAncestor fs path) =
      normalizeFromDeepestExistingAncestor fs path := by
  obtain ⟨front, tail, canonicalAncestor, hdeepest⟩ | hmissing := deepest_or_missing fs path
  · have htarget := fs.canonical _ _ hdeepest.found
    have htail : ∀ part ∈ tail, part ≠ .parentDir := fun part hpart ↦
      h.parts part (hdeepest.parts ▸ List.mem_append_right _ hpart)
    have hround := hdeepest.normalize h.start
    rw [normalizeLexically_append htarget htail] at hround
    rw [hround, (hdeepest.of_canonical h.start h.slash).normalize rfl,
      normalizeLexically_append htarget htail]
  · rw [normalize_of_missing h.start hmissing, normalizeLexically_canonical h,
      normalize_of_missing h.start hmissing, normalizeLexically_canonical h]

theorem normalize_of_found {target : PathBuf} (hfound : fs.canonicalize path = some target)
    (hstart : path.start = .rootDir) : normalizeFromDeepestExistingAncestor fs path = target := by
  have hdeepest : DeepestExisting fs path path.parts [] target := {
    parts := (List.append_nil _).symm
    found := hfound
    missing := by
      intro used left hused hnil
      exact absurd (List.append_eq_nil_iff.mp hnil.symm).1 hused }
  have htarget := fs.canonical _ _ hfound
  rw [hdeepest.normalize hstart, List.append_nil, ← htarget.eq_bare]
  exact normalizeLexically_canonical htarget

/-! ## The loop -/

/-- Some number of rounds from a path end with a key. -/
def EndsWith (fs : FileSystem) (path key : PathBuf) : Prop :=
  ∃ rounds, normalizeRounds fs rounds path = some key

theorem normalizeRounds_more {key : PathBuf} {rounds : ℕ}
    (h : normalizeRounds fs rounds path = some key) (extra : ℕ) :
    normalizeRounds fs (rounds + extra) path = some key := by
  induction rounds generalizing path with
  | zero => cases h
  | succ rounds ih =>
    rw [Nat.succ_add, normalizeRounds]
    rw [normalizeRounds] at h
    by_cases hsame : (normalizeFromDeepestExistingAncestor fs path).Same path
    · rw [if_pos hsame] at h ⊢
      exact h
    · rw [if_neg hsame] at h ⊢
      exact ih h

theorem EndsWith.unique {key other : PathBuf} (h : EndsWith fs path key)
    (hother : EndsWith fs path other) : key = other := by
  obtain ⟨rounds, hrounds⟩ := h
  obtain ⟨more, hmore⟩ := hother
  have hkey := normalizeRounds_more hrounds more
  rw [Nat.add_comm, normalizeRounds_more hmore rounds] at hkey
  exact (Option.some.inj hkey).symm

theorem endsWith_last (h : (normalizeFromDeepestExistingAncestor fs path).Same path) :
    EndsWith fs path (normalizeFromDeepestExistingAncestor fs path) :=
  ⟨1, by rw [normalizeRounds, if_pos h]⟩

theorem endsWith_self (h : normalizeFromDeepestExistingAncestor fs path = path) :
    EndsWith fs path path :=
  ⟨1, by rw [normalizeRounds, h, if_pos ⟨rfl, rfl⟩]⟩

theorem endsWith_next {key : PathBuf}
    (hsame : ¬(normalizeFromDeepestExistingAncestor fs path).Same path)
    (h : EndsWith fs (normalizeFromDeepestExistingAncestor fs path) key) :
    EndsWith fs path key := by
  obtain ⟨rounds, hrounds⟩ := h
  exact ⟨rounds + 1, by rw [normalizeRounds, if_neg hsame, hrounds]⟩

/-- From a path of names one round reaches the end. -/
theorem endsWith_canonical (h : path.Canonical) :
    EndsWith fs path (normalizeFromDeepestExistingAncestor fs path) := by
  by_cases hsame : (normalizeFromDeepestExistingAncestor fs path).Same path
  · exact endsWith_last hsame
  · exact endsWith_next hsame (endsWith_self (normalize_normalize fs h))

theorem endsWith_absolute (hstart : path.start = .rootDir) : ∃ key, EndsWith fs path key := by
  by_cases hsame : (normalizeFromDeepestExistingAncestor fs path).Same path
  · exact ⟨_, endsWith_last hsame⟩
  · exact ⟨_, endsWith_next hsame (endsWith_canonical (canonical_normalize fs hstart))⟩

theorem EndsWith.canonical {key : PathBuf} (h : EndsWith fs path key)
    (hstart : path.start = .rootDir) : key.Canonical := by
  obtain ⟨rounds, hrounds⟩ := h
  induction rounds generalizing path with
  | zero => cases hrounds
  | succ rounds ih =>
    rw [normalizeRounds] at hrounds
    by_cases hsame : (normalizeFromDeepestExistingAncestor fs path).Same path
    · rw [if_pos hsame] at hrounds
      exact Option.some.inj hrounds ▸ canonical_normalize fs hstart
    · rw [if_neg hsame] at hrounds
      exact ih (canonical_normalize fs hstart).start hrounds

/-! ## A slash behind a link -/

/-- With its slash the path is refused, without it it is another one, and the file system has nothing
to say about its directory. -/
structure Stuck (fs : FileSystem) (path : PathBuf) : Prop where
  refused : fs.canonicalize path = none
  elsewhere : ∃ target, fs.canonicalize path.bare = some target ∧ target ≠ path.bare
  directory : ∀ parent, path.pop = some parent → fs.canonicalize parent = some parent
  named : path.parts.getLast? ≠ some .parentDir

/-- A round that keeps a path takes its slash away. -/
theorem normalize_eq_bare (hstart : path.start = .rootDir)
    (hsame : (normalizeFromDeepestExistingAncestor fs path).Same path) :
    normalizeFromDeepestExistingAncestor fs path = path.bare := by
  ext1
  · exact hsame.1
  · exact hsame.2
  · exact (canonical_normalize fs hstart).slash

theorem deepest_directory {part : PathBuf.Part} {target : PathBuf} (hstart : path.start = .rootDir)
    (hnone : fs.canonicalize path = none) (hparts : path.parts = front ++ [part])
    (hfound : fs.canonicalize ⟨.rootDir, front, false⟩ = some target) :
    DeepestExisting fs path front [part] target where
  parts := hparts
  found := by
    rw [← hstart] at hfound
    exact hfound
  missing := by
    intro used left hused htail
    cases used with
    | nil => exact absurd rfl hused
    | cons first used =>
      obtain ⟨-, hnil⟩ := List.cons.inj htail
      obtain ⟨rfl, rfl⟩ := List.append_eq_nil_iff.mp hnil.symm
      exact hnone

theorem Stuck.normalize (h : Stuck fs path) (hstart : path.start = .rootDir) :
    normalizeFromDeepestExistingAncestor fs path = path.bare := by
  have hrefused := h.refused
  have hdirectory := h.directory
  have hnamed := h.named
  obtain ⟨start, parts, slash⟩ := path
  obtain rfl : start = .rootDir := hstart
  cases parts using List.reverseRecOn with
  | nil =>
    apply normalize_of_missing rfl
    intro used left hnil
    obtain ⟨rfl, rfl⟩ := List.append_eq_nil_iff.mp hnil.symm
    exact hrefused
  | append_singleton front part =>
    have hfound := hdirectory _ (PathBuf.pop_snoc _ _ _ _)
    rw [(deepest_directory rfl hrefused rfl hfound).normalize rfl]
    apply normalizeLexically_append (fs.canonical _ _ hfound)
    intro other hother
    rw [List.mem_singleton.mp hother]
    rintro rfl
    exact hnamed (by simp)

/-- What is resolved with its slash, and kept by a round, is its own canonical form. -/
theorem refused_of_same (hstart : path.start = .rootDir)
    (hsame : (normalizeFromDeepestExistingAncestor fs path).Same path)
    (h : fs.canonicalize path.bare ≠ some path.bare) : fs.canonicalize path = none := by
  cases hfound : fs.canonicalize path with
  | none => rfl
  | some target =>
    have htarget := normalize_of_found hfound hstart
    rw [normalize_eq_bare hstart hsame] at htarget
    exact absurd (htarget ▸ fs.fixed _ _ hfound) (htarget ▸ h)

/-- A path that a round keeps is stuck if it is another one without its slash. -/
theorem stuck_of_found {target : PathBuf} (hstart : path.start = .rootDir)
    (hsame : (normalizeFromDeepestExistingAncestor fs path).Same path)
    (hfound : fs.canonicalize path.bare = some target) (hne : target ≠ path.bare) :
    Stuck fs path := by
  have hround := normalize_eq_bare hstart hsame
  have hbare : path.bare.Canonical := hround ▸ canonical_normalize fs hstart
  have hnone : fs.canonicalize path = none := by
    apply refused_of_same hstart hsame
    rw [hfound]
    exact fun h ↦ hne (Option.some.inj h)
  refine ⟨hnone, ⟨target, hfound, hne⟩, ?_, ?_⟩
  · intro parent hpop
    obtain ⟨other, hother⟩ := fs.ancestor path.bare target parent hbare.start hfound hpop
    obtain ⟨front, part, hparts, rfl⟩ := PathBuf.parts_of_pop hstart hpop
    have hname : ∀ next ∈ [part], next ≠ .parentDir := fun next hnext ↦
      hbare.parts next (hparts ▸ List.mem_append_right _ hnext)
    have hkept := (deepest_directory hstart hnone hparts hother).normalize hstart
    rw [hround, normalizeLexically_append (fs.canonical _ _ hother) hname] at hkept
    have hfront : front ++ [part] = other.parts ++ [part] :=
      hparts.symm.trans (congrArg PathBuf.parts hkept :)
    rw [hother, (fs.canonical _ _ hother).eq_bare, List.append_cancel_right hfront]
  · intro hlast
    obtain ⟨front, hfront⟩ := List.getLast?_eq_some_iff.mp hlast
    exact hbare.parts .parentDir (hfront ▸ by simp) rfl

/-- Where a path does not exist with or without its slash, both have the same ancestors. -/
theorem normalize_bare_of_none (hstart : path.start = .rootDir)
    (hnone : fs.canonicalize path = none) (hbare : fs.canonicalize path.bare = none) :
    normalizeFromDeepestExistingAncestor fs path.bare =
      normalizeFromDeepestExistingAncestor fs path := by
  have hancestor (used left : List PathBuf.Part) :
      fs.canonicalize (ancestorOf path.bare used left) =
        fs.canonicalize (ancestorOf path used left) := by
    cases left with
    | nil => exact hbare.trans hnone.symm
    | cons part left => rfl
  obtain ⟨front, tail, canonicalAncestor, hdeepest⟩ | hmissing := deepest_or_missing fs path
  · have hdeeper : DeepestExisting fs path.bare front tail canonicalAncestor := {
      parts := hdeepest.parts
      found := (hancestor front tail).trans hdeepest.found
      missing := by
        intro used left hused htail
        exact (hancestor _ left).trans (hdeepest.missing used left hused htail) }
    rw [hdeeper.normalize hstart, hdeepest.normalize hstart]
  · have hbare : normalizeFromDeepestExistingAncestor fs path.bare =
        normalizeLexically path.bare := by
      have hbelow : path.bare.start = .rootDir := hstart
      apply normalize_of_missing hbelow
      intro used left hparts
      exact (hancestor used left).trans (hmissing used left hparts)
    rw [hbare, normalize_of_missing hstart hmissing]
    exact normalizeLexically_congr rfl Iff.rfl

/-- Without its slash, a path that a round keeps is kept as well unless it is stuck. -/
theorem normalize_bare_iff (hstart : path.start = .rootDir)
    (hsame : (normalizeFromDeepestExistingAncestor fs path).Same path) :
    normalizeFromDeepestExistingAncestor fs path.bare = path.bare ↔ ¬Stuck fs path := by
  constructor
  · intro hkept hstuck
    obtain ⟨target, hfound, hne⟩ := hstuck.elsewhere
    exact hne ((normalize_of_found hfound hstart).symm.trans hkept)
  · intro hstuck
    cases hfound : fs.canonicalize path.bare with
    | some target =>
      rw [normalize_of_found hfound hstart]
      by_contra hne
      exact hstuck (stuck_of_found hstart hsame hfound hne)
    | none =>
      have hnone := refused_of_same hstart hsame (by rw [hfound]; exact fun h ↦ by cases h)
      rw [normalize_bare_of_none hstart hnone hfound]
      exact normalize_eq_bare hstart hsame

/-! ## Keys -/

theorem absolutePath_root (hstart : path.start = .rootDir) : absolutePath fs path = path := by
  rw [absolutePath, PathBuf.absolute, if_neg (PathBuf.not_same_empty hstart), if_pos hstart]
  rfl

theorem start_absolutePath {dir : PathBuf} (hdir : fs.currentDir = some dir) (path : PathBuf) :
    (absolutePath fs path).start = .rootDir := by
  have hroot := fs.currentDir_absolute dir hdir
  by_cases hstart : path.start = .rootDir
  · rw [absolutePath_root hstart]
    exact hstart
  · by_cases hempty : path.Same .empty
    · simp [absolutePath, PathBuf.absolute, hdir, hstart, hempty, PathBuf.join,
        PathBuf.not_same_empty hroot, hroot]
    · simp [absolutePath, PathBuf.absolute, hdir, hstart, hempty, hroot]

/-- Without a current directory a relative path stays below a dot. -/
theorem absolutePath_relative (hdir : fs.currentDir = none) (hstart : path.start ≠ .rootDir) :
    (absolutePath fs path).start = .curDir ∧ (absolutePath fs path).parts = path.parts := by
  have habsolute : path.absolute none = none := by simp [PathBuf.absolute, hstart]
  simp [absolutePath, habsolute, hdir, hstart, PathBuf.join, PathBuf.Same, PathBuf.empty]

/-- A path is absolute where the rounds start, or there is no current directory. -/
theorem absolutePath_cases (fs : FileSystem) (path : PathBuf) :
    (absolutePath fs path).start = .rootDir ∨
      fs.currentDir = none ∧ (absolutePath fs path).start = .curDir := by
  cases hdir : fs.currentDir with
  | some dir => exact Or.inl (start_absolutePath hdir path)
  | none =>
    by_cases hstart : path.start = .rootDir
    · rw [absolutePath_root hstart]
      exact Or.inl hstart
    · exact Or.inr ⟨rfl, (absolutePath_relative hdir hstart).1⟩

/-- A path that is not stuck ends where the round after the first one leads. -/
theorem endsWith_of_not_stuck (hstart : path.start = .rootDir) (h : ¬Stuck fs path) :
    EndsWith fs path (normalizeFromDeepestExistingAncestor fs
      (normalizeFromDeepestExistingAncestor fs path)) := by
  by_cases hsame : (normalizeFromDeepestExistingAncestor fs path).Same path
  · have hlast := endsWith_last hsame
    have hkept := (normalize_bare_iff hstart hsame).mpr h
    rw [normalize_eq_bare hstart hsame] at hlast ⊢
    rwa [hkept]
  · exact endsWith_next hsame (endsWith_canonical (canonical_normalize fs hstart))

/-- The key is its own key exactly if the path is not stuck. -/
theorem idempotent_iff (hstart : path.start = .rootDir) :
    (∃ key, EndsWith fs path key ∧ EndsWith fs key key) ↔ ¬Stuck fs path := by
  constructor
  · rintro ⟨key, hkey, hagain⟩ hstuck
    have hround := hstuck.normalize hstart
    have hsame : (normalizeFromDeepestExistingAncestor fs path).Same path := by
      rw [hround]
      exact ⟨rfl, rfl⟩
    have hbare : path.bare.Canonical := hround ▸ canonical_normalize fs hstart
    obtain rfl : key = path.bare := hkey.unique (hround ▸ endsWith_last hsame)
    have hkept := (endsWith_canonical hbare).unique hagain
    exact (normalize_bare_iff hstart hsame).mp hkept hstuck
  · intro hstuck
    have hfixed := normalize_normalize fs (canonical_normalize fs hstart)
    exact ⟨_, endsWith_of_not_stuck hstart hstuck, endsWith_self hfixed⟩

/-! ## Without a current directory -/

/-- Without a current directory a round has only the text of a relative path. -/
theorem normalize_relative (hdir : fs.currentDir = none) {ancestor : PathBuf}
    (hstart : ancestor.start ≠ .rootDir) :
    normalizeFromAncestor fs path ancestor = normalizeLexically path := by
  induction hdepth : ancestor.depth using Nat.strong_induction_on generalizing ancestor with
  | _ depth ih =>
    have hnone := fs.relative hdir ancestor hstart
    cases hpop : ancestor.pop with
    | none => exact normalizeFromAncestor_end hnone hpop
    | some parent =>
      rw [normalizeFromAncestor_none hnone hpop]
      have hlt := PathBuf.depth_lt_of_pop hpop
      rw [hdepth] at hlt
      exact ih _ hlt (PathBuf.start_of_pop hstart hpop) rfl

theorem start_normalizeLexically (hstart : path.start ≠ .rootDir) :
    (normalizeLexically path).start = .plain := by
  obtain ⟨start, parts, slash⟩ := path
  induction parts using List.reverseRecOn with
  | nil => exact congrArg PathBuf.start (if_neg hstart)
  | append_singleton parts part ih =>
    rw [normalizeLexically_snoc, start_pushComponent]
    exact ih hstart

/-- A relative path that cannot be made absolute is normalized by its text, once. -/
theorem endsWith_relative (hdir : fs.currentDir = none) (hstart : path.start = .curDir) :
    EndsWith fs path (normalizeLexically path) := by
  have hround : normalizeFromDeepestExistingAncestor fs path = normalizeLexically path :=
    normalize_relative hdir (by rw [hstart]; decide)
  have hplain : (normalizeLexically path).start = .plain :=
    start_normalizeLexically (by rw [hstart]; decide)
  have hsame : ¬(normalizeFromDeepestExistingAncestor fs path).Same path := by
    rintro ⟨hsame, -⟩
    rw [hround, hplain, hstart] at hsame
    cases hsame
  apply endsWith_next hsame
  rw [hround]
  apply endsWith_self
  rw [normalizeFromDeepestExistingAncestor, normalize_relative hdir (by rw [hplain]; decide)]
  exact normalizeLexically_normalized path

/-! ## The result -/

/-- Absolute paths whose deepest ancestors have one canonical form and are followed by the same
parts. -/
def Alike (fs : FileSystem) (path other : PathBuf) : Prop :=
  path.start = .rootDir ∧ other.start = .rootDir ∧
    ∃ front otherFront tail canonicalAncestor,
      DeepestExisting fs path front tail canonicalAncestor ∧
        DeepestExisting fs other otherFront tail canonicalAncestor

theorem hasKey_absolute {key : PathBuf} (hstart : path.start = .rootDir) :
    HasKey fs path key ↔ EndsWith fs path key := by
  rw [HasKey, EndsWith]
  simp only [stateStoreLockKey, absolutePath_root hstart]

theorem exists_hasKey (fs : FileSystem) (path : PathBuf) : ∃ key, HasKey fs path key := by
  obtain hroot | ⟨hdir, hstart⟩ := absolutePath_cases fs path
  · exact endsWith_absolute hroot
  · exact ⟨_, endsWith_relative hdir hstart⟩

/-- The key of a path is its own key exactly if its absolute form is not stuck. -/
theorem hasKey_idempotent_iff (fs : FileSystem) (path : PathBuf) :
    (∃ key, HasKey fs path key ∧ HasKey fs key key) ↔ ¬Stuck fs (absolutePath fs path) := by
  obtain hroot | ⟨hdir, hstart⟩ := absolutePath_cases fs path
  · rw [← idempotent_iff hroot]
    apply exists_congr
    intro key
    apply and_congr_right
    intro hkey
    exact hasKey_absolute (EndsWith.canonical hkey hroot).start
  · have hrelative : (absolutePath fs path).start ≠ .rootDir := by
      rw [hstart]
      decide
    have hplain := start_normalizeLexically hrelative
    have hnot : ¬Stuck fs (absolutePath fs path) := by
      intro hstuck
      obtain ⟨target, hfound, -⟩ := hstuck.elsewhere
      have hnone := fs.relative hdir (absolutePath fs path).bare hrelative
      rw [hnone] at hfound
      cases hfound
    refine ⟨fun _ ↦ hnot, fun _ ↦ ⟨_, endsWith_relative hdir hstart, ?_⟩⟩
    have hkey : (normalizeLexically (absolutePath fs path)).start ≠ .rootDir := by
      rw [hplain]
      decide
    obtain ⟨hagain, hparts⟩ := absolutePath_relative hdir hkey
    have hend := endsWith_relative hdir hagain
    rw [normalizeLexically_congr hparts (by rw [hagain, hplain]; decide),
      normalizeLexically_normalized] at hend
    exact hend

/-- Alike paths have one key, which is its own key, exactly if none of them is stuck. -/
theorem hasKey_alike_iff {other : PathBuf} (h : Alike fs path other) :
    (∃ key, HasKey fs path key ∧ HasKey fs other key ∧ HasKey fs key key) ↔
      ¬Stuck fs path ∧ ¬Stuck fs other := by
  obtain ⟨hstart, hother, front, otherFront, tail, canonicalAncestor, hpath, hdeepest⟩ := h
  have hround := (hpath.normalize hstart).trans (hdeepest.normalize hother).symm
  constructor
  · rintro ⟨key, hkey, hotherKey, hself⟩
    have hpathIff := hasKey_idempotent_iff fs path
    have hotherIff := hasKey_idempotent_iff fs other
    rw [absolutePath_root hstart] at hpathIff
    rw [absolutePath_root hother] at hotherIff
    exact ⟨hpathIff.mp ⟨key, hkey, hself⟩, hotherIff.mp ⟨key, hotherKey, hself⟩⟩
  · rintro ⟨hnot, hotherNot⟩
    have hkey := endsWith_of_not_stuck hstart hnot
    have hotherKey := endsWith_of_not_stuck hother hotherNot
    rw [← hround] at hotherKey
    have hfixed := normalize_normalize fs (canonical_normalize fs hstart)
    exact ⟨_, (hasKey_absolute hstart).mpr hkey, (hasKey_absolute hother).mpr hotherKey,
      (hasKey_absolute (hkey.canonical hstart).start).mpr (endsWith_self hfixed)⟩

/-- Normalization always ends. Its result is normalized, and is the same for paths that differ only in
an ancestor's name, exactly if no path is stuck behind a slash. -/
theorem stateStoreLockKey_iff (fs : FileSystem) :
    (∀ path, ∃ key, HasKey fs path key) ∧
      (∀ path, (∃ key, HasKey fs path key ∧ HasKey fs key key) ↔
        ¬Stuck fs (absolutePath fs path)) ∧
      ∀ path other, Alike fs path other →
        ((∃ key, HasKey fs path key ∧ HasKey fs other key ∧ HasKey fs key key) ↔
          ¬Stuck fs path ∧ ¬Stuck fs other) :=
  ⟨exists_hasKey fs, hasKey_idempotent_iff fs, fun _ _ h ↦ hasKey_alike_iff h⟩

/-! ## A link to a file -/

/-- A directory with a state file, and a link to it beside it. -/
def linkNodes (names : List String) : Option Node :=
  if names = [] then some .directory
  else if names = ["data"] then some .directory
  else if names = ["data", "state.json"] then some .file
  else if names = ["data", "alias.json"] then some (.link ["data", "state.json"])
  else none

theorem direct_linkNodes : Direct linkNodes ["data", "state.json"] := by
  have hdata : Direct linkNodes ([] ++ ["data"]) :=
    .child .root rfl rfl (fun target htarget ↦ by cases htarget)
  have hfile : Direct linkNodes (["data"] ++ ["state.json"]) :=
    .child hdata rfl rfl (fun target htarget ↦ by cases htarget)
  exact hfile

theorem linkNodes_link {names target : List String} (h : linkNodes names = some (.link target)) :
    target = ["data", "state.json"] := by
  rw [linkNodes] at h
  split_ifs at h
  · cases h
  · cases h
  · cases h
  · exact (Node.link.inj (Option.some.inj h)).symm

def linkTree : FileTree where
  nodes := linkNodes
  currentDir := some []
  currentDir_direct := by
    intro dir hdir
    obtain rfl := Option.some.inj hdir
    exact .root
  link_direct := by
    intro names target h
    rw [linkNodes_link h]
    exact direct_linkNodes

/-- Paths to a file that is not there yet have one key. -/
theorem stateStoreLockKey_iff_parent :
    ∃ key, HasKey linkTree.fileSystem (.ofNames ["data", "new.json"]) key ∧
      HasKey linkTree.fileSystem
        ⟨.rootDir, [.normal "data", .parentDir, .normal "data", .normal "new.json"], false⟩ key ∧
      HasKey linkTree.fileSystem key key := by
  have hdirect : linkTree.fileSystem.canonicalize (.ofNames ["data", "new.json"]) = none := by
    decide +kernel
  have haround : linkTree.fileSystem.canonicalize
      ⟨.rootDir, [.normal "data", .parentDir, .normal "data", .normal "new.json"], false⟩ = none := by
    decide +kernel
  have halike : Alike linkTree.fileSystem (.ofNames ["data", "new.json"])
      ⟨.rootDir, [.normal "data", .parentDir, .normal "data", .normal "new.json"], false⟩ :=
    ⟨rfl, rfl, [.normal "data"], [.normal "data", .parentDir, .normal "data"],
      [.normal "new.json"], .ofNames ["data"],
      deepest_directory rfl hdirect rfl (by decide +kernel),
      deepest_directory rfl haround rfl (by decide +kernel)⟩
  have hstuck {path : PathBuf} (hnone : linkTree.fileSystem.canonicalize path.bare = none) :
      ¬Stuck linkTree.fileSystem path := by
    intro h
    obtain ⟨target, htarget, -⟩ := h.elsewhere
    rw [hnone] at htarget
    cases htarget
  exact ((stateStoreLockKey_iff linkTree.fileSystem).2.2 _ _ halike).mpr
    ⟨hstuck hdirect, hstuck haround⟩

def aliasPath : PathBuf := .ofNames ["data", "alias.json"]

/-- With a slash behind it the link itself is the key, which has the key of its file. -/
theorem not_hasKey_alias :
    HasKey linkTree.fileSystem { aliasPath with slash := true } aliasPath ∧
      HasKey linkTree.fileSystem aliasPath (.ofNames ["data", "state.json"]) ∧
      ¬HasKey linkTree.fileSystem aliasPath aliasPath := by
  have hlink : stateStoreLockKey linkTree.fileSystem { aliasPath with slash := true } 1 =
      some aliasPath := by decide +kernel
  have hfile : stateStoreLockKey linkTree.fileSystem aliasPath 2 =
      some (.ofNames ["data", "state.json"]) := by decide +kernel
  refine ⟨⟨1, hlink⟩, ⟨2, hfile⟩, ?_⟩
  intro hself
  have heq : aliasPath = .ofNames ["data", "state.json"] := EndsWith.unique hself ⟨2, hfile⟩
  revert heq
  decide

end FerrisBridge
