import FerrisBridge.Foundations.Files

/-!
# Texts of paths

The path that a Unix system reads in a text, and its components. Slashes separate names; a dot counts only
at the start of a text. A path of names only leads nowhere but into the directory that it starts from,
as long as no link is below it.
-/

namespace Foundations.PathBuf

inductive Component
  | rootDir
  | curDir
  | part (part : Part)
  deriving DecidableEq

def components (path : PathBuf) : List Component :=
  match path.start with
  | .rootDir => .rootDir :: path.parts.map .part
  | .curDir => .curDir :: path.parts.map .part
  | .plain => path.parts.map .part

def startOf (text : List Char) : Start :=
  if text.head? = some '/' then .rootDir
  else if text = ['.'] ∨ ['.', '/'].isPrefixOf text then .curDir
  else .plain

def partOf (piece : List Char) : Option Part :=
  if piece = [] ∨ piece = ['.'] then none
  else if piece = ['.', '.'] then some .parentDir
  else some (.normal (.ofList piece))

def ofText (text : String) : PathBuf where
  start := startOf text.toList
  parts := (text.toList.splitOn '/').filterMap partOf
  slash := text.toList.getLast? = some '/'

def isAbsolute (path : PathBuf) : Bool := path.start = .rootDir

/-- A component that is a name. -/
def Component.isNormal : Component → Bool
  | .part (.normal _) => true
  | _ => false

/-! ## Paths of names -/

/-- The first piece of a text up to a slash. -/
theorem head_splitOn (c : Char) (text : List Char) (hc : c ≠ '/') :
    ∃ piece rest, (c :: text).splitOn '/' = (c :: piece) :: rest ∧
      (piece = [] → text = [] ∨ text.head? = some '/') := by
  have hcons : (c :: text).splitOn '/' = (text.splitOn '/').modifyHead (List.cons c) := by
    rw [List.splitOn, List.splitOnP_cons_eq_if_modifyHead, if_neg (by simpa using hc)]
    rfl
  obtain ⟨first, rest, hsplit⟩ := List.exists_cons_of_ne_nil (List.splitOn_ne_nil '/' text)
  refine ⟨first, rest, by rw [hcons, hsplit, List.modifyHead_cons], ?_⟩
  rintro rfl
  cases text with
  | nil => exact .inl rfl
  | cons d text =>
    by_cases hd : d = '/'
    · exact .inr (congrArg some hd)
    · rw [List.splitOn, List.splitOnP_cons_eq_if_modifyHead, if_neg (by simpa using hd)] at hsplit
      obtain ⟨other, others, hother⟩ := List.exists_cons_of_ne_nil (List.splitOn_ne_nil '/' text)
      rw [show List.splitOnP (· == '/') text = other :: others from hother,
        List.modifyHead_cons] at hsplit
      cases hsplit

/-- A text that starts with neither a slash nor a dot has a part. -/
theorem parts_ofText_ne_nil {text : String} (hempty : text ≠ "") (hstart : (ofText text).start = .plain) :
    (ofText text).parts ≠ [] := by
  intro hparts
  cases htext : text.toList with
  | nil => exact hempty (String.toList_eq_nil_iff.mp htext)
  | cons c rest =>
    simp only [ofText, htext] at hstart hparts
    have hc : c ≠ '/' := by
      rintro rfl
      cases hstart
    obtain ⟨piece, pieces, hsplit, hpiece⟩ := head_splitOn c rest hc
    rw [hsplit, List.filterMap_cons] at hparts
    have hdot : c :: piece = ['.'] := by
      by_contra hne
      have hpart : ∃ part, partOf (c :: piece) = some part := by
        rw [partOf, if_neg (by simpa using hne)]
        split_ifs
        · exact ⟨_, rfl⟩
        · exact ⟨_, rfl⟩
      obtain ⟨part, hpart⟩ := hpart
      rw [hpart] at hparts
      cases hparts
    obtain ⟨rfl, rfl⟩ := List.cons.inj hdot
    have hcurDir : startOf ('.' :: rest) = .curDir := by
      rw [startOf, if_neg (by simp), if_pos]
      rcases hpiece rfl with rfl | hslash
      · exact .inl rfl
      · cases rest with
        | nil => exact .inl rfl
        | cons d rest =>
          obtain rfl := Option.some.inj hslash
          exact .inr rfl
    rw [hcurDir] at hstart
    cases hstart

/-- The components of a path are all names when it starts with a name and has no parent directories. -/
theorem all_isNormal_iff {path : PathBuf} :
    path.components.all Component.isNormal = true ↔
      path.start = .plain ∧ ∃ names : List String, path.parts = names.map .normal := by
  have hparts (parts : List Part) : (parts.map Component.part).all Component.isNormal = true ↔
      ∃ names : List String, parts = names.map .normal := by
    induction parts with
    | nil => exact ⟨fun _ ↦ ⟨[], rfl⟩, fun _ ↦ rfl⟩
    | cons part parts ih =>
      rw [List.map_cons, List.all_cons, Bool.and_eq_true, ih]
      constructor
      · rintro ⟨hpart, names, rfl⟩
        cases part with
        | parentDir => cases hpart
        | normal name => exact ⟨name :: names, rfl⟩
      · rintro ⟨names, hnames⟩
        cases names with
        | nil => cases hnames
        | cons name names =>
          obtain ⟨rfl, hrest⟩ := List.cons.inj hnames
          exact ⟨rfl, names, hrest⟩
  rw [components]
  cases path.start with
  | rootDir => simp [Component.isNormal]
  | curDir => simp [Component.isNormal]
  | plain => simp only [hparts, true_and]

/-- A path of names leads into the directory that it is joined to. -/
theorem resolve_join_names {tree : FileTree} {home names found : List String} {path : PathBuf}
    (hhome : Direct tree.nodes home)
    (hlinks : ∀ below target, tree.nodes (home ++ below) ≠ some (.link target))
    (hstart : path.start = .plain) (hparts : path.parts = names.map .normal)
    (hfound : tree.resolve ((ofNames home).join path) = some found) : found = home ++ names := by
  have hstep (below : List String) (name : String) (next : List String)
      (h : tree.step (home ++ below) (.normal name) = some next) : next = home ++ (below ++ [name]) := by
    rw [FileTree.step] at h
    by_cases hdirectory : tree.nodes (home ++ below) = some .directory
    · rw [if_pos hdirectory, List.append_assoc] at h
      cases hnode : tree.nodes (home ++ (below ++ [name])) with
      | none =>
        simp only [hnode] at h
        cases h
      | some node =>
        cases node with
        | link target => exact absurd hnode (hlinks _ target)
        | directory =>
          simp only [hnode] at h
          exact (Option.some.inj h).symm
        | file =>
          simp only [hnode] at h
          exact (Option.some.inj h).symm
    · rw [if_neg hdirectory] at h
      cases h
  have hfold (below : List String) (h : (names.map Part.normal).foldlM tree.step (home ++ below) =
      some found) : found = home ++ (below ++ names) := by
    clear hparts hfound
    induction names generalizing below with
    | nil =>
      rw [List.append_nil]
      exact (Option.some.inj h).symm
    | cons name names ih =>
      rw [List.map_cons, List.foldlM_cons] at h
      obtain ⟨next, hnext, hrest⟩ := Option.bind_eq_some_iff.mp h
      obtain rfl := hstep below name next hnext
      rw [ih _ hrest, List.append_assoc, List.singleton_append]
  have hroot : Start.plain ≠ .rootDir := fun h ↦ by cases h
  have hjoin : (ofNames home).join path = ⟨.rootDir, home.map .normal ++ names.map .normal,
      path.slash || path.parts.isEmpty⟩ := by
    rw [join, if_neg (not_or_intro (hstart ▸ hroot) (not_same_empty rfl)), hparts]
    rfl
  rw [hjoin, FileTree.resolve] at hfound
  simp only [FileTree.origin, Option.bind_some] at hfound
  rw [List.foldlM_append, FileTree.foldlM_normal hhome] at hfound
  have hrest := hfold [] (by rw [List.append_nil]; exact hfound)
  rw [hrest, List.nil_append]

end Foundations.PathBuf
