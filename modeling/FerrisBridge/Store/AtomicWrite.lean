import FerrisBridge.Store.Persistence

/-!
# Atomic and durable writes

Whatever the writers of a file do at the same time, wherever their operations fail and whenever
processes exit or the machine crashes: the file is what it was in the beginning or has the whole content
of a write, also after a crash. Contents that a writer has reported as written, or has confirmed, are
never followed by an older one.

The writers rely on each other to keep to their own temporary files. The names of these are different
as long as processes with the same id do not read the same time and counters do not wrap.
-/

open Foundations

namespace FerrisBridge.Persistence

/-! ## Temporary names -/

def stampText (stamp : (ℕ × ℕ) × ℕ) : List Char :=
  ((Nat.toDigits 10 stamp.1.1 ++ ['.']) ++ ([] ++ (Nat.toDigits 10 stamp.1.2 ++ ['.']))) ++
    ([] ++ (Nat.toDigits 10 stamp.2 ++ ['.']))

theorem prefixFree_stampText : PrefixFree stampText := by
  have hnumber : PrefixFree fun number : ℕ ↦ Nat.toDigits 10 number ++ ['.'] := by
    apply PrefixFree.ended decimal_injective
    intro number h
    exact absurd (isDigit_of_mem_decimal h) (by decide)
  exact (hnumber.join hnumber []).join hnumber []

theorem toList_tempFileName (fileName : String) (id : U32) (nanos : ℕ) (sequence : U64) :
    (tempFileName fileName id nanos sequence).toList ++ ['.'] =
      '.' :: fileName.toList ++ ".tmp.".toList ++ stampText ((id.toNat, nanos), sequence.toNat) := by
  have hdigits (number : ℕ) : (toString number).toList = Nat.toDigits 10 number := Nat.toList_repr
  have htext : (tempFileName fileName id nanos sequence).toList =
      ".".toList ++ fileName.toList ++ ".tmp.".toList ++ (toString id.toNat).toList ++ ".".toList ++
        (toString nanos).toList ++ ".".toList ++ (toString sequence.toNat).toList := by
    simp only [← String.toList_append]
    rfl
  rw [htext, hdigits, hdigits, hdigits, stampText]
  simp

theorem tempFileName_injective {fileName : String} {id id' : U32} {nanos nanos' : ℕ}
    {sequence sequence' : U64}
    (h : tempFileName fileName id nanos sequence = tempFileName fileName id' nanos' sequence') :
    id = id' ∧ nanos = nanos' ∧ sequence = sequence' := by
  have hlist := congrArg (fun text ↦ text.toList ++ ['.']) h
  simp only [toList_tempFileName, List.append_cancel_left_eq] at hlist
  have hstamp := prefixFree_stampText.injective hlist
  simp only [Prod.mk.injEq] at hstamp
  exact ⟨Word.toNat_injective hstamp.1.1, hstamp.1.2, Word.toNat_injective hstamp.2⟩

theorem tempPathFor_injective {path : PathBuf} {id id' : U32} {nanos nanos' : ℕ}
    {sequence sequence' : U64}
    (h : tempPathFor path id nanos sequence = tempPathFor path id' nanos' sequence') :
    id = id' ∧ nanos = nanos' ∧ sequence = sequence' :=
  tempFileName_injective (PathBuf.withFileName_injective h)

theorem length_tempFileName (fileName : String) (id : U32) (nanos : ℕ) (sequence : U64) :
    fileName.toList.length < (tempFileName fileName id nanos sequence).toList.length := by
  have hlength := congrArg List.length (toList_tempFileName fileName id nanos sequence)
  have hdigits : 0 < (Nat.toDigits 10 id.toNat).length := Nat.length_toDigits_pos
  simp only [List.length_append, List.length_cons, List.length_nil, stampText,
    (by decide : ".tmp.".toList.length = 5)] at hlength
  omega

/-- A temporary file is not the file that is written. -/
theorem tempPathFor_ne (path : PathBuf) (id : U32) (nanos : ℕ) (sequence : U64) :
    tempPathFor path id nanos sequence ≠ path := by
  intro heq
  cases hname : path.fileName with
  | none =>
    have hlength := congrArg (fun path ↦ path.parts.length) heq
    simp [tempPathFor, PathBuf.withFileName, hname, PathBuf.push] at hlength
  | some name =>
    obtain ⟨front, hparts⟩ := PathBuf.parts_of_fileName hname
    have hpop : path.pop = some ⟨path.start, front, false⟩ := by
      simp [PathBuf.pop, hparts]
    have hsame := congrArg PathBuf.parts heq
    simp only [tempPathFor, PathBuf.withFileName, hname, hpop, Option.isSome_some, if_true,
      Option.getD_some, PathBuf.push, hparts] at hsame
    have htext := PathBuf.Part.normal.inj (List.singleton_inj.mp (List.append_cancel_left hsame))
    have hlt := length_tempFileName name id nanos sequence
    rw [htext] at hlt
    omega

/-! ## What is assumed of a run -/

/-- The counter of a process does not wrap, and processes with the same id read different times. -/
def assumptions : Machine.Condition Writer Volume Op Outcome Incident where
  operation volume writer op outcome :=
    op = .tempPathFor → (volume.nextTempFile writer.process).toNat + 1 < 2 ^ 64 ∧
      ∀ draw ∈ volume.drawn, draw.writer.process.id = writer.process.id →
        draw.nanos = outcome.nanos → draw.writer.process = writer.process
  event _ _ := True

instance (volume : Volume) (writer : Writer) (op : Op) (outcome : Outcome) :
    Decidable (assumptions.operation volume writer op outcome) :=
  inferInstanceAs (Decidable (op = .tempPathFor → _ ∧ ∀ draw ∈ volume.drawn, _))

instance (volume : Volume) (incident : Incident) : Decidable (assumptions.event volume incident) :=
  inferInstanceAs (Decidable True)

namespace Volume

/-! ## The protocol -/

/-- Everything that may be found under the path is the whole of one of the contents that have been
there, and none that was there before the confirmed one. -/
structure Inv (path : PathBuf) (given : Option Bytes → Prop) (volume : Volume) : Prop where
  bounded : volume.directory.Bounded
  solid : volume.directory.Solid path
  numbered : ∀ entry ∈ volume.directory.possible path, volume.confirmed ≤ volume.rankOf entry ∧
    volume.replaced[volume.rankOf entry]? = some (volume.directory.contentOf entry)
  lasting : volume.Anchored ∨ volume.confirmed = 0 ∧ volume.replaced[0]? = some none
  contents : ∀ content ∈ volume.replaced, given content
  acknowledged : ∀ told ∈ volume.acknowledged,
    told.1 ≤ volume.confirmed ∧ volume.replaced[told.1]? = some told.2
  drawn : ∀ draw ∈ volume.drawn, draw.sequence < volume.nextTempFile draw.writer.process ∧
    draw.path = tempPathFor path draw.writer.process.id draw.nanos draw.sequence
  owner : ∀ draw ∈ volume.drawn, ∀ draw' ∈ volume.drawn, draw.path = draw'.path →
    draw.writer = draw'.writer
  created : ∀ file writer, volume.author file = some writer →
    file < volume.directory.next ∧ writer.process.boot ≤ volume.boot
  bootsDrawn : ∀ draw ∈ volume.drawn, draw.writer.process.boot ≤ volume.boot
  bootsLatest : ∀ writer, volume.boot < writer.process.boot → volume.latest writer = 0

/-- What the others leave to a writer that is not dead. -/
structure Kept (path : PathBuf) (writer : Writer) (before after : Volume) : Prop where
  alive : ¬before.Dead writer
  drawn : ∀ draw ∈ before.drawn, draw ∈ after.drawn
  entries : ∀ draw ∈ before.drawn, draw.writer = writer →
    after.directory.entries draw.path = before.directory.entries draw.path
  author : ∀ file, before.author file = some writer → after.author file = some writer
  files : ∀ file, before.author file = some writer →
    after.directory.files file = before.directory.files file
  apart : ∀ file, before.author file = some writer → before.directory.Apart path file →
    after.directory.Apart path file
  replaced : before.replaced <+: after.replaced
  latest : after.latest writer = before.latest writer
  placed : before.latest writer ≤ before.current path → after.latest writer ≤ after.current path
  durable : (before.Anchored → before.latest writer ≤ before.confirmed) →
    after.Anchored → after.latest writer ≤ after.confirmed

def Other (path : PathBuf) (writer : Writer) (before after : Volume) : Prop :=
  ¬after.Dead writer → Kept path writer before after

variable {path : PathBuf} {given : Option Bytes → Prop} {volume before after : Volume}
  {writer other : Writer} {file : ℕ} {temp : PathBuf}

theorem Running.not_dead (h : volume.Running writer) : ¬volume.Dead writer := by
  rintro (hboot | hexited)
  · exact absurd h.1 hboot.ne
  · rw [h.2] at hexited
    cases hexited

theorem Other.refl (path : PathBuf) (writer : Writer) (volume : Volume) : Other path writer volume volume :=
  fun halive ↦
    { alive := halive
      drawn := fun _ h ↦ h
      entries := fun _ _ _ ↦ rfl
      author := fun _ h ↦ h
      files := fun _ _ ↦ rfl
      apart := fun _ _ h ↦ h
      replaced := List.prefix_rfl
      latest := rfl
      placed := fun h ↦ h
      durable := fun h ↦ h }

theorem Other.trans (path : PathBuf) (writer : Writer) (a b c : Volume) (hab : Other path writer a b)
    (hbc : Other path writer b c) : Other path writer a c := by
  intro halive
  have hsecond := hbc halive
  have hfirst := hab hsecond.alive
  exact
    { alive := hfirst.alive
      drawn := fun draw h ↦ hsecond.drawn draw (hfirst.drawn draw h)
      entries := fun draw h hwriter ↦
        (hsecond.entries draw (hfirst.drawn draw h) hwriter).trans (hfirst.entries draw h hwriter)
      author := fun file h ↦ hsecond.author file (hfirst.author file h)
      files := fun file h ↦ (hsecond.files file (hfirst.author file h)).trans (hfirst.files file h)
      apart := fun file h hapart ↦
        hsecond.apart file (hfirst.author file h) (hfirst.apart file h hapart)
      replaced := hfirst.replaced.trans hsecond.replaced
      latest := hsecond.latest.trans hfirst.latest
      placed := fun h ↦ hsecond.placed (hfirst.placed h)
      durable := fun h ↦ hsecond.durable (hfirst.durable h) }

/-! ### Changes of the directory -/

theorem contentOf_eq {directory : Directory PathBuf UInt8} {entry : Option ℕ}
    (h : ∀ file ∈ entry, directory.files file = volume.directory.files file) :
    directory.contentOf entry = volume.directory.contentOf entry := by
  cases entry with
  | none => rfl
  | some file => rw [Directory.contentOf, Directory.contentOf, Option.map_some, Option.map_some, h file rfl]

/-- The directory changes away from the path. -/
theorem Inv.setDirectory {directory : Directory PathBuf UInt8} (h : volume.Inv path given)
    (hbounded : directory.Bounded) (hnext : volume.directory.next ≤ directory.next)
    (hpossible : directory.possible path = volume.directory.possible path)
    (hfiles : ∀ file, ¬volume.directory.Apart path file →
      directory.files file = volume.directory.files file) :
    (volume.setDirectory directory).Inv path given := by
  have hpossibleFiles (entry : Option ℕ) (hentry : entry ∈ volume.directory.possible path)
      (file : ℕ) (hfile : file ∈ entry) : directory.files file = volume.directory.files file := by
    apply hfiles
    intro hapart
    obtain rfl := Option.mem_def.mp hfile
    exact hapart hentry
  refine { h with bounded := hbounded, solid := ?_, numbered := ?_, created := ?_ }
  · intro entry hentry file hfile
    have hentry' : entry ∈ volume.directory.possible path := hpossible ▸ hentry
    change (directory.files file).stored = true
    rw [hpossibleFiles entry hentry' file hfile]
    exact h.solid entry hentry' file hfile
  · intro entry hentry
    have hentry' : entry ∈ volume.directory.possible path := hpossible ▸ hentry
    obtain ⟨hconfirmed, hcontent⟩ := h.numbered entry hentry'
    refine ⟨hconfirmed, hcontent.trans (congrArg some ?_)⟩
    exact (contentOf_eq (hpossibleFiles entry hentry')).symm
  · intro file writer hauthor
    exact ⟨(h.created file writer hauthor).1.trans_le hnext, (h.created file writer hauthor).2⟩

theorem other_setDirectory {directory : Directory PathBuf UInt8}
    (hentries : ∀ draw ∈ volume.drawn, draw.writer = other →
      directory.entries draw.path = volume.directory.entries draw.path)
    (hpossible : directory.possible path = volume.directory.possible path)
    (hfiles : ∀ file, volume.author file = some other →
      directory.files file = volume.directory.files file) :
    Other path other volume (volume.setDirectory directory) := by
  intro halive
  have hcurrent : (volume.setDirectory directory).current path = volume.current path :=
    congrArg volume.rankOf (List.cons.inj hpossible).1
  exact
    { alive := halive
      drawn := fun _ h ↦ h
      entries := hentries
      author := fun _ h ↦ h
      files := hfiles
      apart := fun file _ hapart hentry ↦ hapart (hpossible ▸ hentry)
      replaced := List.prefix_rfl
      latest := rfl
      placed := fun h ↦ h.trans hcurrent.ge
      durable := fun h ↦ h }

/-- A writer changes a file of its own that is not under the path. -/
theorem keeps_setFile {value : StoredFile UInt8} (h : volume.Inv path given)
    (hauthor : volume.author file = some writer) (hapart : volume.directory.Apart path file) :
    (volume.setDirectory (volume.directory.setFile file value)).Inv path given ∧
      ∀ other ≠ writer, Other path other volume
        (volume.setDirectory (volume.directory.setFile file value)) := by
  constructor
  · have hbounded : (volume.directory.setFile file value).Bounded := h.bounded
    refine h.setDirectory hbounded le_rfl rfl ?_
    intro file' hpossible
    apply Directory.files_setFile_of_ne
    rintro rfl
    exact hpossible hapart
  · intro other hother
    refine other_setDirectory (fun _ _ _ ↦ rfl) rfl ?_
    intro file' hfile'
    apply Directory.files_setFile_of_ne
    rintro rfl
    exact hother (Option.some.inj (hfile'.symm.trans hauthor))

/-- The path of a temporary file of the writer. -/
def Drew (volume : Volume) (writer : Writer) (temp : PathBuf) : Prop :=
  ∃ draw ∈ volume.drawn, draw.writer = writer ∧ draw.path = temp

theorem Drew.ne (hdrew : volume.Drew writer temp) (h : volume.Inv path given) : temp ≠ path := by
  obtain ⟨draw, hdraw, -, rfl⟩ := hdrew
  rw [(h.drawn draw hdraw).2]
  exact tempPathFor_ne path _ _ _

/-- Nobody else has drawn the same path. -/
theorem Drew.ne_other (hdrew : volume.Drew writer temp) (h : volume.Inv path given)
    (hother : other ≠ writer) {draw : Draw} (hdraw : draw ∈ volume.drawn)
    (hwriter : draw.writer = other) : draw.path ≠ temp := by
  obtain ⟨own, hown, rfl, rfl⟩ := hdrew
  intro heq
  apply hother
  rw [← hwriter]
  exact h.owner draw hdraw own hown heq

theorem keeps_removeFile (h : volume.Inv path given) (hdrew : volume.Drew writer temp) :
    (volume.removeFile temp).2.Inv path given ∧
      ∀ other ≠ writer, Other path other volume (volume.removeFile temp).2 := by
  rw [removeFile]
  cases hentry : volume.directory.entries temp with
  | none => exact ⟨h, fun other _ ↦ Other.refl path other volume⟩
  | some file =>
    have hpossible := volume.directory.possible_remove_of_ne (hdrew.ne h).symm
    constructor
    · exact h.setDirectory h.bounded.remove le_rfl hpossible fun _ _ ↦ rfl
    · intro other hother
      apply other_setDirectory _ hpossible fun _ _ ↦ rfl
      intro draw hdraw hwriter
      exact Directory.entries_remove_of_ne (hdrew.ne_other h hother hdraw hwriter)

/-! ### New files -/

theorem Inv.setAuthor (h : volume.Inv path given) (hfile : file < volume.directory.next)
    (hboot : writer.process.boot ≤ volume.boot) :
    ({ volume with author := Function.update volume.author file (some writer) } : Volume).Inv path given := by
  refine { h with created := ?_ }
  intro file' writer' hauthor
  by_cases hfile' : file' = file
  · subst hfile'
    obtain rfl : writer = writer' := by simpa using hauthor
    exact ⟨hfile, hboot⟩
  · exact h.created file' writer' (by simpa [hfile'] using hauthor)

theorem other_setAuthor (hauthor : volume.author file = none) :
    Other path other volume
      { volume with author := Function.update volume.author file (some writer) } := by
  intro halive
  refine { Other.refl path other volume halive with author := ?_ }
  intro file' hfile'
  have hne : file' ≠ file := by
    rintro rfl
    rw [hauthor] at hfile'
    cases hfile'
  exact (Function.update_of_ne hne ..).trans hfile'

theorem Inv.author_next (h : volume.Inv path given) : volume.author volume.directory.next = none := by
  cases hauthor : volume.author volume.directory.next with
  | none => rfl
  | some writer => exact absurd (h.created _ writer hauthor).1 (lt_irrefl _)

theorem files_create_of_ne (hfile : file ≠ volume.directory.next) :
    (volume.directory.create temp).files file = volume.directory.files file :=
  Function.update_of_ne hfile ..

theorem keeps_openPrivateNewFile (h : volume.Inv path given) (hrunning : volume.Running writer)
    (hdrew : volume.Drew writer temp) :
    (volume.openPrivateNewFile temp writer).2.Inv path given ∧
      ∀ other ≠ writer, Other path other volume (volume.openPrivateNewFile temp writer).2 := by
  rw [openPrivateNewFile]
  split_ifs with hparent hexists
  · exact ⟨h, fun other _ ↦ Other.refl path other volume⟩
  · exact ⟨h, fun other _ ↦ Other.refl path other volume⟩
  · have hpossible := volume.directory.possible_create_of_ne (hdrew.ne h).symm
    have hcreated : (volume.setDirectory (volume.directory.create temp)).Inv path given := by
      apply h.setDirectory h.bounded.create (Nat.le_succ _) hpossible
      intro file hfile
      apply files_create_of_ne
      rintro rfl
      exact hfile fun hentry ↦ (h.bounded.ne_next hentry rfl) rfl
    constructor
    · exact hcreated.setAuthor (Nat.lt_succ_self _) hrunning.1.le
    · intro other hother
      refine Other.trans path other _ (volume.setDirectory (volume.directory.create temp)) _ ?_ ?_
      · apply other_setDirectory _ hpossible
        · intro file hfile
          exact files_create_of_ne (h.created file other hfile).1.ne
        · intro draw hdraw hwriter
          exact Directory.entries_create_of_ne (hdrew.ne_other h hother hdraw hwriter)
      · exact other_setAuthor h.author_next

/-! ### Temporary names -/

theorem keeps_drawTempPath {outcome : Outcome} (h : volume.Inv path given)
    (hrunning : volume.Running writer)
    (hcondition : assumptions.operation volume writer .tempPathFor outcome) :
    (volume.drawTempPath path writer outcome.nanos).2.Inv path given ∧
      ∀ other ≠ writer, Other path other volume (volume.drawTempPath path writer outcome.nanos).2 := by
  obtain ⟨hwrap, hclock⟩ := hcondition rfl
  have hgrown : ((volume.nextTempFile writer.process).wrappingAdd 1).toNat =
      (volume.nextTempFile writer.process).toNat + 1 := Word.toNat_wrappingAdd hwrap
  have hlt : volume.nextTempFile writer.process <
      (volume.nextTempFile writer.process).wrappingAdd 1 := by
    rw [Word.lt_iff_toNat, hgrown]
    exact Nat.lt_succ_self _
  -- an equal path would repeat the id, the time and the number, and so the process too
  have hfresh : ∀ draw ∈ volume.drawn, draw.path ≠
      tempPathFor path writer.process.id outcome.nanos (volume.nextTempFile writer.process) := by
    intro draw hdraw hpath
    obtain ⟨hsequence, hmade⟩ := h.drawn draw hdraw
    rw [hmade] at hpath
    obtain ⟨hid, hnanos, hnumber⟩ := tempPathFor_injective hpath
    rw [hclock draw hdraw hid hnanos, hnumber] at hsequence
    exact lt_irrefl _ hsequence
  constructor
  · refine { h with drawn := ?_, owner := ?_, bootsDrawn := ?_ }
    · intro draw hdraw
      change draw.sequence < Function.update volume.nextTempFile writer.process _ _ ∧ _
      rcases List.mem_cons.mp hdraw with rfl | hdraw
      · rw [Function.update_self]
        exact ⟨hlt, rfl⟩
      · obtain ⟨hsequence, hmade⟩ := h.drawn draw hdraw
        refine ⟨?_, hmade⟩
        by_cases hprocess : draw.writer.process = writer.process
        · rw [hprocess, Function.update_self]
          rw [hprocess] at hsequence
          exact hsequence.trans hlt
        · rwa [Function.update_of_ne hprocess]
    · intro draw hdraw draw' hdraw' hpath
      rcases List.mem_cons.mp hdraw with rfl | hdraw
      · rcases List.mem_cons.mp hdraw' with rfl | hdraw'
        · rfl
        · exact absurd hpath.symm (hfresh draw' hdraw')
      · rcases List.mem_cons.mp hdraw' with rfl | hdraw'
        · exact absurd hpath (hfresh draw hdraw)
        · exact h.owner draw hdraw draw' hdraw' hpath
    · intro draw hdraw
      rcases List.mem_cons.mp hdraw with rfl | hdraw
      · exact hrunning.1.le
      · exact h.bootsDrawn draw hdraw
  · exact fun other _ halive ↦
      { Other.refl path other volume halive with
        drawn := fun draw hdraw ↦ List.mem_cons_of_mem _ hdraw }

/-! ### The contents under the path -/

theorem Inv.current_spec (h : volume.Inv path given) : volume.confirmed ≤ volume.current path ∧
    volume.replaced[volume.current path]? = some (volume.directory.read path) :=
  h.numbered _ Directory.entry_mem_possible

theorem Inv.current_lt (h : volume.Inv path given) : volume.current path < volume.replaced.length :=
  (List.getElem?_eq_some_iff.mp h.current_spec.2).1

theorem getElem?_append_of_eq_some {contents more : List (Option Bytes)} {index : ℕ}
    {content : Option Bytes} (h : contents[index]? = some content) :
    (contents ++ more)[index]? = some content := by
  rw [List.getElem?_append_left (List.getElem?_eq_some_iff.mp h).1]
  exact h

theorem rename_eq (hentry : volume.directory.entries temp = some file) :
    volume.rename path writer temp path =
      (.ok (), { volume with
        directory := volume.directory.rename temp path
        rank := Function.update volume.rank file volume.replaced.length
        replaced := volume.replaced ++ [some (volume.directory.files file).content]
        latest := Function.update volume.latest writer volume.replaced.length }) := by
  simp only [rename, hentry, setDirectory, if_true]

/-- A stored temporary file of the writer is put in place. -/
theorem keeps_rename (h : volume.Inv path given) (hrunning : volume.Running writer)
    (hdrew : volume.Drew writer temp) (hentry : volume.directory.entries temp = some file)
    (hauthor : volume.author file = some writer) (hapart : volume.directory.Apart path file)
    (hstored : (volume.directory.files file).stored = true)
    (hgiven : given (some (volume.directory.files file).content)) :
    (volume.rename path writer temp path).2.Inv path given ∧
      ∀ other ≠ writer, Other path other volume (volume.rename path writer temp path).2 := by
  rw [rename_eq hentry]
  have hne := hdrew.ne h
  have hpossible : (volume.directory.rename temp path).possible path =
      some file :: volume.directory.possible path := by
    rw [Directory.possible_rename_target hne.symm, hentry]
  constructor
  · refine { h with
      bounded := h.bounded.rename, solid := ?_, numbered := ?_, lasting := ?_, contents := ?_,
      acknowledged := ?_, bootsLatest := ?_ }
    · intro entry hmem file' hfile'
      rcases List.mem_cons.mp (hpossible ▸ hmem) with rfl | hmem
      · obtain rfl := Option.some.inj hfile'
        exact hstored
      · exact h.solid entry hmem file' hfile'
    · intro entry hmem
      rcases List.mem_cons.mp (hpossible ▸ hmem) with rfl | hold
      · have hrank : (Function.update volume.rank file volume.replaced.length) file =
            volume.replaced.length := Function.update_self ..
        change _ ≤ (Function.update volume.rank file volume.replaced.length) file ∧
          (volume.replaced ++ _)[(Function.update volume.rank file volume.replaced.length) file]? = _
        rw [hrank, List.getElem?_concat_length]
        exact ⟨h.current_spec.1.trans h.current_lt.le, rfl⟩
      · have hsame : entry.elim 0 (Function.update volume.rank file volume.replaced.length) =
            volume.rankOf entry := by
          cases entry with
          | none => rfl
          | some file' =>
            apply Function.update_of_ne
            rintro rfl
            exact hapart hold
        obtain ⟨hconfirmed, hcontent⟩ := h.numbered entry hold
        change _ ≤ entry.elim 0 _ ∧ (volume.replaced ++ _)[entry.elim 0 _]? = _
        rw [hsame]
        exact ⟨hconfirmed, getElem?_append_of_eq_some hcontent⟩
    · exact h.lasting.imp_right fun hlost ↦ ⟨hlost.1, getElem?_append_of_eq_some hlost.2⟩
    · intro content hcontent
      rcases List.mem_append.mp hcontent with hcontent | hcontent
      · exact h.contents content hcontent
      · obtain rfl := List.mem_singleton.mp hcontent
        exact hgiven
    · intro told htold
      obtain ⟨hconfirmed, hcontent⟩ := h.acknowledged told htold
      exact ⟨hconfirmed, getElem?_append_of_eq_some hcontent⟩
    · intro writer' hboot
      have hwriter' : writer' ≠ writer := by
        rintro rfl
        exact absurd hrunning.1 hboot.ne'
      exact (Function.update_of_ne hwriter' ..).trans (h.bootsLatest writer' hboot)
  · intro other hother halive
    have hlatest : Function.update volume.latest writer volume.replaced.length other =
        volume.latest other := Function.update_of_ne hother ..
    exact
      { alive := halive
        drawn := fun _ hdraw ↦ hdraw
        entries := by
          intro draw hdraw hwriter
          apply Directory.entries_rename_of_ne (hdrew.ne_other h hother hdraw hwriter)
          rw [(h.drawn draw hdraw).2]
          exact tempPathFor_ne path _ _ _
        author := fun _ hfile ↦ hfile
        files := fun _ _ ↦ rfl
        apart := by
          intro file' hfile' hapart' hmem
          rcases List.mem_cons.mp (hpossible ▸ hmem) with heq | hmem
          · obtain rfl := Option.some.inj heq
            exact hother (Option.some.inj (hfile'.symm.trans hauthor))
          · exact hapart' hmem
        replaced := List.prefix_append _ _
        latest := hlatest
        placed := by
          intro hplaced
          have hentry' : (volume.directory.rename temp path).entries path = some file := by
            rw [Directory.entries_rename_target hne.symm, hentry]
          change Function.update volume.latest writer _ other ≤
            ((volume.directory.rename temp path).entries path).elim 0 _
          rw [hlatest, hentry']
          change _ ≤ Function.update volume.rank file volume.replaced.length file
          rw [Function.update_self]
          exact hplaced.trans h.current_lt.le
        durable := by
          intro hdurable hanchored
          change Function.update volume.latest writer _ other ≤ _
          rw [hlatest]
          exact hdurable hanchored }

theorem syncParent_eq (hparent : volume.parent = some .directory) :
    volume.syncParent path = (.ok (), { volume with
      directory := volume.directory.storeEntries
      confirmed := if volume.Anchored then volume.current path else volume.confirmed }) :=
  if_neg (not_not_intro hparent)

theorem keeps_syncParent (h : volume.Inv path given) :
    (volume.syncParent path).2.Inv path given ∧
      ∀ other, Other path other volume (volume.syncParent path).2 := by
  by_cases hparent : volume.parent = some .directory
  · rw [syncParent_eq hparent]
    have hgrown : volume.confirmed ≤
        if volume.Anchored then volume.current path else volume.confirmed := by
      split_ifs
      · exact h.current_spec.1
      · exact le_rfl
    have hcurrent : (if volume.Anchored then volume.current path else volume.confirmed) ≤
        volume.current path := by
      split_ifs
      · exact le_rfl
      · exact h.current_spec.1
    constructor
    · refine { h with
        bounded := h.bounded.storeEntries, solid := h.solid.storeEntries, numbered := ?_,
        lasting := ?_, acknowledged := ?_ }
      · intro entry hmem
        obtain rfl := List.mem_singleton.mp hmem
        exact ⟨hcurrent, h.current_spec.2⟩
      · by_cases hanchored : volume.Anchored
        · exact .inl hanchored
        · have hlost := h.lasting.resolve_left hanchored
          refine .inr ⟨?_, hlost.2⟩
          exact (if_neg hanchored).trans hlost.1
      · intro told htold
        obtain ⟨hconfirmed, hcontent⟩ := h.acknowledged told htold
        exact ⟨hconfirmed.trans hgrown, hcontent⟩
    · exact fun other halive ↦
        { Other.refl path other volume halive with
          apart := by
            intro file hauthor hapart hmem
            have heq : some file = volume.directory.entries path := List.mem_singleton.mp hmem
            exact hapart (heq ▸ Directory.entry_mem_possible)
          durable := fun hdurable hanchored ↦ (hdurable hanchored).trans hgrown }
  · rw [show volume.syncParent path = (.error notFound, volume) from if_pos hparent]
    exact ⟨h, fun other ↦ Other.refl path other volume⟩

theorem keeps_tryExists (h : volume.Inv path given) (hrunning : volume.Running writer) :
    (volume.tryExists path writer).2.Inv path given ∧
      ∀ other ≠ writer, Other path other volume (volume.tryExists path writer).2 := by
  constructor
  · refine { h with bootsLatest := ?_ }
    intro writer' hboot
    have hwriter' : writer' ≠ writer := by
      rintro rfl
      exact absurd hrunning.1 hboot.ne'
    exact (Function.update_of_ne hwriter' ..).trans (h.bootsLatest writer' hboot)
  · intro other hother halive
    have hlatest : Function.update volume.latest writer (volume.current path) other =
        volume.latest other := Function.update_of_ne hother ..
    exact
      { Other.refl path other volume halive with
        latest := hlatest
        placed := fun hplaced ↦ hlatest.le.trans hplaced
        durable := fun hdurable hanchored ↦ hlatest.le.trans (hdurable hanchored) }

theorem keeps_acknowledge {content : Option Bytes} (h : volume.Inv path given)
    (hcontent : volume.replaced[volume.latest writer]? = some content)
    (hdurable : volume.Anchored → volume.latest writer ≤ volume.confirmed) :
    (volume.acknowledge writer content).Inv path given ∧
      ∀ other, Other path other volume (volume.acknowledge writer content) := by
  rw [acknowledge]
  split_ifs with hanchored
  · constructor
    · refine { h with acknowledged := ?_ }
      intro told htold
      rcases List.mem_cons.mp htold with rfl | htold
      · exact ⟨hdurable hanchored, hcontent⟩
      · exact h.acknowledged told htold
    · exact fun other halive ↦ { Other.refl path other volume halive with }
  · exact ⟨h, fun other ↦ Other.refl path other volume⟩

theorem keeps_createPrivateDir (h : volume.Inv path given) :
    volume.createPrivateDir.2.Inv path given ∧
      ∀ other, Other path other volume volume.createPrivateDir.2 := by
  rw [createPrivateDir]
  cases hparent : volume.parent with
  | none =>
    have hanchored : ¬volume.Anchored := by
      rintro ⟨hdirectory, -⟩
      rw [hparent] at hdirectory
      cases hdirectory
    constructor
    · exact { h with lasting := .inr (h.lasting.resolve_left hanchored) }
    · exact fun other halive ↦
        { Other.refl path other volume halive with
          durable := fun _ hafter ↦ by cases hafter.2 }
  | some kind =>
    cases kind with
    | directory => exact ⟨h, fun other ↦ Other.refl path other volume⟩
    | other => exact ⟨h, fun other ↦ Other.refl path other volume⟩

/-! ### Exits and crashes -/

/-- A crash leaves no process alive, and those of the next boot own nothing yet. -/
theorem other_crash (h : volume.Inv path given) (hboot : after.boot = volume.boot + 1)
    (hexited : after.exited = volume.exited) (hdrawn : after.drawn = volume.drawn)
    (hreplaced : after.replaced = volume.replaced) (hlatest : after.latest = volume.latest) :
    Other path other volume after := by
  intro halive
  have hborn : volume.boot < other.process.boot := by
    by_contra hle
    exact halive (.inl (by omega))
  have hzero : after.latest other = 0 := by
    rw [hlatest]
    exact h.bootsLatest other hborn
  have hauthor (file : ℕ) : volume.author file ≠ some other := by
    intro hauthor
    exact absurd (h.created file other hauthor).2 (by omega)
  exact
    { alive := by
        rintro (hlt | hgone)
        · omega
        · exact halive (.inr (hexited ▸ hgone))
      drawn := fun draw hdraw ↦ hdrawn ▸ hdraw
      entries := by
        rintro draw hdraw rfl
        exact absurd (h.bootsDrawn draw hdraw) (by omega)
      author := fun file hfile ↦ absurd hfile (hauthor file)
      files := fun file hfile ↦ absurd hfile (hauthor file)
      apart := fun file hfile ↦ absurd hfile (hauthor file)
      replaced := hreplaced ▸ List.prefix_rfl
      latest := congrFun hlatest other
      placed := fun _ ↦ hzero ▸ Nat.zero_le _
      durable := fun _ _ ↦ hzero ▸ Nat.zero_le _ }

theorem inv_crash (h : volume.Inv path given) (loss : Loss PathBuf UInt8) (losesDirectory : Bool) :
    (volume.occur (.crash loss losesDirectory)).Inv path given := by
  have hboot {boot : ℕ} (hle : boot ≤ volume.boot) : boot ≤ volume.boot + 1 := hle.trans (Nat.le_succ _)
  have hborn {boot : ℕ} (hlt : volume.boot + 1 < boot) : volume.boot < boot :=
    (Nat.lt_succ_self _).trans hlt
  rw [occur]
  split_ifs with hlost
  · have hnone := h.lasting.resolve_left hlost.2
    refine { h with
      bounded := .clear, solid := ?_, numbered := ?_, lasting := .inr hnone,
      created := fun file writer hauthor ↦
        ⟨(h.created file writer hauthor).1, hboot (h.created file writer hauthor).2⟩,
      bootsDrawn := fun draw hdraw ↦ hboot (h.bootsDrawn draw hdraw),
      bootsLatest := fun writer hlt ↦ h.bootsLatest writer (hborn hlt) }
    · intro entry hmem file hfile
      obtain rfl := List.mem_singleton.mp hmem
      cases hfile
    · intro entry hmem
      obtain rfl := List.mem_singleton.mp hmem
      exact ⟨hnone.1.le, hnone.2⟩
  · refine { h with
      bounded := h.bounded.crash loss, solid := h.solid.crash loss, numbered := ?_,
      lasting := ?_,
      created := fun file writer hauthor ↦
        ⟨(h.created file writer hauthor).1, hboot (h.created file writer hauthor).2⟩,
      bootsDrawn := fun draw hdraw ↦ hboot (h.bootsDrawn draw hdraw),
      bootsLatest := fun writer hlt ↦ h.bootsLatest writer (hborn hlt) }
    · intro entry hmem
      obtain rfl := List.mem_singleton.mp hmem
      have hsurvivor := volume.directory.survivor_mem_possible loss path
      obtain ⟨hconfirmed, hcontent⟩ := h.numbered _ hsurvivor
      refine ⟨hconfirmed, hcontent.trans (congrArg some ?_)⟩
      exact (h.solid.contentOf_crash hsurvivor).symm
    · exact h.lasting.imp_left fun hanchored ↦ ⟨hanchored.1, rfl⟩

theorem occur_keeps (volume : Volume) (incident : Incident) (h : volume.Inv path given)
    (_ : assumptions.event volume incident) : (volume.occur incident).Inv path given ∧
      ∀ other, Other path other volume (volume.occur incident) := by
  cases incident with
  | exit process =>
    refine ⟨{ h with }, fun other halive ↦ ?_⟩
    have hbefore : ¬volume.Dead other := by
      rintro (hlt | hgone)
      · exact halive (.inl hlt)
      · apply halive
        right
        change Function.update volume.exited process true other.process = true
        by_cases hprocess : other.process = process
        · rw [hprocess, Function.update_self]
        · rwa [Function.update_of_ne hprocess]
    exact { Other.refl path other volume hbefore with }
  | crash loss losesDirectory =>
    refine ⟨inv_crash h loss losesDirectory, fun other ↦ ?_⟩
    rw [occur]
    split_ifs
    · exact other_crash h rfl rfl rfl rfl rfl
    · exact other_crash h rfl rfl rfl rfl rfl

end Volume

end FerrisBridge.Persistence
