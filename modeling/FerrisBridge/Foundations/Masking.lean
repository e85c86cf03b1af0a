import FerrisBridge.Foundations.Occurrence

/-!
# Masked sequences

A sequence is masked when some of its parts are replaced by marks and the rest is copied. What a
masked sequence shows was in the original one. It can be cut where no mark is cut, and its end can be
taken where what is left of a mark is a mark itself.
-/

namespace Foundations

variable {α : Type} {marks : List (List α)}

/-- The second sequence is the first one with marks in the place of some of its parts. -/
inductive Masked (marks : List (List α)) : List α → List α → Prop
  | nil : Masked marks [] []
  | keep (a : α) {text output : List α} (hrest : Masked marks text output) :
    Masked marks (a :: text) (a :: output)
  | mask (hidden : List α) {mark text output : List α} (hmark : mark ∈ marks)
    (hrest : Masked marks text output) : Masked marks (hidden ++ text) (mark ++ output)

namespace Masked

variable {text output text' output' : List α}

theorem refl (text : List α) : Masked marks text text := by
  induction text with
  | nil => exact nil
  | cons a text ih => exact keep a ih

theorem append (h : Masked marks text output) (h' : Masked marks text' output') :
    Masked marks (text ++ text') (output ++ output') := by
  induction h with
  | nil => exact h'
  | keep a hrest ih => exact keep a ih
  | mask hidden hmark hrest ih =>
    rw [List.append_assoc, List.append_assoc]
    exact mask hidden hmark ih

theorem flatten_map {β : Type} {f g : β → List α} {parts : List β}
    (h : ∀ part ∈ parts, Masked marks (f part) (g part)) :
    Masked marks (parts.map f).flatten (parts.map g).flatten := by
  induction parts with
  | nil => exact nil
  | cons part parts ih =>
    rw [List.map_cons, List.map_cons, List.flatten_cons, List.flatten_cons]
    exact (h part List.mem_cons_self).append (ih fun other hother ↦ h other (List.mem_cons_of_mem part hother))

/-- Where no mark is cut, the two sides of the cut are masked by themselves. -/
theorem split {first second : List α} (h : Masked marks text (first ++ second))
    (hcut : ∀ a ∈ first.getLast?, ∀ mark ∈ marks, a ∉ mark) :
    ∃ front back, text = front ++ back ∧ Masked marks front first ∧ Masked marks back second := by
  generalize houtput : first ++ second = output at h
  induction h generalizing first with
  | nil =>
    obtain ⟨rfl, rfl⟩ := List.append_eq_nil_iff.mp houtput
    exact ⟨[], [], rfl, nil, nil⟩
  | @keep a text output hrest ih =>
    cases first with
    | nil =>
      rw [List.nil_append] at houtput
      exact ⟨[], a :: text, rfl, nil, houtput ▸ keep a hrest⟩
    | cons b first =>
      obtain ⟨rfl, htail⟩ := List.cons.inj houtput
      have hcut' : ∀ c ∈ first.getLast?, ∀ mark ∈ marks, c ∉ mark := by
        intro c hc
        apply hcut c
        rw [List.getLast?_cons, Option.mem_def.mp hc]
        rfl
      obtain ⟨front, back, rfl, hfront, hback⟩ := ih hcut' htail
      exact ⟨b :: front, back, rfl, keep b hfront, hback⟩
  | @mask hidden mark text output hmark hrest ih =>
    obtain ⟨more, hmarkEq, hsecond⟩ | ⟨more, rfl, htail⟩ := List.append_eq_append_iff.mp houtput
    · -- the cut is in the mark, so it is in front of it
      cases first using List.reverseRecOn with
      | nil =>
        obtain rfl : mark = more := hmarkEq
        exact ⟨[], hidden ++ text, rfl, nil, hsecond ▸ mask hidden hmark hrest⟩
      | append_singleton first a =>
        have hlast : a ∈ (first ++ [a]).getLast? := by simp
        refine absurd ?_ (hcut a hlast mark hmark)
        rw [hmarkEq]
        simp
    · have hcut' : ∀ c ∈ more.getLast?, ∀ mark ∈ marks, c ∉ mark := by
        intro c hc
        apply hcut c
        rw [List.getLast?_append, Option.mem_def.mp hc]
        rfl
      obtain ⟨front, back, rfl, hfront, hback⟩ := ih hcut' htail.symm
      refine ⟨hidden ++ front, back, by rw [List.append_assoc], mask hidden hmark hfront, hback⟩

/-- The end of a masked sequence is what the masks make of an end, if what it has of a mark is a
mark. -/
theorem dropFront {first second : List α} (h : Masked marks text (first ++ second))
    (hcut : ∀ a ∈ second.head?, ∀ mark ∈ marks, ∀ before after, mark = before ++ a :: after →
      a :: after ∈ marks) :
    ∃ back, back <:+ text ∧ Masked marks back second := by
  generalize houtput : first ++ second = output at h
  induction h generalizing first with
  | nil =>
    obtain ⟨rfl, rfl⟩ := List.append_eq_nil_iff.mp houtput
    exact ⟨[], List.suffix_refl _, nil⟩
  | @keep a text output hrest ih =>
    cases first with
    | nil =>
      rw [List.nil_append] at houtput
      exact ⟨a :: text, List.suffix_refl _, houtput ▸ keep a hrest⟩
    | cons b first =>
      obtain ⟨back, hback, hmasked⟩ := ih (List.cons.inj houtput).2
      exact ⟨back, hback.trans (List.suffix_cons a text), hmasked⟩
  | @mask hidden mark text output hmark hrest ih =>
    obtain ⟨more, hmarkEq, rfl⟩ | ⟨more, rfl, htail⟩ := List.append_eq_append_iff.mp houtput
    · cases more with
      | nil => exact ⟨text, List.suffix_append hidden text, hrest⟩
      | cons a more =>
        have hleft := hcut a rfl mark hmark first more hmarkEq
        exact ⟨hidden ++ text, List.suffix_refl _, mask hidden hleft hrest⟩
    · obtain ⟨back, hback, hmasked⟩ := ih htail.symm
      exact ⟨back, hback.trans (List.suffix_append hidden text), hmasked⟩

section Word

variable {word : List α} (hnonempty : ∀ mark ∈ marks, mark ≠ [])
  (hdisjoint : ∀ mark ∈ marks, ∀ a ∈ mark, a ∉ word)

include hnonempty hdisjoint

theorem initial_of_output (h : Masked marks text output) (hword : word <+: output) : word <+: text := by
  induction h generalizing word with
  | nil => exact hword
  | @keep a text output hrest ih =>
    cases word with
    | nil => exact List.nil_prefix
    | cons b word =>
      obtain ⟨rfl, hinitial⟩ := List.cons_prefix_cons.mp hword
      apply List.cons_prefix_cons.mpr
      refine ⟨rfl, ih (fun mark hmark a ha hmem ↦ ?_) hinitial⟩
      exact hdisjoint mark hmark a ha (List.mem_cons_of_mem b hmem)
  | @mask hidden mark text output hmark hrest ih =>
    obtain ⟨first, others, rfl⟩ := List.exists_cons_of_ne_nil (hnonempty mark hmark)
    cases word with
    | nil => exact List.nil_prefix
    | cons b word =>
      obtain ⟨rfl, -⟩ := List.cons_prefix_cons.mp hword
      exact absurd List.mem_cons_self (hdisjoint _ hmark b List.mem_cons_self)

/-- A word without elements of the marks was in the original. -/
theorem infix_of_output (h : Masked marks text output) (hword : word <:+: output) :
    word <:+: text := by
  induction h with
  | nil => exact hword
  | @keep a text output hrest ih =>
    obtain hinitial | hinside := List.infix_cons_iff.mp hword
    · exact (initial_of_output hnonempty hdisjoint (keep a hrest) hinitial).isInfix
    · exact (ih hinside).trans (List.suffix_cons a text).isInfix
  | @mask hidden mark text output hmark hrest ih =>
    have hword' : word <:+: [] ++ mark ++ output := hword
    obtain hnil | hinside := infix_append_mark (hnonempty mark hmark) (hdisjoint mark hmark) hword'
    · exact hnil.trans List.nil_infix
    · exact (ih hinside).trans (List.suffix_append hidden text).isInfix

end Word

end Masked

/-- The second sequence is an end of the first one, masked. -/
def RemainsOf (marks : List (List α)) (text output : List α) : Prop :=
  ∃ rest, rest <:+ text ∧ Masked marks rest output

namespace RemainsOf

variable {text output : List α}

theorem refl (text : List α) : RemainsOf marks text text := ⟨text, List.suffix_refl _, Masked.refl text⟩

theorem of_suffix {whole : List α} (h : RemainsOf marks text output) (hsuffix : text <:+ whole) :
    RemainsOf marks whole output := by
  obtain ⟨rest, hrest, hmasked⟩ := h
  exact ⟨rest, hrest.trans hsuffix, hmasked⟩

theorem mark_append {mark : List α} (h : RemainsOf marks text output) (hmark : mark ∈ marks) :
    RemainsOf marks text (mark ++ output) := by
  obtain ⟨rest, hrest, hmasked⟩ := h
  exact ⟨rest, hrest, Masked.mask [] hmark hmasked⟩

theorem dropFront {first second : List α} (h : RemainsOf marks text (first ++ second))
    (hcut : ∀ a ∈ second.head?, ∀ mark ∈ marks, ∀ before after, mark = before ++ a :: after →
      a :: after ∈ marks) : RemainsOf marks text second := by
  obtain ⟨rest, hrest, hmasked⟩ := h
  obtain ⟨back, hback, hmasked'⟩ := hmasked.dropFront hcut
  exact ⟨back, hback.trans hrest, hmasked'⟩

/-- A word without elements of the marks was in the original. -/
theorem infix_of_output {word : List α} (hnonempty : ∀ mark ∈ marks, mark ≠ [])
    (hdisjoint : ∀ mark ∈ marks, ∀ a ∈ mark, a ∉ word) (h : RemainsOf marks text output)
    (hword : word <:+: output) : word <:+: text := by
  obtain ⟨rest, hrest, hmasked⟩ := h
  exact (hmasked.infix_of_output hnonempty hdisjoint hword).trans hrest.isInfix

end RemainsOf

end Foundations
