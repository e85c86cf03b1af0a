import Mathlib.Data.List.Infix

/-!
# Occurrences in a sequence

A word that lacks an element of a sequence occurs on one side of it.
-/

namespace Foundations

variable {α : Type} {word front rest : List α} {stop : α}

/-- A prefix without the element ends before it. -/
theorem prefix_of_prefix_append_cons (h : word <+: front ++ stop :: rest) (hstop : stop ∉ word) :
    word <+: front := by
  obtain hle | ⟨extra, rfl⟩ := List.prefix_or_prefix_of_prefix h (List.prefix_append front _)
  · exact hle
  · cases extra with
    | nil => rw [List.append_nil]
    | cons first extra =>
      have hhead := (List.prefix_append_right_inj front).mp h
      obtain rfl := (List.cons_prefix_cons.mp hhead).1
      exact absurd (List.mem_append_right front List.mem_cons_self) hstop

theorem infix_append_cons (h : word <:+: front ++ stop :: rest) (hstop : stop ∉ word) :
    word <:+: front ∨ word <:+: rest := by
  induction front with
  | nil =>
    obtain hinitial | hinside := List.infix_cons_iff.mp h
    · exact Or.inl (prefix_of_prefix_append_cons hinitial hstop).isInfix
    · exact Or.inr hinside
  | cons first front ih =>
    obtain hinitial | hinside := List.infix_cons_iff.mp h
    · exact Or.inl (prefix_of_prefix_append_cons hinitial hstop).isInfix
    · exact (ih hinside).imp_left fun hfront ↦ hfront.trans (List.suffix_cons first front).isInfix

/-- A word occurs before or behind a mark of which it has no element. -/
theorem infix_append_mark {mark : List α} (hmark : mark ≠ []) (hdisjoint : ∀ a ∈ mark, a ∉ word)
    (h : word <:+: front ++ mark ++ rest) : word <:+: front ∨ word <:+: rest := by
  induction mark generalizing front with
  | nil => exact absurd rfl hmark
  | cons first mark ih =>
    rw [List.append_assoc, List.cons_append] at h
    obtain hfront | hinside := infix_append_cons h (hdisjoint first List.mem_cons_self)
    · exact Or.inl hfront
    · cases mark with
      | nil => exact Or.inr hinside
      | cons second mark =>
        have hnil : word <:+: [] ++ (second :: mark) ++ rest := hinside
        obtain hempty | hrest := ih (by simp) (fun a ha ↦ hdisjoint a (List.mem_cons_of_mem _ ha)) hnil
        · exact Or.inl (hempty.trans List.nil_infix)
        · exact Or.inr hrest

/-- A word that does not end in the rest of a sequence occurs in front of it. -/
theorem infix_of_infix_append (hword : word ≠ []) (hlast : ∀ a ∈ word.getLast?, a ∉ rest)
    (h : word <:+: front ++ rest) : word <:+: front := by
  obtain ⟨before, after, htext⟩ := h
  obtain ⟨more, rfl, -⟩ | ⟨more, hmore, rfl⟩ := List.append_eq_append_iff.mp htext
  · exact (List.infix_append before word more)
  · cases hend : more.getLast? with
    | none =>
      rw [List.getLast?_eq_none_iff.mp hend, List.append_nil] at hmore
      rw [← hmore]
      exact (List.suffix_append before word).isInfix
    | some last =>
      have hwordLast : word.getLast? = some last := by
        have hboth := congrArg List.getLast? hmore
        rw [List.getLast?_append_of_ne_nil _ hword, List.getLast?_append, hend] at hboth
        simpa using hboth
      have hmem := List.mem_append_left after (List.mem_of_getLast? hend)
      exact absurd hmem (hlast last hwordLast)

end Foundations
