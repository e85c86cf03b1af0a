import Mathlib
import FerrisBridge.Foundations.Checked

/-!
# Keyed collections and their merges

Append-only collections of records that carry a unique key. `Extends R` says that a collection
keeps every record in place, up to an evolution `R` of the record, and only adds at the end. Two
merges of an existing collection with a candidate one are given with their exact results:
`mergeAppendOnly`, for records that never change, and `mergeEvolving`, which keeps the later of two
versions of a record.
-/

namespace Foundations

variable {α ε κ : Type}

/-! ## Lookup by key -/

section Lookup

variable [DecidableEq κ] {key : α → κ} {list : List α} {a b : α}

theorem find_key_eq_some {k : κ} (h : list.find? (key · = k) = some a) : a ∈ list ∧ key a = k :=
  ⟨List.mem_of_find?_eq_some h, by simpa using List.find?_some h⟩

theorem find_key_eq_none {k : κ} : list.find? (key · = k) = none ↔ ∀ a ∈ list, key a ≠ k := by
  simp

omit [DecidableEq κ] in
theorem eq_of_key_eq (hnodup : (list.map key).Nodup) (ha : a ∈ list) (hb : b ∈ list)
    (h : key a = key b) : a = b :=
  List.inj_on_of_nodup_map hnodup ha hb h

theorem find_key_of_mem (hnodup : (list.map key).Nodup) (ha : a ∈ list) :
    list.find? (key · = key a) = some a := by
  cases h : list.find? (key · = key a) with
  | none => exact absurd rfl (find_key_eq_none.mp h a ha)
  | some b =>
    obtain ⟨hb, hkey⟩ := find_key_eq_some h
    rw [eq_of_key_eq hnodup hb ha hkey]

/-- A record is the only one with its key. -/
theorem filter_key_of_mem (hnodup : (list.map key).Nodup) (ha : a ∈ list) :
    list.filter (key · = key a) = [a] := by
  have hlist : (list.filter (key · = key a)).Nodup := hnodup.of_map.filter _
  refine List.perm_singleton.mp ((List.perm_ext_iff_of_nodup hlist (List.nodup_singleton a)).mpr
    fun b ↦ ?_)
  rw [List.mem_filter, List.mem_singleton, decide_eq_true_eq]
  constructor
  · rintro ⟨hb, hkey⟩
    exact eq_of_key_eq hnodup hb ha hkey
  · rintro rfl
    exact ⟨ha, rfl⟩

theorem find_key_iff (hnodup : (list.map key).Nodup) {k : κ} :
    list.find? (key · = k) = some a ↔ a ∈ list ∧ key a = k := by
  constructor
  · exact find_key_eq_some
  · rintro ⟨ha, rfl⟩
    exact find_key_of_mem hnodup ha

theorem find_key_isSome {k : κ} : (list.find? (key · = k)).isSome ↔ k ∈ list.map key := by
  simp [List.mem_map]

theorem find_key_eq_none_iff_notMem {k : κ} :
    list.find? (key · = k) = none ↔ k ∉ list.map key := by
  rw [← find_key_isSome, Option.isSome_iff_ne_none, not_not]

omit [DecidableEq κ] in
theorem nodup_key_concat (hlist : (list.map key).Nodup) (ha : key a ∉ list.map key) :
    ((list ++ [a]).map key).Nodup := by
  rw [List.map_append, List.map_singleton, ← List.concat_eq_append]
  exact hlist.concat ha

omit [DecidableEq κ] in
theorem forall_mem_concat {P : α → Prop} : (∀ b ∈ list ++ [a], P b) ↔ (∀ b ∈ list, P b) ∧ P a := by
  rw [List.forall_mem_append, List.forall_mem_singleton]

/-- An association list finds exactly its keys. -/
theorem lookup_eq_none_iff_notMem {k : κ} {entries : List (κ × α)} :
    entries.lookup k = none ↔ k ∉ entries.map (·.1) := by
  rw [List.lookup_eq_none_iff]
  constructor
  · intro h hk
    obtain ⟨entry, hentry, rfl⟩ := List.mem_map.mp hk
    simpa using h entry hentry
  · intro h entry hentry
    simpa using fun heq : k = entry.1 ↦ h (List.mem_map.mpr ⟨entry, hentry, heq.symm⟩)

end Lookup

/-! ## Extension of a collection -/

/-- Every record stays in place, up to `R`, and new records follow. -/
inductive Extends (R : α → α → Prop) : List α → List α → Prop
  | nil (added : List α) : Extends R [] added
  | cons {a b : α} {old new : List α} : R a b → Extends R old new → Extends R (a :: old) (b :: new)

namespace Extends

variable {R S : α → α → Prop} {old new last added : List α} {a : α}

theorem append (h : List.Forall₂ R old new) : Extends R old (new ++ added) := by
  induction h with
  | nil => exact .nil added
  | cons hab _ ih => exact .cons hab ih

theorem of_forall₂ (h : List.Forall₂ R old new) : Extends R old new := by
  exact List.append_nil new ▸ append h

theorem of_append (hrefl : ∀ a ∈ old, R a a) : Extends R old (old ++ added) :=
  append (List.forall₂_same.mpr hrefl)

theorem refl (hrefl : ∀ a ∈ old, R a a) : Extends R old old :=
  of_forall₂ (List.forall₂_same.mpr hrefl)

theorem trans (htrans : ∀ a b c, R a b → R b c → R a c) (h : Extends R old new)
    (h' : Extends R new last) : Extends R old last := by
  induction h generalizing last with
  | nil => exact .nil last
  | cons hab _ ih =>
    cases h' with
    | cons hbc hrest => exact .cons (htrans _ _ _ hab hbc) (ih hrest)

theorem imp (h : ∀ a b, R a b → S a b) (hext : Extends R old new) : Extends S old new := by
  induction hext with
  | nil added => exact .nil added
  | cons hab _ ih => exact .cons (h _ _ hab) ih

theorem exists_of_mem (h : Extends R old new) (ha : a ∈ old) : ∃ b ∈ new, R a b := by
  induction h with
  | nil => cases ha
  | @cons c b _ _ hab _ ih =>
    rcases List.mem_cons.mp ha with rfl | ha
    · exact ⟨b, List.mem_cons_self, hab⟩
    · obtain ⟨d, hd, had⟩ := ih ha
      exact ⟨d, List.mem_cons_of_mem _ hd, had⟩

theorem map_key_prefix (key : α → κ) (hkey : ∀ a b, R a b → key a = key b)
    (h : Extends R old new) : old.map key <+: new.map key := by
  induction h with
  | nil => exact List.nil_prefix
  | cons hab _ ih =>
    rw [List.map_cons, List.map_cons, hkey _ _ hab]
    exact (List.prefix_cons_inj _).mpr ih

theorem forall₂_take (h : Extends R old new) : List.Forall₂ R old (new.take old.length) := by
  induction h with
  | nil => simp
  | cons hab _ ih => simpa using ⟨hab, ih⟩

/-- The record a key finds evolves. -/
theorem find_key [DecidableEq κ] (key : α → κ) {k : κ} (hkey : ∀ a b, R a b → key a = key b)
    (h : Extends R old new) (hfind : old.find? (key · = k) = some a) :
    ∃ b, new.find? (key · = k) = some b ∧ R a b := by
  induction h with
  | nil => cases hfind
  | @cons c b old new hab _ ih =>
    by_cases hc : key c = k
    · have hb : key b = k := (hkey _ _ hab).symm.trans hc
      simp only [List.find?_cons, hc, hb, decide_true, Option.some.injEq] at hfind ⊢
      exact ⟨b, rfl, hfind ▸ hab⟩
    · have hb : key b ≠ k := fun hb ↦ hc ((hkey _ _ hab).trans hb)
      simp only [List.find?_cons, hc, hb, decide_false] at hfind ⊢
      exact ih hfind

end Extends

/-! ## Pointwise evolution -/

section Pointwise

variable {R : α → α → Prop} {P : α → α → Prop} {old new before after : List α} {a b : α}

theorem forall₂_replace (hrefl : ∀ a, R a a) (h : R a b) :
    List.Forall₂ R (before ++ a :: after) (before ++ b :: after) :=
  List.rel_append (List.forall₂_same.mpr fun a _ ↦ hrefl a)
    (.cons h (List.forall₂_same.mpr fun a _ ↦ hrefl a))

/-- A record of an evolved collection with additions is a version of the old one with its key, or
an addition. -/
theorem find_key_append_of_forall₂ [DecidableEq κ] {key : α → κ} {kept : List α}
    (added : List α) (hkey : ∀ a b, R a b → key b = key a) (h : List.Forall₂ R old kept) (k : κ) :
    (∃ a b, old.find? (key · = k) = some a ∧ (kept ++ added).find? (key · = k) = some b ∧ R a b) ∨
      old.find? (key · = k) = none ∧
        (kept ++ added).find? (key · = k) = added.find? (key · = k) := by
  induction h with
  | nil => exact .inr ⟨rfl, rfl⟩
  | @cons a b old kept hab _ ih =>
    have hb := hkey a b hab
    by_cases ha : key a = k
    · refine .inl ⟨a, b, ?_, ?_, hab⟩
      · rw [List.find?_cons_of_pos (by simpa using ha)]
      · rw [List.cons_append, List.find?_cons_of_pos (by simpa [hb] using ha)]
    · rw [List.find?_cons_of_neg (by simpa using ha), List.cons_append,
        List.find?_cons_of_neg (by simpa [hb] using ha)]
      exact ih

theorem map_eq_of_forall₂ {β : Type} {f : α → β} (hf : ∀ a b, R a b → f b = f a)
    (h : List.Forall₂ R old new) : new.map f = old.map f := by
  induction h with
  | nil => rfl
  | cons hab _ ih => rw [List.map_cons, List.map_cons, hf _ _ hab, ih]

/-- Selecting records by something that evolution keeps. -/
theorem map_filter_of_forall₂ {β : Type} {f : α → β} {keep : α → Bool}
    (hf : ∀ a b, R a b → f b = f a) (hkeep : ∀ a b, R a b → keep b = keep a)
    (h : List.Forall₂ R old new) : (new.filter keep).map f = (old.filter keep).map f := by
  induction h with
  | nil => rfl
  | @cons a b _ _ hab _ ih =>
    have hb := hkeep a b hab
    by_cases ha : keep a = true
    · rw [List.filter_cons_of_pos ha, List.filter_cons_of_pos (hb.trans ha), List.map_cons,
        List.map_cons, hf a b hab, ih]
    · rw [List.filter_cons_of_neg ha, List.filter_cons_of_neg (hb ▸ ha), ih]

theorem exists_of_mem_right {β : Type} {R : α → β → Prop} {new : List β} {b : β}
    (h : List.Forall₂ R old new) (hb : b ∈ new) : ∃ a ∈ old, R a b := by
  induction h with
  | nil => cases hb
  | @cons a c _ _ hac _ ih =>
    rcases List.mem_cons.mp hb with rfl | hb
    · exact ⟨a, List.mem_cons_self, hac⟩
    · obtain ⟨d, hd, hdb⟩ := ih hb
      exact ⟨d, List.mem_cons_of_mem _ hd, hdb⟩

/-- A relation between the records that evolution keeps. -/
theorem pairwise_of_forall₂ (hP : ∀ a b c d, R a c → R b d → P a b → P c d)
    (h : List.Forall₂ R old new) (hold : old.Pairwise P) : new.Pairwise P := by
  induction h with
  | nil => exact .nil
  | @cons a c _ _ hac hrest ih =>
    rw [List.pairwise_cons] at hold ⊢
    refine ⟨fun d hd ↦ ?_, ih hold.2⟩
    obtain ⟨b, hb, hbd⟩ := exists_of_mem_right hrest hd
    exact hP a b c d hac hbd (hold.1 b hb)

end Pointwise

/-! ## Merging an existing collection with a candidate one -/

section Merge

variable [DecidableEq κ] {key : α → κ} {conflict : α → ε} {existing candidates merged : List α}

/-- The candidate records whose key the existing collection does not have. -/
def missingFrom (key : α → κ) (existing candidates : List α) : List α :=
  candidates.filter (key · ∉ existing.map key)

theorem mem_missingFrom {a : α} :
    a ∈ missingFrom key existing candidates ↔ a ∈ candidates ∧ key a ∉ existing.map key := by
  simp [missingFrom]

theorem missingFrom_eq_nil (h : ∀ c ∈ candidates, key c ∈ existing.map key) :
    missingFrom key existing candidates = [] :=
  List.filter_eq_nil_iff.mpr fun c hc ↦ by simpa using h c hc

theorem missingFrom_concat (done : List α) (a : α) :
    missingFrom key existing (done ++ [a]) =
      missingFrom key existing done ++ if key a ∈ existing.map key then [] else [a] := by
  unfold missingFrom
  rw [List.filter_append]
  congr 1
  by_cases h : key a ∈ existing.map key
  · rw [if_pos h, List.filter_cons_of_neg (by simpa using h), List.filter_nil]
  · rw [if_neg h, List.filter_cons_of_pos (by simpa using h), List.filter_nil]

/-- Existing records stay, candidate records with a new key are appended, and a candidate record
that differs from the existing record with its key is a conflict. -/
def mergeAppendOnly [DecidableEq α] (key : α → κ) (conflict : α → ε)
    (existing candidates : List α) : Except ε (List α) :=
  candidates.foldlM (fun merged candidate ↦
    match existing.find? (key · = key candidate) with
    | some found => if found = candidate then .ok merged else .error (conflict candidate)
    | none => .ok (merged ++ [candidate])) existing

theorem mergeAppendOnly_eq_ok_iff [DecidableEq α] :
    mergeAppendOnly key conflict existing candidates = .ok merged ↔
      (∀ c ∈ candidates, ∀ e, existing.find? (key · = key c) = some e → e = c) ∧
        existing ++ missingFrom key existing candidates = merged := by
  have hinit : existing = existing ++ missingFrom key existing [] := by simp [missingFrom]
  unfold mergeAppendOnly
  conv_lhs => arg 1; arg 2; rw [hinit]
  rw [foldlM_eq_ok_iff (fun done ↦ existing ++ missingFrom key existing done)
    (fun _ c ↦ ∀ e, existing.find? (key · = key c) = some e → e = c),
    EachAfter.const]
  intro done c _ s'
  rw [missingFrom_concat]
  cases hfind : existing.find? (key · = key c) with
  | none =>
    have hc : key c ∉ existing.map key := by simp [← find_key_isSome, hfind]
    simp [hc]
  | some found =>
    have hc : key c ∈ existing.map key := by simp [← find_key_isSome, hfind]
    by_cases heq : found = c <;> simp [hc, heq]

/-- The later of two versions of a record: the candidate when it descends from the existing one. -/
def resolveVersion (key : α → κ) (descends : α → α → Bool) (candidates : List α) (existing : α) : α :=
  match candidates.find? (key · = key existing) with
  | some candidate => if descends candidate existing then candidate else existing
  | none => existing

/-- `merged.iter_mut().find(same key)`, replacing the element found. -/
def replaceFirst (key : α → κ) (candidate : α) : List α → List α
  | [] => []
  | a :: rest => if key a = key candidate then candidate :: rest else a :: replaceFirst key candidate rest

/-- Existing records stay or are replaced by a candidate version that descends from them, candidate
records with a new key are appended, and versions of which neither descends from the other are a
conflict. -/
def mergeEvolving [DecidableEq α] (key : α → κ) (descends : α → α → Bool) (conflict : α → ε)
    (existing candidates : List α) : Except ε (List α) :=
  candidates.foldlM (fun merged candidate ↦
    match merged.find? (key · = key candidate) with
    | some found =>
      if found = candidate then .ok merged
      else if descends candidate found then .ok (replaceFirst key candidate merged)
      else if descends found candidate then .ok merged
      else .error (conflict candidate)
    | none => .ok (merged ++ [candidate])) existing

theorem replaceFirst_eq_map (key : α → κ) (hnodup : (existing.map key).Nodup) (c : α) :
    replaceFirst key c existing = existing.map fun a ↦ if key a = key c then c else a := by
  induction existing with
  | nil => rfl
  | cons a rest ih =>
    rw [List.map_cons, List.nodup_cons] at hnodup
    by_cases ha : key a = key c
    · have hrest : ∀ b ∈ rest, key b ≠ key c := fun b hb heq ↦
        hnodup.1 (List.mem_map.mpr ⟨b, hb, heq.trans ha.symm⟩)
      have hmap : rest.map (fun a ↦ if key a = key c then c else a) = rest := by
        conv_rhs => rw [← List.map_id rest]
        exact List.map_congr_left fun b hb ↦ by simp [hrest b hb]
      simp [replaceFirst, ha, hmap]
    · simp [replaceFirst, ha, ih hnodup.2]

variable {descends : α → α → Bool}

theorem key_resolveVersion (e : α) : key (resolveVersion key descends candidates e) = key e := by
  unfold resolveVersion
  split
  · rename_i c hfind
    split
    · exact (find_key_eq_some hfind).2
    · rfl
  · rfl

theorem resolveVersion_of_notMem {e : α} (h : key e ∉ candidates.map key) :
    resolveVersion key descends candidates e = e := by
  have : candidates.find? (key · = key e) = none :=
    find_key_eq_none.mpr fun a ha heq ↦ h (List.mem_map.mpr ⟨a, ha, heq⟩)
  simp [resolveVersion, this]

theorem resolveVersion_concat {done : List α} {c : α} (hc : key c ∉ done.map key) (e : α) :
    resolveVersion key descends (done ++ [c]) e =
      if key e = key c then if descends c e then c else e
      else resolveVersion key descends done e := by
  by_cases he : key e = key c
  · have hdone : done.find? (key · = key e) = none :=
      find_key_eq_none.mpr fun a ha heq ↦ hc (List.mem_map.mpr ⟨a, ha, heq.trans he⟩)
    simp [resolveVersion, List.find?_append, he, he ▸ hdone]
  · simp [resolveVersion, List.find?_append, he, Ne.symm he]

/-- A resolved version is the existing record or a candidate that descends from it. -/
theorem resolveVersion_cases (key : α → κ) (descends : α → α → Bool) (candidates : List α) (e : α) :
    resolveVersion key descends candidates e = e ∨
      ∃ c ∈ candidates, key c = key e ∧ descends c e = true ∧
        resolveVersion key descends candidates e = c := by
  unfold resolveVersion
  split
  · rename_i c hfind
    obtain ⟨hmem, hkey⟩ := find_key_eq_some hfind
    by_cases h : descends c e = true
    · exact .inr ⟨c, hmem, hkey, h, if_pos h⟩
    · exact .inl (if_neg h)
  · exact .inl rfl

theorem map_key_resolveVersion :
    (existing.map (resolveVersion key descends candidates)).map key = existing.map key := by
  rw [List.map_map]
  exact List.map_congr_left fun e _ ↦ key_resolveVersion e

theorem nodup_append_missingFrom (hexisting : (existing.map key).Nodup)
    (hcandidates : (candidates.map key).Nodup) :
    ((existing ++ missingFrom key existing candidates).map key).Nodup := by
  rw [List.map_append, List.nodup_append', List.disjoint_right]
  refine ⟨hexisting, hcandidates.sublist (List.filter_sublist.map key), fun k hk ↦ ?_⟩
  obtain ⟨a, ha, rfl⟩ := List.mem_map.mp hk
  exact (mem_missingFrom.mp ha).2

/-- Nothing is missing from the candidates that extend the existing records but what they add. -/
theorem missingFrom_append {front added : List α} (hfront : front.map key = existing.map key)
    (hnodup : ((front ++ added).map key).Nodup) : missingFrom key existing (front ++ added) = added := by
  rw [List.map_append, hfront, List.nodup_append', List.disjoint_right] at hnodup
  have hnone : front.filter (key · ∉ existing.map key) = [] :=
    List.filter_eq_nil_iff.mpr fun a ha ↦ by
      have hmem : key a ∈ existing.map key := hfront ▸ List.mem_map_of_mem ha
      simpa using hmem
  rw [missingFrom, List.filter_append, hnone, List.nil_append, List.filter_eq_self]
  exact fun a ha ↦ by simpa using hnodup.2.2 (List.mem_map_of_mem ha)

/-- Merging an extension of the existing records gives the extension. -/
theorem Extends.merge_eq {R : α → α → Prop} (hkey : ∀ a b, R a b → key a = key b)
    (hdescends : ∀ a b, R a b → b = a ∨ descends b a = true) (h : Extends R existing candidates)
    (hnodup : (candidates.map key).Nodup) :
    existing.map (resolveVersion key descends candidates) ++
      missingFrom key existing candidates = candidates := by
  have hfront := h.forall₂_take
  have hresolve : existing.map (resolveVersion key descends candidates) =
      candidates.take existing.length := by
    have hmem : ∀ b ∈ candidates.take existing.length, b ∈ candidates := fun b ↦ List.mem_of_mem_take
    generalize candidates.take existing.length = front at hfront hmem
    clear h
    induction hfront with
    | nil => rfl
    | @cons a b _ _ hab _ ih =>
      obtain ⟨hb, hrest⟩ := List.forall_mem_cons.mp hmem
      have hfind : candidates.find? (key · = key a) = some b := by
        rw [hkey a b hab]
        exact find_key_of_mem hnodup hb
      have hresolved : resolveVersion key descends candidates a = b := by
        rcases hdescends a b hab with rfl | hdescends <;> simp_all [resolveVersion]
      rw [List.map_cons, hresolved, ih hrest]
  have hkeys : (candidates.take existing.length).map key = existing.map key :=
    map_eq_of_forall₂ (fun a b hab ↦ (hkey a b hab).symm) hfront
  have hsplit := List.take_append_drop existing.length candidates
  have hmissing : missingFrom key existing candidates = candidates.drop existing.length := by
    conv_lhs => rw [← hsplit]
    exact missingFrom_append hkeys (by rwa [hsplit])
  rw [hresolve, hmissing, hsplit]

/-- The merge result after visiting the candidates `done`. -/
private def mergedAfter (key : α → κ) (descends : α → α → Bool) (existing done : List α) : List α :=
  existing.map (resolveVersion key descends done) ++ missingFrom key existing done

private theorem map_key_mergedAfter (done : List α) :
    (mergedAfter key descends existing done).map key =
      (existing ++ missingFrom key existing done).map key := by
  rw [mergedAfter, List.map_append, List.map_append, map_key_resolveVersion]

private theorem nodup_mergedAfter {done : List α} (hexisting : (existing.map key).Nodup)
    (hdone : (done.map key).Nodup) : ((mergedAfter key descends existing done).map key).Nodup := by
  rw [map_key_mergedAfter]
  exact nodup_append_missingFrom hexisting hdone

/-- A candidate not visited before finds the existing record with its key, unchanged. -/
private theorem find_mergedAfter {done : List α} {c : α} (hexisting : (existing.map key).Nodup)
    (hdone : (done.map key).Nodup) (hc : key c ∉ done.map key) :
    (mergedAfter key descends existing done).find? (key · = key c) =
      existing.find? (key · = key c) := by
  cases hfind : existing.find? (key · = key c) with
  | some e =>
    obtain ⟨he, hkey⟩ := find_key_eq_some hfind
    refine (find_key_iff (nodup_mergedAfter hexisting hdone)).mpr ⟨?_, hkey⟩
    refine List.mem_append_left _ (List.mem_map.mpr ⟨e, he, ?_⟩)
    exact resolveVersion_of_notMem (hkey ▸ hc)
  | none =>
    refine find_key_eq_none.mpr fun a ha heq ↦ ?_
    have hkey : key c ∈ (mergedAfter key descends existing done).map key :=
      List.mem_map.mpr ⟨a, ha, heq⟩
    rw [map_key_mergedAfter, List.map_append, List.mem_append] at hkey
    rcases hkey with hkey | hkey
    · rw [← find_key_isSome, hfind] at hkey
      cases hkey
    · obtain ⟨b, hb, hbc⟩ := List.mem_map.mp hkey
      exact hc (List.mem_map.mpr ⟨b, (mem_missingFrom.mp hb).1, hbc⟩)

private theorem mergedAfter_concat_of_mem {done : List α} {c : α}
    (hc : key c ∉ done.map key) (hmem : key c ∈ existing.map key) :
    mergedAfter key descends existing (done ++ [c]) =
      existing.map (fun e ↦ if key e = key c then if descends c e then c else e
        else resolveVersion key descends done e) ++ missingFrom key existing done := by
  rw [mergedAfter, missingFrom_concat, if_pos hmem, List.append_nil]
  exact congrArg (· ++ _) (List.map_congr_left fun e _ ↦ resolveVersion_concat hc e)

private theorem mergedAfter_concat_of_notMem {done : List α} {c : α}
    (hc : key c ∉ done.map key) (hmem : key c ∉ existing.map key) :
    mergedAfter key descends existing (done ++ [c]) =
      mergedAfter key descends existing done ++ [c] := by
  rw [mergedAfter, missingFrom_concat, if_neg hmem, mergedAfter, List.append_assoc]
  congr 1
  refine List.map_congr_left fun e he ↦ ?_
  rw [resolveVersion_concat hc, if_neg]
  exact fun heq ↦ hmem (List.mem_map.mpr ⟨e, he, heq⟩)

/-- A candidate that does not replace the existing record with its key leaves the merge result. -/
private theorem mergedAfter_concat_of_keep {done : List α} {c e : α}
    (hexisting : (existing.map key).Nodup) (hc : key c ∉ done.map key)
    (hfind : existing.find? (key · = key c) = some e) (hkeep : e = c ∨ descends c e = false) :
    mergedAfter key descends existing (done ++ [c]) = mergedAfter key descends existing done := by
  obtain ⟨he, hkey⟩ := find_key_eq_some hfind
  rw [mergedAfter_concat_of_mem hc (List.mem_map.mpr ⟨e, he, hkey⟩), mergedAfter]
  refine congrArg (· ++ _) (List.map_congr_left fun a ha ↦ ?_)
  by_cases hac : key a = key c
  · obtain rfl : a = e := eq_of_key_eq hexisting ha he (hac.trans hkey.symm)
    rw [if_pos hac, resolveVersion_of_notMem (hac ▸ hc)]
    rcases hkeep with rfl | hkeep <;> simp_all
  · rw [if_neg hac]

private theorem mergedAfter_concat_of_replace {done : List α} {c e : α}
    (hexisting : (existing.map key).Nodup) (hdone : (done.map key).Nodup)
    (hc : key c ∉ done.map key) (hfind : existing.find? (key · = key c) = some e)
    (hreplace : descends c e = true) :
    mergedAfter key descends existing (done ++ [c]) =
      replaceFirst key c (mergedAfter key descends existing done) := by
  obtain ⟨he, hkey⟩ := find_key_eq_some hfind
  rw [mergedAfter_concat_of_mem hc (List.mem_map.mpr ⟨e, he, hkey⟩),
    replaceFirst_eq_map key (nodup_mergedAfter hexisting hdone), mergedAfter, List.map_append,
    List.map_map]
  congr 1
  · refine List.map_congr_left fun a ha ↦ ?_
    have hkept : key (resolveVersion key descends done a) = key a := key_resolveVersion a
    rw [Function.comp_apply, hkept]
    by_cases hac : key a = key c
    · obtain rfl : a = e := eq_of_key_eq hexisting ha he (hac.trans hkey.symm)
      simp [hac, hreplace]
    · simp [hac]
  · conv_lhs => rw [← List.map_id (missingFrom key existing done)]
    refine List.map_congr_left fun a ha ↦ ?_
    have hac : key a ≠ key c := fun heq ↦
      hc (List.mem_map.mpr ⟨a, (mem_missingFrom.mp ha).1, heq⟩)
    simp [hac]

theorem mergeEvolving_eq_ok_iff [DecidableEq α] (hexisting : (existing.map key).Nodup)
    (hcandidates : (candidates.map key).Nodup) :
    mergeEvolving key descends conflict existing candidates = .ok merged ↔
      (∀ c ∈ candidates, ∀ e, existing.find? (key · = key c) = some e →
        e = c ∨ descends c e = true ∨ descends e c = true) ∧
      existing.map (resolveVersion key descends candidates) ++
        missingFrom key existing candidates = merged := by
  have hinit : existing = mergedAfter key descends existing [] := by
    have : resolveVersion key descends [] = (id : α → α) := rfl
    simp [mergedAfter, missingFrom, this]
  unfold mergeEvolving
  conv_lhs => arg 1; arg 2; rw [hinit]
  rw [foldlM_eq_ok_iff (mergedAfter key descends existing)
    (fun _ c ↦ ∀ e, existing.find? (key · = key c) = some e →
      e = c ∨ descends c e = true ∨ descends e c = true),
    EachAfter.const, mergedAfter]
  intro done c hinitial s'
  have hnodup : ((done ++ [c]).map key).Nodup := hcandidates.sublist (hinitial.sublist.map key)
  rw [List.map_append, List.nodup_append] at hnodup
  obtain ⟨hdone, -, hdisjoint⟩ := hnodup
  have hc : key c ∉ done.map key := fun h ↦ hdisjoint _ h _ (by simp) rfl
  rw [find_mergedAfter hexisting hdone hc]
  cases hfind : existing.find? (key · = key c) with
  | none =>
    have hmem : key c ∉ existing.map key := by simp [← find_key_isSome, hfind]
    simp [mergedAfter_concat_of_notMem hc hmem]
  | some e =>
    by_cases heq : e = c
    · simp [heq, mergedAfter_concat_of_keep hexisting hc hfind (.inl heq)]
    by_cases hreplace : descends c e = true
    · simp [heq, hreplace, mergedAfter_concat_of_replace hexisting hdone hc hfind hreplace]
    · have hkeep := mergedAfter_concat_of_keep hexisting hc hfind (.inr (by simpa using hreplace))
      by_cases hback : descends e c = true <;> simp [heq, hreplace, hback, hkeep]

end Merge

end Foundations
