import Mathlib
import FerrisBridge.Foundations.Checked

/-!
# Order along a ledger

A ledger is a duplicate-free list. A list of ledger entries is in ledger order when it is a sublist
of the ledger; a validation loop that compares ledger positions checks exactly that. A loop that
remembers the last element of every group checks that each group is ordered.
-/

namespace Foundations

variable {α κ : Type}

/-- Ledger positions increase strictly along the ledger. -/
theorem pairwise_idxOf_self [DecidableEq α] {ledger : List α} (hledger : ledger.Nodup) :
    ledger.Pairwise (fun a b ↦ ledger.idxOf a < ledger.idxOf b) := by
  rw [List.pairwise_iff_getElem]
  intro i j hi hj hij
  rwa [hledger.idxOf_getElem i hi, hledger.idxOf_getElem j hj]

/-- Strictly increasing positions mean ledger order. -/
theorem pairwise_idxOf_iff_sublist [DecidableEq α] {ledger list : List α} (hledger : ledger.Nodup)
    (hmem : ∀ a ∈ list, a ∈ ledger) :
    list.Pairwise (fun a b ↦ ledger.idxOf a < ledger.idxOf b) ↔ list.Sublist ledger := by
  constructor
  · intro hlist
    have hnodup : list.Nodup := hlist.imp fun h heq ↦ by simp [heq] at h
    have : Std.Antisymm (fun a b ↦ ledger.idxOf a < ledger.idxOf b) :=
      ⟨fun a b hab hba ↦ absurd hab (Nat.lt_asymm hba)⟩
    exact List.sublist_of_subperm_of_pairwise (hnodup.subperm hmem) hlist
      (pairwise_idxOf_self hledger)
  · exact fun h ↦ (pairwise_idxOf_self hledger).sublist h

/-- The list has the first element at an earlier position than the second one. -/
def Precedes (list : List α) (first second : α) : Prop :=
  ∃ i j : ℕ, i < j ∧ list[i]? = some first ∧ list[j]? = some second

theorem Precedes.mem_left {list : List α} {first second : α} (h : Precedes list first second) :
    first ∈ list := by
  obtain ⟨_, _, -, hfirst, -⟩ := h
  exact List.mem_of_getElem? hfirst

theorem Precedes.mem_right {list : List α} {first second : α} (h : Precedes list first second) :
    second ∈ list := by
  obtain ⟨_, _, -, -, hsecond⟩ := h
  exact List.mem_of_getElem? hsecond

theorem precedes_iff_idxOf [DecidableEq α] {ledger : List α} (hledger : ledger.Nodup)
    {first second : α} (hfirst : first ∈ ledger) (hsecond : second ∈ ledger) :
    Precedes ledger first second ↔ ledger.idxOf first < ledger.idxOf second := by
  have hindex : ∀ a ∈ ledger, ∀ i, ledger[i]? = some a ↔ i = ledger.idxOf a := by
    intro a ha i
    constructor
    · intro hi
      obtain ⟨hlt, rfl⟩ := List.getElem?_eq_some_iff.mp hi
      exact (hledger.idxOf_getElem i hlt).symm
    · rintro rfl
      exact List.getElem?_idxOf ha
  simp only [Precedes, hindex first hfirst, hindex second hsecond]
  constructor
  · rintro ⟨_, _, hlt, rfl, rfl⟩
    exact hlt
  · exact fun hlt ↦ ⟨_, _, hlt, rfl, rfl⟩

/-- A list in ledger order has its entries in the order of the ledger. -/
theorem Precedes.of_sublist {ledger list : List α} {first second : α}
    (h : Precedes list first second) (hsublist : list.Sublist ledger) :
    Precedes ledger first second := by
  obtain ⟨i, j, hlt, hfirst, hsecond⟩ := h
  obtain ⟨f, hf⟩ := List.sublist_iff_exists_orderEmbedding_getElem?_eq.mp hsublist
  exact ⟨f i, f j, f.lt_iff_lt.mpr hlt, (hf i).symm.trans hfirst, (hf j).symm.trans hsecond⟩

/-- What is in front of an entry of a ledger was there before the ledger grew. -/
theorem Precedes.of_initial {ledger list : List α} {first second : α} (hledger : ledger.Nodup)
    (h : Precedes ledger first second) (hinit : list <+: ledger) (hsecond : second ∈ list) :
    Precedes list first second := by
  obtain ⟨i, j, hlt, hi, hj⟩ := h
  obtain ⟨added, rfl⟩ := hinit
  obtain ⟨k, hk, rfl⟩ := List.getElem_of_mem hsecond
  have hjk : j = k := by
    obtain ⟨hj', hget⟩ := List.getElem?_eq_some_iff.mp hj
    have hk' : k < (list ++ added).length := by
      rw [List.length_append]
      omega
    apply (@List.Nodup.getElem_inj_iff _ _ hledger j hj' k hk').mp
    rw [hget, List.getElem_append_left hk]
  subst hjk
  rw [List.getElem?_append_left (by omega)] at hi
  exact ⟨i, j, hlt, hi, List.getElem?_eq_getElem hk⟩

/-- What precedes an entry of a duplicate-free list lies in front of it. -/
theorem Precedes.mem_front {front back : List α} {first second : α}
    (hnodup : (front ++ second :: back).Nodup)
    (h : Precedes (front ++ second :: back) first second) : first ∈ front := by
  have hprefix : front ++ [second] <+: front ++ second :: back :=
    ⟨back, by rw [List.append_assoc, List.singleton_append]⟩
  obtain ⟨i, j, hlt, hi, hj⟩ := h.of_initial hnodup hprefix (by simp)
  obtain ⟨hlength, -⟩ := List.getElem?_eq_some_iff.mp hj
  rw [List.length_append, List.length_singleton] at hlength
  rw [List.getElem?_append_left (by omega)] at hi
  exact List.mem_of_getElem? hi

/-- Ledger order means that each entry precedes all that follow. -/
theorem pairwise_precedes_iff_sublist [DecidableEq α] {ledger list : List α} (hledger : ledger.Nodup)
    (hmem : ∀ a ∈ list, a ∈ ledger) : list.Pairwise (Precedes ledger) ↔ list.Sublist ledger := by
  rw [← pairwise_idxOf_iff_sublist hledger hmem]
  exact List.Pairwise.iff_of_mem fun ha hb ↦ precedes_iff_idxOf hledger (hmem _ ha) (hmem _ hb)

/-- A list in ledger order is determined by its members: it is the ledger filtered by them. -/
theorem eq_filter_of_sublist [DecidableEq α] {ledger list : List α} (hledger : ledger.Nodup)
    (h : list.Sublist ledger) : list = ledger.filter (· ∈ list) := by
  have hperm : list.Perm (ledger.filter (· ∈ list)) := by
    rw [List.perm_ext_iff_of_nodup (hledger.sublist h) (hledger.filter _)]
    intro a
    simpa using fun ha ↦ h.subset ha
  refine hperm.eq_of_pairwise ?_ ((pairwise_idxOf_self hledger).sublist h)
    ((pairwise_idxOf_self hledger).sublist List.filter_sublist)
  exact fun a b _ _ hab hba ↦ absurd hab (Nat.lt_asymm hba)

/-- A list whose keys are in ledger order, with a lookup of its elements by key, is what the lookup
finds along the ledger. -/
theorem eq_filterMap_of_sublist [DecidableEq κ] {key : α → κ} {ledger : List κ} {list : List α}
    {find : κ → Option α} (hledger : ledger.Nodup) (hlist : (list.map key).Sublist ledger)
    (hfind : ∀ k a, find k = some a ↔ a ∈ list ∧ key a = k) : list = ledger.filterMap find := by
  have hself : (list.map key).filterMap find = list := by
    rw [List.filterMap_map]
    conv_rhs => rw [← List.filterMap_some (l := list)]
    exact List.filterMap_congr fun a ha ↦ (hfind (key a) a).mpr ⟨ha, rfl⟩
  have hdrop : ledger.filterMap find = (ledger.filter (· ∈ list.map key)).filterMap find := by
    rw [List.filterMap_filter]
    refine List.filterMap_congr fun k _ ↦ ?_
    by_cases hk : k ∈ list.map key
    · simp only [hk, decide_true, if_true]
    · simp only [hk, decide_false, Bool.false_eq_true, if_false]
      refine Option.eq_none_iff_forall_ne_some.mpr fun a ha ↦ hk ?_
      obtain ⟨hmem, rfl⟩ := (hfind k a).mp ha
      exact List.mem_map_of_mem hmem
  rw [hdrop, ← eq_filter_of_sublist hledger hlist, hself]

section LastOfGroup

variable [DecidableEq κ] {key : α → κ}

/-- Ordering the elements of equal key is ordering every group. -/
theorem pairwise_group_iff {R : α → α → Prop} {list : List α} :
    list.Pairwise (fun b a ↦ key b = key a → R b a) ↔
      ∀ k, (list.filter (key · = k)).Pairwise R := by
  simp only [List.pairwise_filter, decide_eq_true_eq]
  constructor
  · exact fun h k ↦ h.imp fun hR hb ha ↦ hR (hb.trans ha.symm)
  · intro h
    rw [List.pairwise_iff_forall_sublist]
    intro b a hsub hkey
    exact List.pairwise_iff_forall_sublist.mp (h (key a)) hsub hkey rfl

/-- Lists with the same groups are permutations of each other. -/
theorem perm_of_filter_key [DecidableEq α] {left right : List α}
    (h : ∀ k, left.filter (key · = k) = right.filter (key · = k)) : left.Perm right := by
  refine List.perm_iff_count.mpr fun a ↦ ?_
  have hcount : ∀ list : List α, (list.filter (key · = key a)).count a = list.count a :=
    fun list ↦ List.count_filter (by simp)
  rw [← hcount left, ← hcount right, h]

/-- Filtering lists by the common key of their elements is filtering the elements. -/
theorem flatMap_filter_of_key {β : Type} (key : α → κ) {f : β → List α} {listKey : β → κ} {lists : List β}
    (h : ∀ b ∈ lists, ∀ a ∈ f b, key a = listKey b) (k : κ) :
    (lists.filter (listKey · = k)).flatMap f = (lists.flatMap f).filter (key · = k) := by
  induction lists with
  | nil => rfl
  | cons b rest ih =>
    have hb := h b List.mem_cons_self
    rw [List.flatMap_cons, List.filter_append, ← ih fun c hc ↦ h c (List.mem_cons_of_mem _ hc)]
    by_cases hk : listKey b = k
    · have hall : (f b).filter (key · = k) = f b :=
        List.filter_eq_self.mpr fun a ha ↦ by simp [hb a ha, hk]
      rw [List.filter_cons_of_pos (by simpa using hk), List.flatMap_cons, hall]
    · have hnone : (f b).filter (key · = k) = [] :=
        List.filter_eq_nil_iff.mpr fun a ha ↦ by simp [hb a ha, hk]
      rw [List.filter_cons_of_neg (by simpa using hk), hnone, List.nil_append]

/-- Moving the head of one group in front of the rest leaves every group as it was. -/
theorem filter_head_append_rest [DecidableEq α] {list batch : List α} {k : κ}
    (hnodup : list.Nodup) (hbatch : batch <+: list.filter (key · = k)) (k' : κ) :
    batch.filter (key · = k') ++ (list.filter (· ∉ batch)).filter (key · = k') =
      list.filter (key · = k') := by
  obtain ⟨rest, hrest⟩ := hbatch
  have hkey : ∀ a ∈ batch, key a = k := fun a ha ↦ by
    have : a ∈ list.filter (key · = k) := hrest ▸ List.mem_append_left rest ha
    simpa using (List.mem_filter.mp this).2
  rw [List.filter_comm]
  by_cases hk : k' = k
  · subst hk
    have hdisjoint := List.disjoint_of_nodup_append (hrest ▸ hnodup.filter (key · = k'))
    rw [← hrest, List.filter_eq_self.mpr (by simpa using hkey), List.filter_append,
      List.filter_eq_nil_iff.mpr (by simp), List.nil_append,
      List.filter_eq_self.mpr fun a ha ↦ by simpa using fun hmem ↦ hdisjoint hmem ha]
  · have hbatch : batch.filter (key · = k') = [] :=
      List.filter_eq_nil_iff.mpr fun a ha ↦ by simpa [hkey a ha] using Ne.symm hk
    rw [hbatch, List.nil_append, List.filter_eq_self]
    intro a ha
    simp only [decide_eq_true_eq]
    rintro hmem
    exact hk ((by simpa using (List.mem_filter.mp ha).2 : key a = k').symm.trans (hkey a hmem))

/-- The last element of a group, as a map updated at every element keeps it. -/
def lastOf (key : α → κ) (k : κ) (list : List α) : Option α :=
  (list.filter (key · = k)).getLast?

theorem lastOf_concat (k : κ) (list : List α) (a : α) :
    lastOf key k (list ++ [a]) = if key a = k then some a else lastOf key k list := by
  by_cases h : key a = k <;> simp [lastOf, List.filter_append, h]

theorem lastOf_eq_some {k : κ} {list : List α} {a : α} (h : lastOf key k list = some a) :
    a ∈ list ∧ key a = k := by
  have := List.mem_of_getLast? h
  simpa using this

/-- The last element of a group in transitive order bounds the whole group. -/
theorem forall_lastOf_iff {R : α → α → Prop} (htrans : ∀ a b c, R a b → R b c → R a c) {k : κ}
    {list : List α} (hlist : list.Pairwise fun b a ↦ key b = key a → R b a) (a : α) :
    (∀ b, lastOf key k list = some b → R b a) ↔ ∀ b ∈ list, key b = k → R b a := by
  constructor
  · intro h b hb hk
    have hmem : b ∈ list.filter (key · = k) := by simp [hb, hk]
    have hgroup := hlist.filter (fun a ↦ decide (key a = k))
    obtain ⟨init, last, heq⟩ := List.eq_nil_or_concat' (list.filter (key · = k)) |>.resolve_left
      (List.ne_nil_of_mem hmem)
    have hlast : lastOf key k list = some last := by simp [lastOf, heq]
    rw [heq] at hmem hgroup
    rcases List.mem_append.mp hmem with hinit | hlast'
    · have hbl := (List.pairwise_append.mp hgroup).2.2 b hinit last (by simp)
      exact htrans b last a (hbl (hk.trans (lastOf_eq_some hlast).2.symm)) (h last hlast)
    · rw [List.mem_singleton.mp hlast']
      exact h last hlast
  · intro h b hb
    obtain ⟨hmem, hk⟩ := lastOf_eq_some hb
    exact h b hmem hk

/-- Comparing each element with the last one of its group orders every group. -/
theorem EachAfter.lastOf_iff {R : α → α → Prop} (htrans : ∀ a b c, R a b → R b c → R a c)
    (list : List α) :
    EachAfter (fun done a ↦ ∀ b, lastOf key (key a) done = some b → R b a) [] list ↔
      list.Pairwise fun b a ↦ key b = key a → R b a := by
  induction list using List.reverseRecOn with
  | nil => simp [EachAfter]
  | append_singleton init a ih =>
    rw [EachAfter.append, ih, List.pairwise_append]
    simp only [List.nil_append, EachAfter, and_true, List.pairwise_singleton, true_and,
      List.mem_singleton, forall_eq]
    exact and_congr_right fun hinit ↦ forall_lastOf_iff htrans hinit a

end LastOfGroup

/-- Comparing each element with the one before it orders the whole list. -/
theorem EachAfter.getLast_iff {R : α → α → Prop} (htrans : ∀ a b c, R a b → R b c → R a c)
    {list : List α} :
    EachAfter (fun done a ↦ ∀ b, done.getLast? = some b → R b a) [] list ↔ list.Pairwise R := by
  have h : EachAfter (fun done a ↦ ∀ b, lastOf (fun _ ↦ ()) () done = some b → R b a) [] list ↔
      list.Pairwise fun b a ↦ () = () → R b a := EachAfter.lastOf_iff htrans list
  simpa [lastOf] using h

/-! ## The greatest element -/

/-- A maximum that is kept over a list is the greatest of the start and the elements. -/
theorem isGreatest_foldl_max {α : Type} [LinearOrder α] (start : α) (list : List α) :
    IsGreatest (insert start {a | a ∈ list}) (list.foldl max start) := by
  induction list generalizing start with
  | nil => simp
  | cons a rest ih =>
    obtain ⟨hmem, hupper⟩ := ih (max start a)
    constructor
    · rcases hmem with heq | hmem
      · rw [List.foldl_cons, heq]
        rcases max_choice start a with h | h <;> simp [h]
      · exact .inr (List.mem_cons_of_mem a hmem)
    · rintro b (rfl | hb)
      · exact (le_max_left b a).trans (hupper (.inl rfl))
      rcases List.mem_cons.mp hb with rfl | hb
      · exact (le_max_right start b).trans (hupper (.inl rfl))
      · exact hupper (.inr hb)

/-! ## Lists that correspond -/

theorem exists_mem_of_forall₂ {β : Type} {R : α → β → Prop} {list : List α} {list' : List β}
    (h : List.Forall₂ R list list') {a : α} (ha : a ∈ list) : ∃ b ∈ list', R a b := by
  induction h with
  | nil => cases ha
  | cons hfirst hrest ih =>
    rcases List.mem_cons.mp ha with rfl | ha
    · exact ⟨_, List.mem_cons_self, hfirst⟩
    · obtain ⟨b, hb, hab⟩ := ih ha
      exact ⟨b, List.mem_cons_of_mem _ hb, hab⟩

/-- What can be read off the elements of a list can be read off the elements that they correspond to. -/
theorem filterMap_sublist_of_forall₂ {β γ : Type} {R : α → β → Prop} {f : α → Option γ}
    {g : β → Option γ} (hread : ∀ a b, R a b → ∀ c ∈ f a, g b = some c) {list : List α}
    {list' : List β} (h : List.Forall₂ R list list') :
    (list.filterMap f).Sublist (list'.filterMap g) := by
  induction h with
  | nil => exact .slnil
  | @cons a b list list' hfirst hrest ih =>
    cases hf : f a with
    | none =>
      rw [List.filterMap_cons_none hf]
      apply ih.trans
      exact (List.sublist_cons_self b list').filterMap g
    | some c =>
      rw [List.filterMap_cons_some hf, List.filterMap_cons_some (hread a b hfirst c hf)]
      exact ih.cons_cons c

end Foundations
