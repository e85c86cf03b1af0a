import FerrisBridge.Foundations.Json
import Mathlib.Data.String.Basic

/-!
# Sorted maps

Maps as lists of entries in the order of their keys, each key once. Collecting the entries of a map gives
the map back. As JSON a map is an object; of members with the same name the last one counts.
-/

namespace Foundations

variable {κ α β : Type} [LinearOrder κ]

@[ext]
structure SortedMap (κ α : Type) [LinearOrder κ] where
  entries : List (κ × α)
  sorted : entries.Pairwise fun entry later ↦ entry.1 < later.1

namespace SortedMap

/-- Adds an entry at its place, or replaces the entry of the key. -/
def insertInto (key : κ) (value : α) : List (κ × α) → List (κ × α)
  | [] => [(key, value)]
  | entry :: entries =>
    if key < entry.1 then (key, value) :: entry :: entries
    else if key = entry.1 then (key, value) :: entries
    else entry :: insertInto key value entries

theorem mem_of_mem_insertInto {key : κ} {value : α} {entries : List (κ × α)} {entry : κ × α}
    (h : entry ∈ insertInto key value entries) : entry = (key, value) ∨ entry ∈ entries := by
  induction entries with
  | nil => exact .inl (List.mem_singleton.mp h)
  | cons first entries ih =>
    rw [insertInto] at h
    by_cases hlt : key < first.1
    · rw [if_pos hlt] at h
      exact List.mem_cons.mp h
    · rw [if_neg hlt] at h
      by_cases heq : key = first.1
      · rw [if_pos heq] at h
        exact (List.mem_cons.mp h).imp_right (List.mem_cons_of_mem first)
      · rw [if_neg heq] at h
        obtain rfl | h := List.mem_cons.mp h
        · exact .inr List.mem_cons_self
        · exact (ih h).imp_right (List.mem_cons_of_mem first)

theorem sorted_insertInto {key : κ} {value : α} {entries : List (κ × α)}
    (h : entries.Pairwise fun entry later ↦ entry.1 < later.1) :
    (insertInto key value entries).Pairwise fun entry later ↦ entry.1 < later.1 := by
  induction entries with
  | nil => exact List.pairwise_singleton _ _
  | cons first entries ih =>
    obtain ⟨hfirst, hentries⟩ := List.pairwise_cons.mp h
    rw [insertInto]
    by_cases hlt : key < first.1
    · rw [if_pos hlt]
      refine List.pairwise_cons.mpr ⟨?_, h⟩
      intro entry hentry
      obtain rfl | hentry := List.mem_cons.mp hentry
      · exact hlt
      · exact hlt.trans (hfirst entry hentry)
    · rw [if_neg hlt]
      by_cases heq : key = first.1
      · rw [if_pos heq]
        refine List.pairwise_cons.mpr ⟨?_, hentries⟩
        intro entry hentry
        exact heq ▸ hfirst entry hentry
      · rw [if_neg heq]
        refine List.pairwise_cons.mpr ⟨?_, ih hentries⟩
        intro entry hentry
        obtain rfl | hentry := mem_of_mem_insertInto hentry
        · exact lt_of_le_of_ne (not_lt.mp hlt) (Ne.symm heq)
        · exact hfirst entry hentry

/-- A key after all others gets its entry at the end. -/
theorem insertInto_of_lt {key : κ} {value : α} {entries : List (κ × α)}
    (h : ∀ entry ∈ entries, entry.1 < key) :
    insertInto key value entries = entries ++ [(key, value)] := by
  induction entries with
  | nil => rfl
  | cons first entries ih =>
    obtain ⟨hfirst, hentries⟩ := List.forall_mem_cons.mp h
    rw [insertInto, if_neg hfirst.not_gt, if_neg hfirst.ne', ih hentries, List.cons_append]

def empty : SortedMap κ α := ⟨[], .nil⟩

def insert (map : SortedMap κ α) (key : κ) (value : α) : SortedMap κ α :=
  ⟨insertInto key value map.entries, sorted_insertInto map.sorted⟩

/-- Collects entries into a map. -/
def ofEntries (entries : List (κ × α)) : SortedMap κ α :=
  entries.foldl (fun map entry ↦ map.insert entry.1 entry.2) empty

theorem entries_ofEntries {entries : List (κ × α)}
    (h : entries.Pairwise fun entry later ↦ entry.1 < later.1) :
    (ofEntries entries).entries = entries := by
  have hfold (rest : List (κ × α)) (map : SortedMap κ α)
      (hrest : (map.entries ++ rest).Pairwise fun entry later ↦ entry.1 < later.1) :
      (rest.foldl (fun map entry ↦ map.insert entry.1 entry.2) map).entries = map.entries ++ rest := by
    induction rest generalizing map with
    | nil => exact (List.append_nil _).symm
    | cons entry rest ih =>
      have hlast : (map.insert entry.1 entry.2).entries = map.entries ++ [entry] :=
        insertInto_of_lt fun other hother ↦
          (List.pairwise_append.mp hrest).2.2 other hother entry List.mem_cons_self
      rw [List.foldl_cons, ih, hlast, List.append_assoc, List.singleton_append]
      rw [hlast, List.append_assoc, List.singleton_append]
      exact hrest
  exact hfold entries empty h

/-- The entries of a map are collected into the map. -/
theorem ofEntries_entries (map : SortedMap κ α) : ofEntries map.entries = map :=
  SortedMap.ext (entries_ofEntries map.sorted)

end SortedMap

namespace Json

/-- A map from strings, as an object. -/
def ofMap (write : α → Json) (map : SortedMap String α) : Json :=
  .object (map.entries.map fun entry ↦ (entry.1, write entry.2))

def asMap (read : Json → Except String α) : Json → Except String (SortedMap String α)
  | .object members => do
    let entries ← members.mapM fun member ↦ do return (member.1, ← read member.2)
    return .ofEntries entries
  | _ => .error "invalid type: expected a map"

theorem asMap_ofMap {write : α → Json} {read : Json → Except String α}
    (hread : ∀ a, read (write a) = .ok a) (map : SortedMap String α) :
    (ofMap write map).asMap read = .ok map := by
  have hentries (entries : List (String × α)) :
      (entries.map fun entry ↦ (entry.1, write entry.2)).mapM
        (fun member ↦ do return (member.1, ← read member.2) :
          String × Json → Except String (String × α)) = .ok entries := by
    induction entries with
    | nil => rfl
    | cons entry entries ih =>
      rw [List.map_cons, List.mapM_cons, ih, hread]
      rfl
  rw [ofMap, asMap, hentries, except_ok_bind, map.ofEntries_entries]
  rfl

/-! ## Structs that ignore unknown fields -/

/-- A struct that ignores the members of an object that are no fields of it. -/
def asOpenStruct (names : List String) : Json → Except String Fields
  | .object members => (Json.object (members.filter (·.1 ∈ names))).asStruct names
  | document => document.asStruct names

theorem asOpenStruct_object {names : List String} {members : List (String × Json)}
    (hnames : members.map (·.1) = names) (hnodup : names.Nodup) :
    (Json.object members).asOpenStruct names =
      .ok ⟨fun name ↦ (members.find? (·.1 = name)).map (·.2), true⟩ := by
  have hknown : members.filter (·.1 ∈ names) = members := by
    rw [List.filter_eq_self]
    intro member hmember
    rw [decide_eq_true_eq, ← hnames]
    exact List.mem_map_of_mem hmember
  rw [asOpenStruct, hknown, asStruct_object hnames hnodup]

end Json

end Foundations
