import FerrisBridge.Foundations.Checked
import FerrisBridge.Foundations.Word

/-!
# JSON documents

Documents, and readers that accept what derived deserializers accept: a struct is an object without
unknown or repeated members, or an array of its fields in order; an option is absent, null or a value;
an enumeration is a name, or an object with the name as its only member. Every writer has the rule
that its reader gives the value back.
-/

namespace Foundations

/-- A document. The members of an object are in the order of the text, and a name may be repeated. A
number is an unsigned integer, or any other number as it is written. -/
inductive Json
  | null
  | bool (value : Bool)
  | integer (value : ℕ)
  | decimal (text : String)
  | string (value : String)
  | array (items : List Json)
  | object (members : List (String × Json))

namespace Json

variable {α : Type} {width : ℕ}

/-! ## Values -/

def asString : Json → Except String String
  | .string value => .ok value
  | _ => .error "invalid type: expected a string"

def ofWord (word : Word width) : Json := .integer word.toNat

def asWord : Json → Except String (Word width)
  | .integer value =>
    if h : value < 2 ^ width then .ok (.ofLt value h)
    else .error s!"invalid value: integer {value} is out of range"
  | _ => .error "invalid type: expected an unsigned integer"

def ofOption (write : α → Json) : Option α → Json
  | none => .null
  | some a => write a

def asOption (read : Json → Except String α) : Json → Except String (Option α)
  | .null => .ok none
  | document => do return some (← read document)

def ofList (write : α → Json) (list : List α) : Json := .array (list.map write)

def asList (read : Json → Except String α) : Json → Except String (List α)
  | .array items => items.mapM read
  | _ => .error "invalid type: expected a sequence"

/-- A variant without data, by its name. -/
def asVariant (variants : List (String × α)) : Json → Except String α
  | .string name => okOr ((variants.find? (·.1 = name)).map (·.2)) s!"unknown variant {name}"
  | .object [(name, .null)] =>
    okOr ((variants.find? (·.1 = name)).map (·.2)) s!"unknown variant {name}"
  | _ => .error "invalid type: expected a variant"

theorem asString_string (value : String) : (string value).asString = .ok value := rfl

theorem asWord_ofWord (word : Word width) : (ofWord word).asWord = .ok word := by
  have hlt := word.toNat_lt
  simp only [ofWord, asWord, hlt, dif_pos]
  rfl

/-- A reader of options gives back what a writer writes other than null. -/
theorem asOption_ofOption {write : α → Json} {read : Json → Except String α}
    (hnull : ∀ a, write a ≠ .null) (hread : ∀ a, read (write a) = .ok a) (value : Option α) :
    (ofOption write value).asOption read = .ok value := by
  cases value with
  | none => rfl
  | some a =>
    have hsome : (write a).asOption read = (read (write a)).map some := by
      have := hnull a
      cases hwrite : write a <;> first | rfl | exact absurd hwrite this
    rw [ofOption, hsome, hread]
    rfl

theorem asList_ofList {write : α → Json} {read : Json → Except String α} {list : List α}
    (hread : ∀ a ∈ list, read (write a) = .ok a) : (ofList write list).asList read = .ok list := by
  simp only [ofList, asList]
  induction list with
  | nil => rfl
  | cons a rest ih =>
    rw [List.map_cons, List.mapM_cons, hread a List.mem_cons_self,
      ih fun b hb ↦ hread b (List.mem_cons_of_mem _ hb)]
    rfl

theorem asOption_eq_some {read : Json → Except String α} {document : Json} {a : α}
    (h : document.asOption read = .ok (some a)) : read document = .ok a := by
  cases hread : read document with
  | ok b => cases document <;> simp_all [asOption]
  | error message => cases document <;> simp_all [asOption]

theorem asList_eq_ok {read : Json → Except String α} {document : Json} {list : List α} :
    document.asList read = .ok list ↔
      ∃ items, document = .array items ∧ items.mapM read = .ok list := by
  cases document <;> simp [asList]

/-! ## Structs -/

/-- The fields of a struct, found in an object by name or in an array by position. -/
structure Fields where
  find : String → Option Json
  named : Bool

/-- A struct that denies unknown fields. -/
def asStruct (names : List String) : Json → Except String Fields
  | .object members => do
    members.forM fun member ↦ rejectIf (member.1 ∉ names) s!"unknown field {member.1}"
    rejectIf (¬(members.map (·.1)).Nodup) "duplicate field"
    return ⟨fun name ↦ (members.find? (·.1 = name)).map (·.2), true⟩
  | .array items => do
    rejectIf (names.length < items.length) "trailing characters"
    return ⟨fun name ↦ items[names.idxOf name]?, false⟩
  | _ => .error "invalid type: expected a struct"

namespace Fields

variable (fields : Fields) (name : String) (read : Json → Except String α)

def required : Except String α := do
  let document ← okOr (fields.find name) s!"missing field {name}"
  read document

/-- An absent option of an object is none. -/
def optional : Except String (Option α) :=
  match fields.find name with
  | some document => document.asOption read
  | none => if fields.named then .ok none else .error s!"missing field {name}"

def orDefault (default : α) : Except String α :=
  match fields.find name with
  | some document => read document
  | none => .ok default

variable {fields name read} {document : Json} {a : α}

theorem required_eq_ok :
    fields.required name read = .ok a ↔ ∃ document, fields.find name = some document ∧
      read document = .ok a := by
  simp only [required, except_bind_eq_ok, okOr_eq_ok]

end Fields

/-- The members of an object are found by their names. -/
theorem asStruct_object {names : List String} {members : List (String × Json)}
    (hnames : members.map (·.1) = names) (hnodup : names.Nodup) :
    (Json.object members).asStruct names =
      .ok ⟨fun name ↦ (members.find? (·.1 = name)).map (·.2), true⟩ := by
  subst hnames
  simp only [asStruct, except_bind_unit_eq_ok, forM_eq_ok_iff, rejectIf_eq_ok, not_not,
    except_pure_eq_ok, and_true]
  exact ⟨fun member hmember ↦ List.mem_map_of_mem hmember, hnodup⟩

theorem asStruct_object_eq_ok {names : List String} {members : List (String × Json)}
    {fields : Fields} : (Json.object members).asStruct names = .ok fields ↔
      (∀ member ∈ members, member.1 ∈ names) ∧ (members.map (·.1)).Nodup ∧
        ⟨fun name ↦ (members.find? (·.1 = name)).map (·.2), true⟩ = fields := by
  simp only [asStruct, except_bind_unit_eq_ok, forM_eq_ok_iff, rejectIf_eq_ok, not_not,
    except_pure_eq_ok]

theorem asStruct_array_eq_ok {names : List String} {items : List Json} {fields : Fields} :
    (Json.array items).asStruct names = .ok fields ↔
      items.length ≤ names.length ∧ ⟨fun name ↦ items[names.idxOf name]?, false⟩ = fields := by
  simp only [asStruct, except_bind_unit_eq_ok, rejectIf_eq_ok, not_lt, except_pure_eq_ok]

theorem isSome_find_member (members : List (String × Json)) (name : String) :
    ((members.find? (·.1 = name)).map (·.2)).isSome = true ↔ name ∈ members.map (·.1) := by
  rw [Option.isSome_map, List.find?_isSome, List.mem_map]
  simp

/-! ## Tagged enumerations -/

/-- The tag of a variant, and the document of its fields. -/
def asTagged (tag : String) : Json → Except String (String × Json)
  | .object members =>
    match members.filter (·.1 = tag) with
    | [] => .error s!"missing field {tag}"
    | [(_, name)] => do return (← name.asString, .object (members.filter (·.1 ≠ tag)))
    | _ => .error s!"duplicate field {tag}"
  | .array [] => .error s!"missing field {tag}"
  | .array (name :: items) => do return (← name.asString, .array items)
  | _ => .error "invalid type: expected a tagged enumeration"

/-! ## Values as maps -/

/-- The member of an object; the last one of a name counts. -/
def get? (name : String) : Json → Option Json
  | .object members => (members.reverse.find? (·.1 = name)).map (·.2)
  | _ => none

/-- In an object without repeated members it does not matter which one counts. -/
theorem get?_object {members : List (String × Json)} (hnodup : (members.map (·.1)).Nodup)
    (name : String) :
    (Json.object members).get? name = (members.find? (·.1 = name)).map (·.2) := by
  have hreverse : members.reverse.find? (·.1 = name) = members.find? (·.1 = name) := by
    induction members with
    | nil => rfl
    | cons member rest ih =>
      obtain ⟨hnew, hrest⟩ := List.nodup_cons.mp hnodup
      rw [List.reverse_cons, List.find?_append, ih hrest]
      by_cases hname : member.1 = name
      · have hnone : rest.find? (·.1 = name) = none := by
          rw [List.find?_eq_none]
          intro other hother
          rw [decide_eq_true_eq]
          exact fun h ↦ hnew (List.mem_map.mpr ⟨other, hother, h.trans hname.symm⟩)
        rw [hnone]
        simp [hname]
      · simp [hname]
  exact congrArg (·.map (·.2)) hreverse

def asArray? : Json → Option (List Json)
  | .array items => some items
  | _ => none

/-- The member names, for an object. -/
def keys? : Json → Option (List String)
  | .object members => some (members.map (·.1))
  | _ => none

end Json

end Foundations
