import Mathlib.Logic.Basic
import ScriptToGo.Check.Statement

/-! Types as far as checking tells them apart, up to the names of other types in them. Those that it
cannot tell apart if some names are taken for others are alike, and fewer names may then be taken. -/
namespace ScriptToGo

mutual

/-- A type with other names of what it refers to. Checking never asks for the name of an alias, only
for its target, and it never asks which literal a type is made of. -/
def Ty.shape (f : String → String) : Ty → Ty
  | .array element => .array (element.shape f)
  | .«alias» _ target => .«alias» "" (target.shape f)
  | .reference name args => .reference (f name) (Ty.shapes f args)
  | .object fields => .object (Field.shapes f fields)
  | .function params returns => .function (Field.shapes f params) (returns.shape f)
  | .number => .number
  | .numberLit _ => .number
  | .string => .string
  | .stringLit _ => .string
  | .boolean => .boolean
  | .booleanLit _ => .boolean
  | .void => .void
  | .null => .null
  | .any => .any
  | .unknown => .unknown

def Ty.shapes (f : String → String) : List Ty → List Ty
  | [] => []
  | type :: rest => type.shape f :: Ty.shapes f rest

def Field.shapes (f : String → String) : List Field → List Field
  | [] => []
  | .mk name type :: rest => .mk name (type.shape f) :: Field.shapes f rest

end

variable (f : String → String)

theorem Ty.shape_resolved (type : Ty) : (type.shape f).resolved = type.resolved.shape f := by
  match type with
  | .«alias» _ target =>
    rw [shape, resolved, resolved]
    exact Ty.shape_resolved target
  | .number | .numberLit _ | .string | .stringLit _ | .boolean | .booleanLit _ | .void | .null
  | .any | .unknown | .array _ | .reference .. | .object _ | .function .. => rfl

mutual

theorem Ty.shape_widened (type : Ty) : type.widened.shape f = type.shape f := by
  match type with
  | .array element => rw [Ty.widened, Ty.shape, Ty.shape, Ty.shape_widened]
  | .object fields => rw [Ty.widened, Ty.shape, Ty.shape, Field.shapes_widened]
  | .number | .numberLit _ | .string | .stringLit _ | .boolean | .booleanLit _ | .void | .null
  | .any | .unknown | .«alias» .. | .reference .. | .function .. => rfl

theorem Field.shapes_widened (fields : List Field) :
    Field.shapes f (Ty.widenedFields fields) = Field.shapes f fields := by
  match fields with
  | [] => rfl
  | .mk name type :: rest =>
    rw [Ty.widenedFields, Field.shapes, Field.shapes, Ty.shape_widened, Field.shapes_widened]

end

namespace Ty

theorem shape_element? (type : Ty) :
    (type.shape f).element? = type.element?.map (·.shape f) := by
  rw [element?, element?, shape_resolved]
  cases type.resolved <;> rfl

theorem shape_isArrayLike (type : Ty) : (type.shape f).isArrayLike = type.isArrayLike := by
  rw [isArrayLike, isArrayLike, shape_element?, Option.isSome_map]

theorem shape_isStringLike (type : Ty) : (type.shape f).isStringLike = type.isStringLike := by
  rw [isStringLike, isStringLike, shape_resolved]
  cases type.resolved <;> rfl

theorem shape_isDynamic (type : Ty) : (type.shape f).isDynamic = type.isDynamic := by
  rw [isDynamic, isDynamic, shape_resolved]
  cases type.resolved <;> rfl

end Ty

namespace Field

theorem shapes_typeIn? (name : String) (fields : List Field) :
    typeIn? name (shapes f fields) = (typeIn? name fields).map (·.shape f) := by
  induction fields with
  | nil => rfl
  | cons field rest ih =>
    obtain ⟨other, type⟩ := field
    rw [typeIn?, typeIn?] at ih ⊢
    rw [shapes, List.find?_cons, List.find?_cons]
    change (match other == name with | true => _ | false => _ : Option Field).map Field.type = _
    cases same : other == name with
    | true => simp [same, Field.name, Field.type]
    | false => simpa [same, Field.name] using ih

theorem shapes_set (name : String) (type : Ty) (fields : List Field) :
    shapes f (set name type fields) = set name (type.shape f) (shapes f fields) := by
  induction fields with
  | nil => rfl
  | cons field rest ih =>
    obtain ⟨other, old⟩ := field
    rw [set, shapes, set]
    split
    · rw [shapes]
    · rw [shapes, ih]

theorem shapes_setAll (fields new : List Field) :
    shapes f (setAll fields new) = setAll (shapes f fields) (shapes f new) := by
  induction new generalizing fields with
  | nil => rfl
  | cons field rest ih =>
    obtain ⟨name, type⟩ := field
    exact (ih (set name type fields)).trans (by rw [shapes_set]; rfl)

theorem length_shapes (fields : List Field) : (shapes f fields).length = fields.length := by
  induction fields with
  | nil => rfl
  | cons field rest ih =>
    obtain ⟨name, type⟩ := field
    rw [shapes, List.length_cons, ih, List.length_cons]

end Field

namespace Check

theorem shape_negated (type : Ty) : negated (type.shape f) = (negated type).shape f := by
  have other (type : Ty) (noLiteral : ∀ text, type ≠ .numberLit text) :
      negated type = if type.isDynamic then type else .number := by
    rw [negated.eq_def]
    split
    next text => exact (noLiteral text rfl).elim
    · rfl
  have shaped (text : String) : type.shape f ≠ .numberLit text := by
    cases type <;> exact nofun
  rw [other _ shaped, Ty.shape_isDynamic]
  by_cases literal : ∃ text, type = .numberLit text
  · obtain ⟨text, rfl⟩ := literal
    have same : (negated (.numberLit text)).shape f = .number := by
      rw [negated]
      split <;> rfl
    rw [same]
    rfl
  · rw [other _ fun text is => literal ⟨text, is⟩]
    split <;> rfl

theorem shape_typeOfElement (type : Ty) :
    typeOfElement (type.shape f) = (typeOfElement type).shape f := by
  rw [typeOfElement, typeOfElement, Ty.shape_resolved]
  generalize type.resolved = type
  have other (type : Ty) : (if (type.shape f).isStringLike then Ty.string
      else if (type.shape f).isDynamic then type.shape f else .any)
        = (if type.isStringLike then Ty.string else if type.isDynamic then type else .any).shape f := by
    rw [Ty.shape_isStringLike, Ty.shape_isDynamic]
    split
    · rfl
    · split <;> rfl
  cases type with
  | array element => rfl
  | _ => exact other _

theorem shape_typeOfOperation (op : BinaryOp) (left right : Ty) :
    typeOfOperation op (left.shape f) (right.shape f) = (typeOfOperation op left right).shape f := by
  cases op with
  | add =>
    rw [typeOfOperation, typeOfOperation, Ty.shape_isStringLike, Ty.shape_isStringLike,
      Ty.shape_isDynamic, Ty.shape_isDynamic]
    split
    · rfl
    · split <;> rfl
  | _ => rfl

theorem shape_typeOfAssignment (op : BinaryOp) (target value : Ty) :
    typeOfAssignment op (target.shape f) (value.shape f)
      = (typeOfAssignment op target value).shape f := by
  cases op with
  | addAssign =>
    rw [typeOfAssignment, typeOfAssignment, Ty.shape_isStringLike, Ty.shape_isStringLike]
    split <;> rfl
  | _ => rfl

end Check

variable {f}

/-- Checking only tells two types apart by the names in them, and those of the second stand for those
of the first. -/
def Ty.Alike (f : String → String) (a b : Ty) : Prop := a.shape id = b.shape f

def Ty.AllAlike (f : String → String) (types others : List Ty) : Prop :=
  Ty.shapes id types = Ty.shapes f others

def Field.AllAlike (f : String → String) (fields others : List Field) : Prop :=
  Field.shapes id fields = Field.shapes f others

namespace Ty

variable {a b : Ty} {fields : List Field}

namespace Alike

theorem resolved (h : a.Alike f b) : a.resolved.Alike f b.resolved := by
  rw [Alike, ← shape_resolved, ← shape_resolved, h]

theorem widened_left (h : a.Alike f b) : a.widened.Alike f b := by
  rw [Alike, shape_widened, h]

theorem widened_right (h : a.Alike f b) : a.Alike f b.widened := by
  rw [Alike, shape_widened, h]

theorem widened (h : a.Alike f b) : a.widened.Alike f b.widened := h.widened_left.widened_right

theorem isDynamic_eq (h : a.Alike f b) : b.isDynamic = a.isDynamic := by
  rw [← shape_isDynamic f b, ← h, shape_isDynamic]

theorem isArrayLike_eq (h : a.Alike f b) : b.isArrayLike = a.isArrayLike := by
  rw [← shape_isArrayLike f b, ← h, shape_isArrayLike]

theorem isStringLike_eq (h : a.Alike f b) : b.isStringLike = a.isStringLike := by
  rw [← shape_isStringLike f b, ← h, shape_isStringLike]

end Alike

/-- Two types, if there are any, that checking cannot tell apart. -/
def OptionAlike (f : String → String) (a? b? : Option Ty) : Prop :=
  a?.map (·.shape id) = b?.map (·.shape f)

theorem OptionAlike.none : OptionAlike f none none := rfl

theorem Alike.some (h : a.Alike f b) : OptionAlike f (some a) (some b) := congrArg Option.some h

theorem Alike.element? (h : a.Alike f b) : OptionAlike f a.element? b.element? := by
  rw [OptionAlike, ← shape_element?, ← shape_element?, h]

theorem OptionAlike.isNone_eq {a? b? : Option Ty} (h : OptionAlike f a? b?) :
    a?.isNone = b?.isNone := by
  rw [← Option.isNone_map, h, Option.isNone_map]

theorem OptionAlike.getD_any {a? b? : Option Ty} (h : OptionAlike f a? b?) :
    (a?.getD any).Alike f (b?.getD any) := by
  match a?, b? with
  | .none, .none => exact rfl
  | .some _, .none | .none, .some _ => cases h
  | .some a, .some b => exact Option.some.inj h

theorem OptionAlike.bind_element? {a? b? : Option Ty} (h : OptionAlike f a? b?) :
    OptionAlike f (a?.bind Ty.element?) (b?.bind Ty.element?) := by
  match a?, b? with
  | .none, .none => exact .none
  | .some _, .none | .none, .some _ => cases h
  | .some a, .some b =>
    have same : a.Alike f b := Option.some.inj h
    exact same.element?

theorem OptionAlike.filter_isArrayLike {a? b? : Option Ty} (h : OptionAlike f a? b?) :
    OptionAlike f (a?.filter isArrayLike) (b?.filter isArrayLike) := by
  match a?, b? with
  | .none, .none => exact .none
  | .some _, .none | .none, .some _ => cases h
  | .some a, .some b =>
    have same : a.Alike f b := Option.some.inj h
    rw [Option.filter_some, Option.filter_some, same.isArrayLike_eq]
    split
    · exact same.some
    · exact .none

theorem Alike.array (h : a.Alike f b) : (array a).Alike f (array b) := congrArg Ty.array h

theorem Alike.«alias» (h : a.Alike f b) (name name' : String) :
    («alias» name a).Alike f («alias» name' b) := congrArg (Ty.«alias» "") h

theorem alike_reference {args args' : List Ty} (h : AllAlike f args args') {name name' : String}
    (stands : name = f name') : (reference name args).Alike f (reference name' args') := by
  rw [Alike, shape, shape, h, ← stands, id_eq]

theorem alike_object {fields' : List Field} (h : Field.AllAlike f fields fields') :
    (object fields).Alike f (object fields') := congrArg Ty.object h

theorem alike_function {params params' : List Field} (h : Field.AllAlike f params params')
    {returns returns' : Ty} (h' : returns.Alike f returns') :
    (function params returns).Alike f (function params' returns') := congrArg₂ Ty.function h h'

theorem AllAlike.nil : AllAlike f [] [] := rfl

theorem Alike.cons {types types' : List Ty} (h : a.Alike f b) (h' : AllAlike f types types') :
    AllAlike f (a :: types) (b :: types') := congrArg₂ List.cons h h'

theorem AllAlike.single_or {types types' : List Ty} (h : AllAlike f types types') :
    (∃ a b, types = [a] ∧ types' = [b] ∧ a.Alike f b) ∨
      (∀ a, types ≠ [a]) ∧ ∀ b, types' ≠ [b] := by
  match types, types' with
  | [a], [b] => exact .inl ⟨a, b, rfl, rfl, (List.cons.inj h).1⟩
  | [], [] | _ :: _ :: _, _ :: _ :: _ => exact .inr ⟨by simp, by simp⟩
  | [], _ :: _ | _ :: _, [] => cases h
  | [_], _ :: _ :: _ | _ :: _ :: _, [_] => cases (List.cons.inj h).2

theorem exists_object (h : (object fields).Alike f b) :
    ∃ fields', b = object fields' ∧ Field.AllAlike f fields fields' := by
  cases b <;> simp only [Alike, shape, reduceCtorEq] at h
  exact ⟨_, rfl, Ty.object.inj h⟩

theorem exists_reference {name : String} {args : List Ty} (h : (reference name args).Alike f b) :
    ∃ name' args', b = reference name' args' ∧ name = f name' := by
  cases b <;> simp only [Alike, shape, reduceCtorEq] at h
  exact ⟨_, _, rfl, (Ty.reference.inj h).1⟩

theorem exists_function {params : List Field} {returns : Ty}
    (h : (function params returns).Alike f b) : ∃ params' returns', b = function params' returns' ∧
      Field.AllAlike f params params' ∧ returns.Alike f returns' := by
  cases b <;> simp only [Alike, shape, reduceCtorEq] at h
  exact ⟨_, _, rfl, Ty.function.inj h⟩

/-- What the first type is not, the second one is not either. -/
theorem Alike.ne_object (h : a.Alike f b) (none : ∀ fields, a ≠ object fields) (fields : List Field) :
    b ≠ object fields := by
  rintro rfl
  cases a <;> simp only [Alike, shape, reduceCtorEq] at h
  exact none _ rfl

theorem Alike.ne_reference (h : a.Alike f b) (none : ∀ name args, a ≠ reference name args)
    (name : String) (args : List Ty) : b ≠ reference name args := by
  rintro rfl
  cases a <;> simp only [Alike, shape, reduceCtorEq] at h
  exact none _ _ rfl

theorem Alike.ne_function (h : a.Alike f b) (none : ∀ params returns, a ≠ function params returns)
    (params : List Field) (returns : Ty) : b ≠ function params returns := by
  rintro rfl
  cases a <;> simp only [Alike, shape, reduceCtorEq] at h
  exact none _ _ rfl

end Ty

namespace Field

variable {fields fields' new new' : List Field} {a b : Ty}

theorem AllAlike.nil : AllAlike f [] [] := rfl

theorem AllAlike.cons (h : a.Alike f b) (h' : AllAlike f fields fields') (name : String) :
    AllAlike f (.mk name a :: fields) (.mk name b :: fields') :=
  congrArg₂ (fun type rest => Field.mk name type :: rest) h h'

theorem AllAlike.typeIn? (h : AllAlike f fields fields') (name : String) :
    Ty.OptionAlike f (Field.typeIn? name fields) (Field.typeIn? name fields') := by
  rw [Ty.OptionAlike, ← shapes_typeIn?, ← shapes_typeIn?, h]

theorem AllAlike.set (h : AllAlike f fields fields') (h' : a.Alike f b) (name : String) :
    AllAlike f (Field.set name a fields) (Field.set name b fields') := by
  rw [AllAlike, shapes_set, shapes_set, h, h']

theorem AllAlike.setAll (h : AllAlike f fields fields') (h' : AllAlike f new new') :
    AllAlike f (Field.setAll fields new) (Field.setAll fields' new') := by
  rw [AllAlike, shapes_setAll, shapes_setAll, h, h']

theorem AllAlike.length_eq (h : AllAlike f fields fields') : fields'.length = fields.length := by
  rw [← length_shapes f fields', ← h, length_shapes]

theorem AllAlike.tail (h : AllAlike f fields fields') : AllAlike f fields.tail fields'.tail := by
  cases fields with
  | nil =>
    cases fields' with
    | nil => rfl
    | cons field rest =>
      obtain ⟨name, type⟩ := field
      cases h
  | cons field rest =>
    obtain ⟨name, type⟩ := field
    cases fields' with
    | nil => cases h
    | cons field' rest' =>
      obtain ⟨name', type'⟩ := field'
      exact (List.cons.inj h).2

theorem AllAlike.head_type (h : AllAlike f fields fields') :
    Ty.OptionAlike f (fields.head?.map Field.type) (fields'.head?.map Field.type) := by
  cases fields with
  | nil =>
    cases fields' with
    | nil => rfl
    | cons field rest =>
      obtain ⟨name, type⟩ := field
      cases h
  | cons field rest =>
    obtain ⟨name, type⟩ := field
    cases fields' with
    | nil => cases h
    | cons field' rest' =>
      obtain ⟨name', type'⟩ := field'
      have same : type.shape id = type'.shape f := (Field.mk.inj (List.cons.inj h).1).2
      exact congrArg some same

end Field

mutual

theorem Ty.Alike.self_of {h : String → String} (keeps : ∀ name, f name = name → h name = name)
    (type : Ty) (same : type.Alike f type) : type.Alike h type := by
  match type with
  | .array element => exact (Ty.Alike.self_of keeps element (Ty.array.inj same)).array
  | .«alias» name target =>
    have inner : target.Alike f target := (Ty.alias.inj same).2
    exact (Ty.Alike.self_of keeps target inner).«alias» name name
  | .reference name args =>
    obtain ⟨stays, inner⟩ := Ty.reference.inj same
    exact Ty.alike_reference (Ty.AllAlike.self_of keeps args inner) (keeps name stays.symm).symm
  | .object fields => exact Ty.alike_object (Field.AllAlike.self_of keeps fields (Ty.object.inj same))
  | .function params returns =>
    obtain ⟨first, last⟩ := Ty.function.inj same
    exact Ty.alike_function (Field.AllAlike.self_of keeps params first)
      (Ty.Alike.self_of keeps returns last)
  | .number | .numberLit _ | .string | .stringLit _ | .boolean | .booleanLit _ | .void | .null
  | .any | .unknown => exact rfl

theorem Ty.AllAlike.self_of {h : String → String} (keeps : ∀ name, f name = name → h name = name)
    (types : List Ty) (same : Ty.AllAlike f types types) : Ty.AllAlike h types types := by
  match types with
  | [] => exact .nil
  | type :: rest =>
    obtain ⟨first, others⟩ := List.cons.inj same
    exact (Ty.Alike.self_of keeps type first).cons (Ty.AllAlike.self_of keeps rest others)

theorem Field.AllAlike.self_of {h : String → String} (keeps : ∀ name, f name = name → h name = name)
    (fields : List Field) (same : Field.AllAlike f fields fields) :
    Field.AllAlike h fields fields := by
  match fields with
  | [] => exact .nil
  | .mk name type :: rest =>
    obtain ⟨first, others⟩ := List.cons.inj same
    exact .cons (Ty.Alike.self_of keeps type (Field.mk.inj first).2)
      (Field.AllAlike.self_of keeps rest others) name

end

theorem Ty.OptionAlike.self_of {h : String → String} (keeps : ∀ name, f name = name → h name = name)
    {type? : Option Ty} (same : OptionAlike f type? type?) : OptionAlike h type? type? := by
  cases type? with
  | none => exact .none
  | some type => exact (Ty.Alike.self_of keeps type (Option.some.inj same)).some

namespace Check

variable {a b : Ty}

theorem alike_negated (h : a.Alike f b) : (negated a).Alike f (negated b) := by
  rw [Ty.Alike, ← shape_negated, ← shape_negated, h]

theorem alike_typeOfElement (h : a.Alike f b) : (typeOfElement a).Alike f (typeOfElement b) := by
  rw [Ty.Alike, ← shape_typeOfElement, ← shape_typeOfElement, h]

theorem alike_typeOfOperation {c d : Ty} (h : a.Alike f b) (h' : c.Alike f d) (op : BinaryOp) :
    (typeOfOperation op a c).Alike f (typeOfOperation op b d) := by
  rw [Ty.Alike, ← shape_typeOfOperation, ← shape_typeOfOperation, h, h']

theorem alike_typeOfAssignment {c d : Ty} (h : a.Alike f b) (h' : c.Alike f d) (op : BinaryOp) :
    (typeOfAssignment op a c).Alike f (typeOfAssignment op b d) := by
  rw [Ty.Alike, ← shape_typeOfAssignment, ← shape_typeOfAssignment, h, h']

theorem alike_declaredType {a? b? c? d? : Option Ty} (h : Ty.OptionAlike f a? b?)
    (h' : Ty.OptionAlike f c? d?) (keyword : VariableKeyword) :
    (declaredType keyword a? c?).Alike f (declaredType keyword b? d?) := by
  match a?, b?, c?, d? with
  | some a, some b, _, _ => exact Option.some.inj h
  | some a, none, _, _ | none, some b, _, _ => cases h
  | none, none, some c, none | none, none, none, some d => cases h'
  | none, none, none, none => rfl
  | none, none, some c, some d =>
    have same : c.Alike f d := Option.some.inj h'
    rw [declaredType, declaredType]
    split
    · exact same
    · exact same.widened

end Check

end ScriptToGo
