import ScriptToGo.Check.Statement
import ScriptToGo.Proofs.Program.Texts

/-! Types that are made of good texts, and known unless something has failed; and types that are unknown
in some part. -/
namespace ScriptToGo

section

variable (Good : String → Prop) (failed : Prop)

mutual

/-- All names and literals in a type are good, and no part of it is unknown unless checking has
failed. -/
def Ty.Proper : Ty → Prop
  | .numberLit text | .stringLit text => Good text
  | .unknown => failed
  | .array element => element.Proper
  | .«alias» name target => Good name ∧ target.Proper
  | .reference name args => Good name ∧ Ty.AllProper args
  | .object fields => Field.AllProper fields
  | .function params returns => Field.AllProper params ∧ returns.Proper
  | .number | .string | .boolean | .booleanLit _ | .void | .null | .any => True

def Ty.AllProper : List Ty → Prop
  | [] => True
  | type :: rest => type.Proper ∧ Ty.AllProper rest

def Field.AllProper : List Field → Prop
  | [] => True
  | .mk name type :: rest => Good name ∧ type.Proper ∧ Field.AllProper rest

end

/-- What a name stands for is made of proper types. -/
def SymbolKind.Proper : SymbolKind → Prop
  | .variable type _ | .builtin type => type.Proper Good failed
  | .function params returns _ => Field.AllProper Good failed params ∧ returns.Proper Good failed
  | .interface members => Field.AllProper Good failed members
  | .«alias» written target? =>
    written.AllTexts Good ∧ ∀ target ∈ target?, target.Proper Good failed
  | .global value => Good value.typeName

end

variable {Good : String → Prop} {failed later : Prop}

mutual

/-- What is known stays known. -/
theorem Ty.Proper.mono {type : Ty} (h : Ty.Proper Good failed type) (more : failed → later) :
    Ty.Proper Good later type := by
  match type with
  | .number | .string | .boolean | .booleanLit _ | .void | .null | .any => trivial
  | .numberLit _ | .stringLit _ => exact h
  | .unknown => exact more h
  | .array element =>
    have inner : Ty.Proper Good failed element := h
    exact (Ty.Proper.mono inner more :)
  | .«alias» _ _ => exact ⟨h.1, Ty.Proper.mono h.2 more⟩
  | .reference _ _ => exact ⟨h.1, Ty.AllProper.mono h.2 more⟩
  | .object fields =>
    have inner : Field.AllProper Good failed fields := h
    exact (Field.AllProper.mono inner more :)
  | .function _ _ => exact ⟨Field.AllProper.mono h.1 more, Ty.Proper.mono h.2 more⟩

theorem Ty.AllProper.mono {types : List Ty} (h : Ty.AllProper Good failed types)
    (more : failed → later) : Ty.AllProper Good later types := by
  match types with
  | [] => trivial
  | _ :: _ => exact ⟨Ty.Proper.mono h.1 more, Ty.AllProper.mono h.2 more⟩

theorem Field.AllProper.mono {fields : List Field} (h : Field.AllProper Good failed fields)
    (more : failed → later) : Field.AllProper Good later fields := by
  match fields with
  | [] => trivial
  | .mk _ _ :: _ => exact ⟨h.1, Ty.Proper.mono h.2.1 more, Field.AllProper.mono h.2.2 more⟩

end

theorem SymbolKind.Proper.mono {kind : SymbolKind} (h : kind.Proper Good failed)
    (more : failed → later) : kind.Proper Good later := by
  cases kind with
  | «variable» type _ | builtin type =>
    have proper : type.Proper Good failed := h
    exact proper.mono more
  | function params returns _ => exact ⟨h.1.mono more, h.2.mono more⟩
  | interface members =>
    have proper : Field.AllProper Good failed members := h
    exact proper.mono more
  | «alias» _ target? => exact ⟨h.1, fun target some => (h.2 target some).mono more⟩
  | global value => exact h

theorem Ty.Proper.resolved {type : Ty} (h : type.Proper Good failed) :
    type.resolved.Proper Good failed := by
  match type with
  | .«alias» _ target =>
    rw [Ty.resolved]
    exact Ty.Proper.resolved h.2
  | .number | .string | .boolean | .booleanLit _ | .void | .null | .any | .numberLit _
  | .stringLit _ | .unknown | .array _ | .reference .. | .object _ | .function .. => exact h

mutual

theorem Ty.Proper.widened {type : Ty} (h : Ty.Proper Good failed type) :
    Ty.Proper Good failed type.widened := by
  match type with
  | .numberLit _ | .stringLit _ | .booleanLit _ => trivial
  | .array element =>
    have inner : Ty.Proper Good failed element := h
    exact (Ty.Proper.widened inner :)
  | .object fields =>
    have inner : Field.AllProper Good failed fields := h
    exact (Field.AllProper.widened inner :)
  | .number | .string | .boolean | .void | .null | .any | .unknown | .«alias» .. | .reference ..
  | .function .. => exact h

theorem Field.AllProper.widened {fields : List Field} (h : Field.AllProper Good failed fields) :
    Field.AllProper Good failed (Ty.widenedFields fields) := by
  match fields with
  | [] => trivial
  | .mk _ _ :: _ => exact ⟨h.1, Ty.Proper.widened h.2.1, Field.AllProper.widened h.2.2⟩

end

variable {type element other : Ty} {fields new : List Field} {name : String}

theorem Ty.Proper.of_element? (h : type.Proper Good failed) (found : type.element? = some element) :
    element.Proper Good failed := by
  have inner := h.resolved
  rw [Ty.element?] at found
  split at found
  next is =>
    rw [is] at inner
    cases found
    exact inner
  · cases found

namespace Field

theorem AllProper.nil : AllProper Good failed [] := trivial

theorem AllProper.of_mem (h : AllProper Good failed fields) :
    ∀ field ∈ fields, Good field.name ∧ field.type.Proper Good failed := by
  induction fields with
  | nil => exact List.forall_mem_nil _
  | cons field rest ih =>
    obtain ⟨name, type⟩ := field
    exact List.forall_mem_cons.2 ⟨⟨h.1, h.2.1⟩, ih h.2.2⟩

theorem AllProper.typeIn (h : AllProper Good failed fields) (found : typeIn? name fields = some type) :
    type.Proper Good failed := by
  obtain ⟨field, among, rfl⟩ := Option.map_eq_some_iff.1 found
  exact (h.of_mem field (List.mem_of_find?_eq_some among)).2

theorem AllProper.set (h : AllProper Good failed fields) (good : Good name)
    (proper : type.Proper Good failed) : AllProper Good failed (Field.set name type fields) := by
  induction fields with
  | nil => exact ⟨good, proper, trivial⟩
  | cons field rest ih =>
    obtain ⟨other, old⟩ := field
    rw [Field.set]
    split
    · exact ⟨good, proper, h.2.2⟩
    · exact ⟨h.1, h.2.1, ih h.2.2⟩

theorem AllProper.setAll (h : AllProper Good failed fields) (others : AllProper Good failed new) :
    AllProper Good failed (Field.setAll fields new) := by
  induction new generalizing fields with
  | nil => exact h
  | cons field rest ih =>
    obtain ⟨name, type⟩ := field
    exact ih (h.set others.1 others.2.1) others.2.2

end Field

namespace Check

theorem proper_typeOfElement (h : type.Proper Good failed) :
    (typeOfElement type).Proper Good failed := by
  have inner := h.resolved
  rw [typeOfElement]
  split
  next element is =>
    rw [is] at inner
    exact inner
  next is =>
    split
    · trivial
    · split
      · exact inner
      · trivial

theorem proper_negated (signs : IgnoresSign Good) (h : type.Proper Good failed) :
    (negated type).Proper Good failed := by
  rw [negated.eq_def]
  split
  next text =>
    split
    next digits spelled =>
      have whole : text = "-" ++ String.ofList digits := String.toList_inj.1 (by simp [spelled])
      exact (signs _).1 (whole ▸ h)
    · exact (signs _).2 h
  · split
    · exact h
    · trivial

theorem proper_typeOfAssignment (op : BinaryOp) (h : type.Proper Good failed)
    (value : other.Proper Good failed) : (typeOfAssignment op type other).Proper Good failed := by
  rw [typeOfAssignment.eq_def]
  split
  · exact value
  · split
    · trivial
    · exact h
  · exact h

theorem proper_typeOfOperation (op : BinaryOp) (left right : Ty) :
    (typeOfOperation op left right).Proper Good failed := by
  rw [typeOfOperation.eq_def]
  split
  · split
    · trivial
    · split <;> trivial
  all_goals trivial

theorem proper_declaredType (keyword : VariableKeyword) {written? inferred? : Option Ty}
    (written : ∀ type ∈ written?, type.Proper Good failed)
    (inferred : ∀ type ∈ inferred?, type.Proper Good failed) :
    (declaredType keyword written? inferred?).Proper Good failed := by
  match written?, inferred? with
  | some type, _ => exact written type rfl
  | none, some type =>
    rw [declaredType]
    split
    · exact inferred type rfl
    · exact (inferred type rfl).widened
  | none, none => trivial

end Check

mutual

/-- A type is unknown, or some type inside of it is: an element, what an alias stands for, an
argument, a field, a parameter or a result. -/
def Ty.HasUnknown : Ty → Prop
  | .unknown => True
  | .array element => element.HasUnknown
  | .«alias» _ target => target.HasUnknown
  | .reference _ args => Ty.SomeUnknown args
  | .object fields => Field.SomeUnknown fields
  | .function params returns => Field.SomeUnknown params ∨ returns.HasUnknown
  | .number | .numberLit _ | .string | .stringLit _ | .boolean | .booleanLit _ | .void | .null
  | .any => False

def Ty.SomeUnknown : List Ty → Prop
  | [] => False
  | type :: rest => type.HasUnknown ∨ Ty.SomeUnknown rest

def Field.SomeUnknown : List Field → Prop
  | [] => False
  | .mk _ type :: rest => type.HasUnknown ∨ Field.SomeUnknown rest

end

/-- What a name stands for has an unknown type in it. -/
def SymbolKind.HasUnknown : SymbolKind → Prop
  | .variable type _ | .builtin type => type.HasUnknown
  | .function params returns _ => Field.SomeUnknown params ∨ returns.HasUnknown
  | .interface members => Field.SomeUnknown members
  | .«alias» _ target? => ∃ target ∈ target?, target.HasUnknown
  | .global _ => False

/-- Nothing is demanded of a text. A type is then proper if all of it is known, or if something has
failed. -/
abbrev AnyText (_ : String) : Prop := True

mutual

theorem Ty.proper_iff (type : Ty) :
    Ty.Proper AnyText failed type ↔ (Ty.HasUnknown type → failed) := by
  match type with
  | .unknown => exact (forall_const True).symm
  | .array element => exact (Ty.proper_iff element :)
  | .«alias» _ target => exact ((and_iff_right trivial).trans (Ty.proper_iff target) :)
  | .reference _ args => exact ((and_iff_right trivial).trans (Ty.allProper_iff args) :)
  | .object fields => exact (Field.allProper_iff fields :)
  | .function params returns =>
    exact ((and_congr (Field.allProper_iff params) (Ty.proper_iff returns)).trans or_imp.symm :)
  | .number | .numberLit _ | .string | .stringLit _ | .boolean | .booleanLit _ | .void | .null
  | .any => exact iff_of_true trivial False.elim

theorem Ty.allProper_iff (types : List Ty) :
    Ty.AllProper AnyText failed types ↔ (Ty.SomeUnknown types → failed) := by
  match types with
  | [] => exact iff_of_true trivial False.elim
  | type :: rest =>
    exact ((and_congr (Ty.proper_iff type) (Ty.allProper_iff rest)).trans or_imp.symm :)

theorem Field.allProper_iff (fields : List Field) :
    Field.AllProper AnyText failed fields ↔ (Field.SomeUnknown fields → failed) := by
  match fields with
  | [] => exact iff_of_true trivial False.elim
  | .mk _ type :: rest =>
    have parts := (and_congr (Ty.proper_iff type) (Field.allProper_iff rest)).trans or_imp.symm
    exact ((and_iff_right trivial).trans parts :)

end

theorem SymbolKind.proper_iff (kind : SymbolKind) :
    kind.Proper AnyText failed ↔ (kind.HasUnknown → failed) := by
  cases kind with
  | «variable» type _ | builtin type => exact (type.proper_iff :)
  | function params returns _ =>
    exact ((and_congr (Field.allProper_iff params) returns.proper_iff).trans or_imp.symm :)
  | interface members => exact (Field.allProper_iff members :)
  | «alias» written target? =>
    have texts : written.AllTexts AnyText := written.allTexts_of_forall fun _ => trivial
    constructor
    · rintro proper ⟨target, some, unknown⟩
      exact target.proper_iff.1 (proper.2 target some) unknown
    · intro known
      refine ⟨texts, fun target some => target.proper_iff.2 fun unknown => ?_⟩
      exact known ⟨target, some, unknown⟩
  | global _ => exact iff_of_true trivial False.elim

end ScriptToGo
