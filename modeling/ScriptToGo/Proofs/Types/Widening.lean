import ScriptToGo.Check.Statement
import ScriptToGo.Proofs.Types.Parts

/-! A constant has the same Go type as a variable that is declared with the same value. -/
namespace ScriptToGo

/-- Go code does not tell two types apart: they have one Go name or none for the same reason, and
what is written for their values goes by the same rules. -/
structure Ty.SameInGo (a b : Ty) : Prop where
  goName : a.goName = b.goName
  isArrayLike : a.isArrayLike = b.isArrayLike
  isNumberLike : a.isNumberLike = b.isNumberLike
  isStringLike : a.isStringLike = b.isStringLike
  isDynamic : a.isDynamic = b.isDynamic

namespace Ty

theorem SameInGo.refl (type : Ty) : type.SameInGo type := ⟨rfl, rfl, rfl, rfl, rfl⟩

theorem SameInGo.symm {a b : Ty} (h : a.SameInGo b) : b.SameInGo a :=
  ⟨h.goName.symm, h.isArrayLike.symm, h.isNumberLike.symm, h.isStringLike.symm, h.isDynamic.symm⟩

theorem SameInGo.trans {a b c : Ty} (first : a.SameInGo b) (second : b.SameInGo c) :
    a.SameInGo c where
  goName := first.goName.trans second.goName
  isArrayLike := first.isArrayLike.trans second.isArrayLike
  isNumberLike := first.isNumberLike.trans second.isNumberLike
  isStringLike := first.isStringLike.trans second.isStringLike
  isDynamic := first.isDynamic.trans second.isDynamic

theorem goName_string : string.goName = .ok Target.string :=
  (goName_of_isSpelled rfl).trans (congrArg Except.ok (by decide +kernel))

theorem goName_boolean : boolean.goName = .ok Target.bool :=
  (goName_of_isSpelled rfl).trans (congrArg Except.ok (by decide +kernel))

theorem goName_booleanLit (value : Bool) : (booleanLit value).goName = .ok Target.bool := by
  cases value
  all_goals exact (goName_of_isSpelled rfl).trans (congrArg Except.ok (by decide +kernel))

mutual

theorem goName_widened (type : Ty) : goName (widened type) = goName type := by
  match type with
  | .numberLit _ => rw [widened, goName, goName]
  | .stringLit _ => rw [widened, goName_string, goName]
  | .booleanLit value => rw [widened, goName_boolean, goName_booleanLit]
  | .array element => rw [widened, goName, goName, goName_widened element]
  | .object [] => rfl
  | .object (.mk name type :: rest) =>
    rw [widened, widenedFields, goName, goName, goName_widened type, goFields_widened rest]
  | .number | .string | .boolean | .void | .null | .any | .unknown | .«alias» .. | .reference ..
  | .function .. => rfl

theorem goFields_widened (fields : List Field) :
    goFields (widenedFields fields) = goFields fields := by
  match fields with
  | [] => rfl
  | .mk name type :: rest =>
    rw [widenedFields, goFields, goFields, goName_widened type, goFields_widened rest]

end

mutual

theorem widened_widened (type : Ty) : widened (widened type) = widened type := by
  match type with
  | .array element => rw [widened, widened, widened_widened element]
  | .object fields => rw [widened, widened, widenedFields_widenedFields fields]
  | .number | .numberLit _ | .string | .stringLit _ | .boolean | .booleanLit _ | .void | .null
  | .any | .unknown | .«alias» .. | .reference .. | .function .. => rfl

theorem widenedFields_widenedFields (fields : List Field) :
    widenedFields (widenedFields fields) = widenedFields fields := by
  match fields with
  | [] => rfl
  | .mk name type :: rest =>
    rw [widenedFields, widenedFields, widened_widened type, widenedFields_widenedFields rest]

end

theorem sameInGo_widened (type : Ty) : type.widened.SameInGo type := by
  refine ⟨goName_widened type, ?_, ?_, ?_, ?_⟩ <;> cases type <;> rfl

end Ty

namespace Check

/-- What is declared with a value has the same Go type whatever word declares it. -/
theorem sameInGo_declaredType (keyword other : VariableKeyword) (written? : Option Ty)
    (inferred : Ty) :
    (declaredType keyword written? (some inferred)).SameInGo
      (declaredType other written? (some inferred)) := by
  have either (keyword : VariableKeyword) :
      (declaredType keyword none (some inferred)).SameInGo inferred := by
    rw [declaredType]
    split
    · exact .refl inferred
    · exact inferred.sameInGo_widened
  cases written? with
  | some written => exact .refl written
  | none => exact (either keyword).trans (either other).symm

end Check

/-- Go code does not tell two tables of types apart: at every place both have one Go name or none
for the same reason, and the same rules. -/
structure TypeTable.SameInGo (a b : TypeTable) : Prop where
  goNameAt : ∀ file span, a.goNameAt file span = b.goNameAt file span
  isArrayAt : ∀ file span, a.isArrayAt file span = b.isArrayAt file span
  isNumberAt : ∀ file span, a.isNumberAt file span = b.isNumberAt file span

theorem TypeTable.sameInGo_record (types : TypeTable) (file : FileId) (span : Span)
    {type other : Ty} (h : type.SameInGo other) :
    (types.record file span type).SameInGo (types.record file span other) := by
  have typed (place : FileId) (range : Span) :
      (types.record file span type).typeAt place range =
          (types.record file span other).typeAt place range ∨
        (types.record file span type).typeAt place range = some type ∧
          (types.record file span other).typeAt place range = some other := by
    rw [typeAt, record, typeAt, record, List.lookup_cons, List.lookup_cons]
    split
    · exact .inr ⟨rfl, rfl⟩
    · exact .inl rfl
  refine ⟨fun place range => ?_, fun place range => ?_, fun place range => ?_⟩
  · rw [goNameAt, goNameAt]
    rcases typed place range with same | ⟨here, there⟩
    · rw [same]
    · rw [here, there]
      exact h.goName
  · rw [isArrayAt, isArrayAt]
    rcases typed place range with same | ⟨here, there⟩
    · rw [same]
    · rw [here, there]
      exact h.isArrayLike
  · rw [isNumberAt, isNumberAt]
    rcases typed place range with same | ⟨here, there⟩
    · rw [same]
    · rw [here, there]
      exact h.isNumberLike

theorem Check.types_bindName (file : FileId) (name : Name) (type : Ty)
    (keyword? : Option VariableKeyword) (s : CheckState) :
    ((Check.bind file name type keyword?).run s).2.types = s.types := by
  rw [Check.bind.eq_def]
  simp only [StateT.run_bind, StateT.run_get, pure_bind]
  split <;> rfl

open Check

/-- A declaration with a value finds the written type, then that of the value, and records one. -/
theorem Declarator.check_initialized (file : FileId) (keyword : VariableKeyword) (span : Span)
    (name : Name) (type? : Option TypeExpr) (value : Expr) :
    (Declarator.mk span name type? (some value)).check file keyword = (do
      let written? ← type?.mapM (resolveType file)
      let inferred ← value.check file (.value written?)
      let type := declaredType keyword written? (some inferred)
      record file span type
      Check.bind file name type (some keyword)) := by
  simp only [Declarator.check, Option.mapM_some, map_eq_pure_bind, bind_assoc, pure_bind,
    Option.isNone_some, Bool.false_eq_true, and_false, if_false]

/-- Only the type that is recorded for a declaration with a value depends on the word that declares
it. -/
theorem Declarator.exists_types_check (file : FileId) (span : Span) (name : Name)
    (type? : Option TypeExpr) (value : Expr) (s : CheckState) :
    ∃ written? inferred types, ∀ keyword,
      (((Declarator.mk span name type? (some value)).check file keyword).run s).2.types =
        TypeTable.record types file span (declaredType keyword written? (some inferred)) := by
  let written := (type?.mapM (resolveType file)).run s
  let inferred := (value.check file (.value written.1)).run written.2
  refine ⟨written.1, inferred.1, inferred.2.types, fun keyword => ?_⟩
  rw [check_initialized]
  exact types_bindName file name _ (some keyword) _

/-- Widening a type changes nothing that is written in Go, and nothing is left to widen then. A
declaration with a value gets the same type in Go whatever word declares it. -/
theorem Ty.widened_sameInGo (type : Ty) :
    type.widened.SameInGo type ∧ type.widened.widened = type.widened ∧
      ∀ file span name type? value keyword other (s : CheckState),
        (((Declarator.mk span name type? (some value)).check file keyword).run s).2.types.SameInGo
          (((Declarator.mk span name type? (some value)).check file other).run s).2.types := by
  refine ⟨type.sameInGo_widened, widened_widened type, ?_⟩
  intro file span name type? value keyword other s
  obtain ⟨written?, inferred, types, recorded⟩ :=
    Declarator.exists_types_check file span name type? value s
  rw [recorded keyword, recorded other]
  exact types.sameInGo_record file span (sameInGo_declaredType keyword other written? inferred)

end ScriptToGo
