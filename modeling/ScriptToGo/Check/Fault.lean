import ScriptToGo.Diagnostic

/-! The ways in which a program can break the rules of types. -/
namespace ScriptToGo

/-- A way to break the rules of names and types. -/
inductive TypeFault
  | duplicateIdentifier (name : String)
  | duplicateImplementation (name : String)
  | redeclared (name : String)
  | uninitializedConstant
  | unknownModule (specifier : String)
  | wholeModuleImport (specifier : String)
  | noDefaultExport (specifier : String)
  | noExportedMember (specifier name : String)
  | nestedImport
  | nestedDeclaration (kindName : String)
  | returnOutsideFunction
  | unknownName (name : String)
  | typeAsValue (name : String)
  | valueAsType (name : String)
  | notGeneric (name : String)
  | missingArgument (name : String)
  | circularAlias (name : String)
  | unknownProperty (name typeText : String)
  | notCallable
  | argumentCount (wanted given : Nat)
  | spreadOfNonObject
  | assignedConstant (name : String)
  | assignedFunction (name : String)
  | badAssignmentTarget
  | badStepTarget

namespace TypeFault

def message : TypeFault → String
  | duplicateIdentifier name => s!"Duplicate identifier '{name}'."
  | duplicateImplementation _ => "Duplicate function implementation."
  | redeclared name => s!"Cannot redeclare block-scoped variable '{name}'."
  | uninitializedConstant => "'const' declarations must be initialized."
  | unknownModule specifier => s!"Cannot find module '{specifier}'."
  | wholeModuleImport _ => "Namespace imports are not supported."
  | noDefaultExport specifier => s!"Module '\"{specifier}\"' has no default export."
  | noExportedMember specifier name =>
    s!"Module '\"{specifier}\"' has no exported member '{name}'."
  | nestedImport => "An import declaration can only be used at the top level of a module."
  | nestedDeclaration kindName =>
    s!"A nested {kindName} is not supported; declare it at the top level of a module."
  | returnOutsideFunction => "A 'return' statement can only be used within a function body."
  | unknownName name => s!"Cannot find name '{name}'."
  | typeAsValue name => s!"'{name}' only refers to a type, but is being used as a value here."
  | valueAsType name => s!"'{name}' refers to a value, but is being used as a type here."
  | notGeneric name => s!"Type '{name}' is not generic."
  | missingArgument name => s!"Generic type '{name}<T>' requires 1 type argument(s)."
  | circularAlias name => s!"Type alias '{name}' circularly references itself."
  | unknownProperty name typeText => s!"Property '{name}' does not exist on type '{typeText}'."
  | notCallable => "This expression is not callable."
  | argumentCount wanted given => s!"Expected {wanted} arguments, but got {given}."
  | spreadOfNonObject => "Spread types may only be created from object types."
  | assignedConstant name => s!"Cannot assign to '{name}' because it is a constant."
  | assignedFunction name => s!"Cannot assign to '{name}' because it is a function."
  | badAssignmentTarget =>
    "The left-hand side of an assignment expression must be a variable or a property access."
  | badStepTarget =>
    "The operand of an increment or decrement operator must be a variable or a property access."

def notes : TypeFault → List String
  | duplicateImplementation name => [s!"'{name}' is already implemented in this file"]
  | _ => []

def hints : TypeFault → List String
  | wholeModuleImport specifier =>
    ["Import the declarations you need by name: import \x7b ... \x7d from \"" ++ specifier ++ "\""]
  | _ => []

end TypeFault

/-- A fault, the module in which it was found, and where. -/
structure TypeError where
  file : Nat
  fault : TypeFault
  span : Span

def TypeError.diagnostic (e : TypeError) : Diagnostic :=
  ⟨.typing, e.fault.message, e.span, e.fault.notes, e.fault.hints⟩

end ScriptToGo
