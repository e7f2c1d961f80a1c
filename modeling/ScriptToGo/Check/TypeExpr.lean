import ScriptToGo.Check.State

/-! The types that written types stand for. -/
namespace ScriptToGo.Check

mutual

/-- The type that a written type of a module stands for; `expand` finds what a type alias stands
for. -/
def typeOf (file : FileId) (expand : String → Span → Check Ty) : TypeExpr → Check Ty
  | .named span name args => do
    let types ← typesOf file expand args
    if name == Builtin.arrayName || (Builtin.pointer? name).isSome then
      match types with
      | [type] => return if name == Builtin.arrayName then .array type else .reference name [type]
      | _ => fault file (.missingArgument name) span
    else
      match ← kind? name with
      | some (.builtin type) =>
        if !args.isEmpty then report file (.notGeneric name) span
        return type
      | some (.interface _) => return .reference name types
      | some (.«alias» ..) => expand name span
      | some _ => fault file (.valueAsType name) span
      | none => fault file (.unknownName name) span
  | .array _ element => return .array (← typeOf file expand element)
  | .string _ body => return .stringLit body
  | .number _ text => return .numberLit text
  | .boolean _ value => return .booleanLit value
  | .null _ => return .null
  | .object _ members => return .object (← fieldsOf file expand members)

def typesOf (file : FileId) (expand : String → Span → Check Ty) : List TypeExpr → Check (List Ty)
  | [] => return []
  | t :: rest => do
    let type ← typeOf file expand t
    let types ← typesOf file expand rest
    return type :: types

def fieldsOf (file : FileId) (expand : String → Span → Check Ty) : List Member → Check (List Field)
  | [] => return []
  | .mk _ name _ t :: rest => do
    let type ← typeOf file expand t
    let fields ← fieldsOf file expand rest
    return .mk name type :: fields

end

def without (name : String) (names : List String) : List String := names.filter (· ≠ name)

/-- Leaving out a name that is there makes the list shorter. -/
theorem length_without_lt {name : String} {names : List String} (h : name ∈ names) :
    (without name names).length < names.length :=
  List.length_filter_lt_length_iff_exists.2 ⟨name, h, by simp⟩

/-- What a type alias stands for, which is found in the module that declares it and then kept.
An alias that is not among the `free` ones is being looked into already. -/
def aliasType (free : List String) (file : FileId) (name : String) (span : Span) : Check Ty := do
  let symbols := (← get).symbols
  match symbols.lookup name with
  | none => return .unknown
  | some id =>
    match symbols.symbol? id with
    | some ⟨_, .«alias» _ (some target), _, _, _⟩ => return .«alias» name target
    | some ⟨_, .«alias» written none, _, file?, _⟩ =>
      if _ : name ∈ free then
        let owner := file?.getD file
        let target ← recording owner written.span <|
          typeOf owner (aliasType (without name free) owner) written
        modifySymbols (·.setKind id (.«alias» written (some target)))
        return .«alias» name target
      else fault file (.circularAlias name) span
    | _ => return .unknown
termination_by free.length
decreasing_by exact length_without_lt ‹_›

/-- Every name that is defined, now or earlier. -/
def definedNames : Check (List String) := do
  return (← get).symbols.symbols.toList.map Symbol.name

/-- Finds what a type alias stands for, from outside of any alias. -/
def resolveAlias (file : FileId) (name : String) (span : Span) : Check Ty := do
  aliasType (← definedNames) file name span

/-- Finds the type that a written type stands for and gives it to its place. -/
def resolveType (file : FileId) (t : TypeExpr) : Check Ty := do
  let free ← definedNames
  recording file t.span (typeOf file (aliasType free file) t)

/-- The type of a place where a type may be left out. -/
def resolveOptional (file : FileId) : Option TypeExpr → Check Ty
  | some t => resolveType file t
  | none => return .any

end ScriptToGo.Check
