import ScriptToGo.Check.TypeExpr

/-! Collecting what modules declare, before anything inside is checked. -/
namespace ScriptToGo.Check

/-- Defines a name that all modules see. In one module it may be declared once; of several modules
the first one counts. -/
def defineGlobal (file : FileId) (name : Name) (kind : SymbolKind) : Check PUnit := do
  let symbols := (← get).symbols
  match symbols.lookupLocal name.text with
  | none => define file name.text kind name.span
  | some id =>
    let owner := (symbols.symbol? id).bind Symbol.file?
    if owner.isNone || owner == some file then
      report file (.duplicateIdentifier name.text) name.span

/-- The symbol of a declaration, unless another declaration of the name counts instead. -/
def ownGlobal? (file : FileId) (name : Name) : Check (Option SymbolId) := do
  let symbols := (← get).symbols
  return (symbols.lookupLocal name.text).filter fun id =>
    (symbols.symbol? id).any fun s => s.file? == some file && s.span == name.span

def collectTypeName (file : FileId) : Statement → Check PUnit
  | .interface _ decl => defineGlobal file decl.name (.interface [])
  | .typeAlias _ decl => defineGlobal file decl.name (.«alias» decl.type none)
  | _ => return

/-- Finds the types of the members of an interface. -/
def collectMembers (file : FileId) : List Member → Check (List Field)
  | [] => return []
  | m :: rest => do
    let type ← resolveType file m.type
    let fields ← collectMembers file rest
    return .mk m.name type :: fields

/-- Finds the types of parameters and gives them to their places. -/
def collectParams (file : FileId) : List Param → Check (List Field)
  | [] => return []
  | p :: rest => do
    let type ← recording file p.span (resolveOptional file p.type?)
    let fields ← collectParams file rest
    return .mk p.name.text type :: fields

/-- Defines a function. Overloads share the name of the body that they announce, and a module
gives a function one body. -/
def collectFunction (file : FileId) (head : FunctionHead) (hasBody : Bool) : Check PUnit := do
  let params ← collectParams file head.params
  let returns ← resolveOptional file head.returns?
  match head.name? with
  | none => return
  | some name =>
    let symbols := (← get).symbols
    match symbols.lookupLocal name.text with
    | none => define file name.text (.function params returns hasBody) name.span
    | some id =>
      match symbols.symbol? id with
      | some ⟨_, .function params returns hadBody, _, owner, _⟩ =>
        if owner == some file then
          modifySymbols (·.setKind id (.function params returns (hadBody || hasBody)))
          if hadBody && hasBody then
            report file (.duplicateImplementation name.text) name.span
      | _ => report file (.duplicateIdentifier name.text) name.span

def collectDeclaration (file : FileId) : Statement → Check PUnit
  | .interface _ decl => do
    let members ← collectMembers file decl.members
    match ← ownGlobal? file decl.name with
    | none => return
    | some id =>
      match ((← get).symbols.symbol? id).map Symbol.kind with
      | some (.interface _) => modifySymbols (·.setKind id (.interface members))
      | _ => return
  | .typeAlias _ decl => do
    if (← ownGlobal? file decl.name).isSome then
      discard <| resolveAlias file decl.name.text decl.name.span
  | .function _ head _ _ => collectFunction file head true
  | .overload _ head => collectFunction file head false
  | _ => return

/-- Collects the declarations of all modules, the names of types first, so that every type is known
when the others are read. -/
def collect (g : ModuleGraph) : Check PUnit := do
  g.modules.forM fun m => m.program.forM (collectTypeName m.id)
  g.modules.forM fun m => m.program.forM (collectDeclaration m.id)

/-- The types of parameters as they were collected. -/
def recordedParams (file : FileId) : List Param → Check (List Field)
  | [] => return []
  | p :: rest => do
    let type := (← recorded? file p.span).getD .any
    let fields ← recordedParams file rest
    return .mk p.name.text type :: fields

/-- The result type of a function as it was collected. -/
def recordedReturns (file : FileId) (head : FunctionHead) : Check Ty := do
  match head.returns? with
  | none => return .any
  | some t => return (← recorded? file t.span).getD .any

end ScriptToGo.Check
