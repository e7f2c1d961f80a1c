import ScriptToGo.Check.Expr

/-! The types of what statements declare and compute. -/
namespace ScriptToGo
open Check

namespace Check

def bindParams (file : FileId) : List Param → List Field → Check PUnit
  | p :: params, f :: fields => do
    bind file p.name f.type none
    bindParams file params fields
  | _, _ => return

/-- Works inside a function. Its parameters are defined there, and its result type is that of all
values that it returns. -/
def inFunction (file : FileId) (head : FunctionHead) (work : Check PUnit) : Check PUnit := do
  let params ← recordedParams file head.params
  let returns ← recordedReturns file head
  inScope .function do
    modifySymbols (·.setReturnType returns)
    bindParams file head.params params
    work

/-- Works inside the scope of a loop body or a branch, which has one even without braces. -/
def inBranch (branch : Statement) (work : Check PUnit) : Check PUnit :=
  match branch with
  | .block .. => work
  | _ => inScope .block work

/-- Finds the types of an expression whose value is not used. -/
def checkValue (file : FileId) (e : Expr) : Check PUnit := discard <| e.check file (.value none)

/-- The type of a declared variable. A written type decides; without one, only a constant keeps the
type of a single value. -/
def declaredType (keyword : VariableKeyword) : Option Ty → Option Ty → Ty
  | some written, _ => written
  | none, some inferred => if keyword = .constant then inferred else inferred.widened
  | none, none => .any

end Check

/-- Finds the type of a variable and defines it. -/
def Declarator.check (file : FileId) (keyword : VariableKeyword) (d : Declarator) :
    Check PUnit := do
  let written? ← d.type?.mapM (resolveType file)
  let inferred? ← d.initializer?.mapM (·.check file (.value written?))
  if keyword = .constant ∧ d.initializer?.isNone then
    report file .uninitializedConstant d.name.span
  let type := declaredType keyword written? inferred?
  record file d.span type
  bind file d.name type (some keyword)

/-- Finds the types of variables and defines them in order. -/
def VariableList.check (file : FileId) (list : VariableList) : Check PUnit :=
  list.declarators.forM (·.check file list.keyword)

/-- Finds the types in the first clause of a loop and defines its variables. -/
def LoopStart.check (file : FileId) : LoopStart → Check PUnit
  | .nothing => return
  | .«variables» _ list => list.check file
  | .expression value => checkValue file value

/-- Finds the types in the clauses of a loop and defines its variables. -/
def LoopClauses.check (file : FileId) (clauses : LoopClauses) : Check PUnit := do
  clauses.start.check file
  clauses.condition?.forM (checkValue file)
  clauses.step?.forM (checkValue file)

mutual

/-- Finds the types in a statement inside of a function or a block. -/
def Statement.check (file : FileId) : Statement → Check PUnit
  | .function _ head _ body => do
    collectFunction file head true
    inFunction file head (Statement.checkAll file body)
  | .overload _ head => do
    collectFunction file head false
    inFunction file head (return)
  | .importing span _ => report file .nestedImport span
  | .interface span decl =>
    report file (.nestedDeclaration (Statement.interface span decl).kindName) span
  | .typeAlias span decl =>
    report file (.nestedDeclaration (Statement.typeAlias span decl).kindName) span
  | .block _ body => inScope .block (Statement.checkAll file body)
  | .expression _ value => checkValue file value
  | .forLoop _ clauses body => inScope .block do
    clauses.check file
    inBranch body (body.check file)
  | .returning span value? => do
    let expected? := (← get).symbols.returnType?
    if expected?.isNone then report file .returnOutsideFunction span
    value?.forM fun value => discard <| value.check file (.value expected?)
  | .«variables» _ list => list.check file
  | .ifThen _ condition thenBranch => do
    checkValue file condition
    inBranch thenBranch (thenBranch.check file)
  | .ifElse _ condition thenBranch elseBranch => do
    checkValue file condition
    inBranch thenBranch (thenBranch.check file)
    inBranch elseBranch (elseBranch.check file)
  | .whileLoop _ condition body => do
    checkValue file condition
    inBranch body (body.check file)
  | .doLoop _ body condition => do
    inBranch body (body.check file)
    checkValue file condition
  | .empty _ => return

/-- Finds the types in statements, one after the other. -/
def Statement.checkAll (file : FileId) : List Statement → Check PUnit
  | [] => return
  | s :: rest => do
    s.check file
    Statement.checkAll file rest

end

end ScriptToGo
