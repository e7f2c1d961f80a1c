import ScriptToGo.Check.Fault
import ScriptToGo.Check.Symbols
import ScriptToGo.Module.Graph
import ScriptToGo.Types.Table

/-! What checking knows and has found so far. -/
namespace ScriptToGo

/-- The state of checking. -/
structure CheckState where
  symbols : SymbolTable
  /-- The errors found so far, in the order in which they were found. -/
  errors : List TypeError
  types : TypeTable

abbrev Check := StateM CheckState

namespace CheckState

def initial : CheckState := ⟨.initial, [], .empty⟩

def report (s : CheckState) (e : TypeError) : CheckState := { s with errors := s.errors ++ [e] }

def record (s : CheckState) (file : FileId) (span : Span) (type : Ty) : CheckState :=
  { s with types := s.types.record file span type }

end CheckState

namespace Check

def report (file : FileId) (fault : TypeFault) (span : Span) : Check PUnit :=
  modify (·.report ⟨file, fault, span⟩)

/-- Reports a fault and goes on without a type. -/
def fault (file : FileId) (fault : TypeFault) (span : Span) : Check Ty := do
  report file fault span
  return .unknown

def record (file : FileId) (span : Span) (type : Ty) : Check PUnit :=
  modify (·.record file span type)

def recording (file : FileId) (span : Span) (find : Check Ty) : Check Ty := do
  let type ← find
  record file span type
  return type

def recorded? (file : FileId) (span : Span) : Check (Option Ty) := do
  return (← get).types.typeAt file span

def modifySymbols (f : SymbolTable → SymbolTable) : Check PUnit :=
  modify fun s => { s with symbols := f s.symbols }

def kind? (name : String) : Check (Option SymbolKind) := do
  return (← get).symbols.kind? name

/-- Defines a name for a module in the current scope. -/
def define (file : FileId) (name : String) (kind : SymbolKind) (span : Span) : Check PUnit :=
  modifySymbols (·.define name kind span (some file))

def inScope (kind : ScopeKind) (work : Check PUnit) : Check PUnit := do
  modifySymbols (·.enter kind)
  work
  modifySymbols (·.exit)

/-- Defines a parameter or, with the word that declares it, a variable. A scope holds a name only
once. -/
def bind (file : FileId) (name : Name) (type : Ty) (keyword? : Option VariableKeyword) :
    Check PUnit := do
  if ((← get).symbols.lookupLocal name.text).isSome then
    let fault : TypeFault := match keyword? with
      | none => .duplicateIdentifier name.text
      | some _ => .redeclared name.text
    report file fault name.span
  else define file name.text (.variable type keyword?) name.span

end Check

end ScriptToGo
