import ScriptToGo.Check.Statement

/-! The types of whole modules and of programs. -/
namespace ScriptToGo
open Check

/-- What a module lets others import by name. -/
inductive Export
  /-- A function, and whether this declaration has its body. -/
  | function (head : FunctionHead) (hasBody : Bool)
  | type (name : String)

namespace Statement

/-- The function that a statement declares, and whether with its body. -/
def function? : Statement → Option (FunctionHead × Bool)
  | function _ head _ _ => some (head, true)
  | overload _ head => some (head, false)
  | _ => none

/-- The default export that a statement makes. -/
def defaultExport? (s : Statement) : Option (FunctionHead × Bool) :=
  s.function?.filter fun (head, _) => head.isExported && head.isDefault

def export? (name : String) : Statement → Option Export
  | interface _ decl =>
    if decl.isExported && decl.name.text == name then some (.type name) else none
  | typeAlias _ decl =>
    if decl.isExported && decl.name.text == name then some (.type name) else none
  | s =>
    match s.function? with
    | some (head, hasBody) =>
      if head.isExported && !head.isDefault && head.name?.any (·.text == name) then
        some (.function head hasBody)
      else none
    | none => none

end Statement

namespace Check

/-- Defines an imported function under its local name. -/
def bindImported (file : FileId) (name : Name) (owner : FileId) (head : FunctionHead)
    (hasBody : Bool) : Check PUnit := do
  let params ← recordedParams owner head.params
  let returns ← recordedReturns owner head
  define file name.text (.function params returns hasBody) name.span

/-- Defines one of the names that an import lists. A type has its own name everywhere, so that only
another local name is defined. -/
def checkImportedName (file : FileId) (specifier : String) (m : Module) (entry : ImportedName) :
    Check PUnit := do
  match m.program.findSome? (Statement.export? entry.imported) with
  | some (.function head hasBody) =>
    bindImported file ⟨entry.localName, entry.span⟩ m.id head hasBody
  | some (.type name) =>
    if entry.localName ≠ name then
      match ← kind? name with
      | some kind => define file entry.localName kind entry.span
      | none => return
  | none => report file (.noExportedMember specifier entry.imported) entry.span

def checkImport (g : ModuleGraph) (file : FileId) (decl : ImportDecl) : Check PUnit := do
  let specifier := decl.specifier.text
  match g.resolveImport file specifier with
  | none => report file (.unknownModule specifier) decl.specifier.span
  | some m =>
    decl.whole?.forM fun whole => report file (.wholeModuleImport specifier) whole.span
    decl.default?.forM fun name =>
      match m.program.findSome? Statement.defaultExport? with
      | some (head, hasBody) => bindImported file name m.id head hasBody
      | none => report file (.noDefaultExport specifier) name.span
    decl.named.forM (checkImportedName file specifier m)

/-- Finds the types in a statement that no other statement holds. What it declares for all modules
has been collected before. -/
def checkTopLevel (g : ModuleGraph) (file : FileId) : Statement → Check PUnit
  | .function _ head _ body => inFunction file head (Statement.checkAll file body)
  | .overload _ head => inFunction file head (return)
  | .importing _ decl => checkImport g file decl
  | .interface .. | .typeAlias .. => return
  | s => s.check file

def checkModule (g : ModuleGraph) (m : Module) : Check PUnit :=
  inScope .module (m.program.forM (checkTopLevel g m.id))

def checkModules (g : ModuleGraph) : Check PUnit := do
  collect g
  g.modules.forM (checkModule g)

end Check

/-- The types of all parts of a program, or everything that is wrong with it. -/
def ModuleGraph.check (g : ModuleGraph) : Except (List TypeError) TypeTable :=
  let state := ((checkModules g).run .initial).2
  if state.errors.isEmpty then .ok state.types else .error state.errors

end ScriptToGo
