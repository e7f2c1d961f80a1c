import ScriptToGo.Go.Statement
import ScriptToGo.Module.Walk
import ScriptToGo.Output.Session

/-! Programs in Go. -/
namespace ScriptToGo

namespace WalkStep

/-- Takes a step of the walk. Every function is followed by an empty line. -/
def emit (s : Session) : WalkStep → Except Failure Session
  | enter m => return s.pushFile m
  | leave => return (← guarded s.popFile).2
  | statement written => do
    let code ← written.toGoTopLevel s.view
    return (s.write code).modifyOutput .newLine

end WalkStep

/-- Writes the list of imports, unless it is empty. -/
def TextTree.writeImports (imports : List String) (t : TextTree) : TextTree :=
  if imports.isEmpty then t
  else
    let opened := (t.appendLine "import (").indent
    let listed := imports.foldl (fun t path => t.appendLine s!"\"{path}\"") opened
    (listed.unindent.appendLine ")").newLine

namespace Session

/-- Writes the package and keeps a place for the imports. -/
def writePreamble (s : Session) : SlotId × Session :=
  let named := s.outputs.modifyTop fun t =>
    (t.appendLine s!"package {s.options.package}").newLine
  let (slot, t) := named.top.reserve
  (slot, { s with outputs := named.modifyTop fun _ => t })

/-- Writes the imports to the place that was kept for them. -/
def fillImports (slot : SlotId) (s : Session) : Except Misuse Session := do
  let (buffer, t) ← s.outputs.top.take slot
  let inner := (s.modifyOutput fun _ => t).pushOutput buffer
  let (buffer, s) ← (inner.modifyOutput (.writeImports inner.imports)).popOutput
  let t ← s.outputs.top.fill slot buffer
  return s.modifyOutput fun _ => t

end Session

/-- The Go code of a program: the package, the imports, and the functions of all modules in the
order of the walk, with an empty line between them. -/
def ModuleGraph.toGo (g : ModuleGraph) (types : TypeTable) (options : Options) :
    Except Failure String := do
  let (slot, s) := (Session.start g types options).writePreamble
  let s ← g.walk.foldlM WalkStep.emit s
  let s ← guarded ((s.modifyOutput .removeLine).fillImports slot)
  return (← guarded s.finish).render

end ScriptToGo
