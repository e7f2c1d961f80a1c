import ScriptToGo.Go.Code
import ScriptToGo.Go.View
import ScriptToGo.Output.Options
import ScriptToGo.Output.Stack

/-! Writing Go code while moving from module to module. -/
namespace ScriptToGo

/-- What is kept while Go code is written. -/
structure Session where
  options : Options
  types : TypeTable
  /-- The texts being written; all writing goes to the newest. -/
  outputs : Stack TextTree
  /-- The modules from the entry to the one that is being written. -/
  files : Stack Module
  needed : List String

namespace Session

/-- A session that has written nothing and stands in the entry of the program. -/
def start (g : ModuleGraph) (types : TypeTable) (options : Options) : Session :=
  ⟨options, types, .start "output" (.empty 0 options.indent), .start "source file" g.entry, []⟩

/-- What is known about the module that is being written. -/
def view (s : Session) : View := ⟨s.files.top, s.types⟩

def modifyOutput (f : TextTree → TextTree) (s : Session) : Session :=
  { s with outputs := s.outputs.modifyTop f }

def pushOutput (t : TextTree) (s : Session) : Session := { s with outputs := s.outputs.push t }

/-- Returns to the text before, and gives what has been written since. -/
def popOutput (s : Session) : Except Misuse (TextTree × Session) := do
  let (t, outputs) ← s.outputs.pop
  return (t, { s with outputs })

def pushFile (m : Module) (s : Session) : Session := { s with files := s.files.push m }

def popFile (s : Session) : Except Misuse (Module × Session) := do
  let (m, files) ← s.files.pop
  return (m, { s with files })

/-- Whether a module is being written, be it on the way to another. -/
def isWriting (s : Session) (id : FileId) : Bool := s.files.toList.any (·.id == id)

def need (imports : List String) (s : Session) : Session :=
  { s with needed := s.needed ++ imports }

def imports (s : Session) : List String := s.options.importsFor s.needed

def write (c : Code) (s : Session) : Session := (s.modifyOutput c.write).need c.imports

/-- The text of a session that has returned from everywhere. -/
def finish (s : Session) : Except Misuse TextTree := do
  let _ ← s.files.finish
  s.outputs.finish

end Session

end ScriptToGo
