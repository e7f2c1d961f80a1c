import ScriptToGo.Module.Path
import ScriptToGo.Program.Statement

/-! The modules of a program and how they refer to each other. -/
namespace ScriptToGo

/-- The number of a module: its place in the order of discovery. -/
abbrev FileId := Nat

/-- A source file that has been read. -/
structure Module where
  id : FileId
  path : Path
  source : String
  program : Program
  /-- The canonical paths of its imports, in source order. -/
  imports : List Path

/-- Every module that an entry file needs, the entry first. -/
structure ModuleGraph where
  modules : List Module
  /-- The numbers of modules under each path that names one. -/
  names : List (List Step × FileId)
  /-- There is an entry. -/
  ne_nil : modules ≠ []

namespace ModuleGraph

def entry (g : ModuleGraph) : Module := g.modules.head g.ne_nil

def module? (g : ModuleGraph) (id : FileId) : Option Module := g.modules[id]?

def lookup (g : ModuleGraph) (p : Path) : Option Module :=
  (g.names.lookup p.steps).bind g.module?

/-- The module that an import path names, seen from a module. -/
def resolveImport (g : ModuleGraph) (importer : FileId) (specifier : String) : Option Module :=
  (g.module? importer).bind fun m => g.lookup (m.path.resolve specifier)

end ModuleGraph

end ScriptToGo
