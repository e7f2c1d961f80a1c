import ScriptToGo.Check.Module
import ScriptToGo.Go.Unit
import ScriptToGo.Module.Loader

/-! From the files of a program to its Go code. -/
namespace ScriptToGo

/-- Why a program is not compiled. -/
inductive CompileFailure
  | load (failure : LoadFailure)
  | check (program : ModuleGraph) (errors : List TypeError)
  | write (program : ModuleGraph) (failure : Failure)

def CompileFailure.message : CompileFailure → String
  | load failure => failure.message
  | check program errors => s!"{errors.length} type error(s) in '{program.entry.path.text}'"
  | write _ failure => failure.message

/-- What is shown of a failure: an error beside the source that it is about, or else a line. -/
inductive Report
  | excerpt (shown : Diagnostic.Excerpt)
  | line (text : String)

/-- What is shown of a failure. Only a file that cannot be read has no source to show. -/
def CompileFailure.reports : CompileFailure → List Report
  | load (.malformed path text errors) =>
    errors.map fun e => .excerpt (e.diagnostic.excerpt path.text text)
  | load failure => [.line s!"error: {failure.message}"]
  | check program errors =>
    errors.map fun e =>
      let m := (program.module? e.file).getD program.entry
      .excerpt (e.diagnostic.excerpt m.path.text m.source)
  | write program (.refused refusal) =>
    match program.lookup refusal.location.path with
    | some m =>
      [.excerpt (.plain s!"emit error: {refusal.cause.message}" m.path.text m.source
        refusal.location.span)]
    | none => [.line s!"error: {refusal.message}"]
  | write _ failure => [.line s!"error: {failure.message}"]

/-- A program that keeps the rules of types. -/
structure CheckedProgram where
  graph : ModuleGraph
  types : TypeTable

def checkProgram (sources : Sources) (entry : Path) : Except CompileFailure CheckedProgram :=
  match ModuleGraph.load sources entry with
  | .error failure => .error (.load failure)
  | .ok graph =>
    match graph.check with
    | .error errors => .error (.check graph errors)
    | .ok types => .ok ⟨graph, types⟩

def compile (sources : Sources) (entry : Path) (options : Options) : Except CompileFailure String := do
  let program ← checkProgram sources entry
  match program.graph.toGo program.types options with
  | .error failure => .error (.write program.graph failure)
  | .ok code => .ok code

end ScriptToGo
