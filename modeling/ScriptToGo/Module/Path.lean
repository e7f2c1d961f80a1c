/-! File paths and the way imports name them. -/
namespace ScriptToGo

/-- One step of a path. -/
inductive Step
  | root
  /-- The directory itself; only ever the first step. -/
  | here
  | up
  | entry (name : String)
deriving DecidableEq

/-- A file path as written. Two paths are the same place when their steps agree. -/
structure Path where
  text : String
deriving DecidableEq

namespace Path

/-- The step that a piece writes; empty pieces and inner dots write none. -/
def step? (piece : List Char) : Option Step :=
  if piece = [] ∨ piece = ['.'] then none
  else if piece = ['.', '.'] then some .up
  else some (.entry (String.ofList piece))

/-- The steps that a text writes between its slashes. A dot counts only at the very front. -/
def stepsOf (cs : List Char) : List Step :=
  let pieces := cs.splitOn '/'
  let tail := pieces.filterMap step?
  if cs.head? = some '/' then .root :: tail
  else if pieces.head? = some ['.'] then .here :: tail
  else tail

def steps (p : Path) : List Step := stepsOf p.text.toList

def isAbsolute (p : Path) : Bool := p.steps.head? = some .root

def stepText : Step → String
  | .root => ""
  | .here => "."
  | .up => ".."
  | .entry name => name

def ofSteps (steps : List Step) : Path :=
  if steps = [.root] then ⟨"/"⟩ else ⟨"/".intercalate (steps.map stepText)⟩

/-- Adds a step to steps that are already in normal form: a step up takes back a named one, is
lost at the root, and is kept otherwise. -/
def pushNormal (done : List Step) (s : Step) : List Step :=
  match s with
  | .here => done
  | .up =>
    match done.getLast? with
    | some (.entry _) => done.dropLast
    | some .root => done
    | _ => done ++ [.up]
  | s => done ++ [s]

/-- Steps without dots, and with steps up only where nothing is left to take back. -/
def normalSteps (steps : List Step) : List Step := steps.foldl pushNormal []

/-- The normal form of a path, found without looking at any file. -/
def normalize (p : Path) : Path := ofSteps (normalSteps p.steps)

/-- A path seen from another one. An absolute path is that path; any other is written behind the
first one, after a slash if that has none at its end. -/
def join (base p : Path) : Path :=
  if p.isAbsolute then p
  else if base.text = "" ∨ base.text.toList.getLast? = some '/' then ⟨base.text ++ p.text⟩
  else ⟨base.text ++ "/" ++ p.text⟩

/-- The steps of the directory that holds a path; the root has none above it. -/
def directory (steps : List Step) : List Step :=
  if steps.getLast? = some .root then [] else steps.dropLast

/-- Whether a file name has an extension. A dot in front of it all starts none. -/
def hasExtension (name : String) : Bool := (name.toList.drop 1).contains '.'

/-- Adds the extension of source files to a last step that is a name without one. -/
def withExtension (steps : List Step) : List Step :=
  match steps.getLast? with
  | some (.entry name) =>
    if hasExtension name then steps else steps.dropLast ++ [.entry (name ++ ".ts")]
  | _ => steps

/-- The file that an import path names, seen from the file that imports it. -/
def resolve (importer : Path) (specifier : String) : Path :=
  let target : Path := ⟨specifier⟩
  let steps := if target.isAbsolute then target.steps else directory importer.steps ++ target.steps
  ofSteps (withExtension (normalSteps steps))

end Path

end ScriptToGo
