import ScriptToGo.Go.Refusal
import ScriptToGo.Module.Graph

/-! What is known about a module while it is written in Go. -/
namespace ScriptToGo

/-- A module and the types of its parts. -/
structure View where
  module : Module
  types : TypeTable

namespace View

def location (v : View) (span : Span) : Except Failure Location :=
  match Text.position? v.module.source span.start with
  | some position => .ok ⟨v.module.path, position, span⟩
  | none => .error (.misused .insideCharacter)

def refuse {α : Type} (v : View) (span : Span) (cause : RefusalCause) : Except Failure α := do
  let location ← v.location span
  throw (.refused ⟨location, cause⟩)

def typeAt (v : View) (span : Span) : Option Ty := v.types.typeAt v.module.id span

def isArray (v : View) (span : Span) : Bool := v.types.isArrayAt v.module.id span

def isNumber (v : View) (span : Span) : Bool := v.types.isNumberAt v.module.id span

/-- The Go name of the type of a part, if it has one. -/
def typeName? (v : View) (span : Span) : Option String :=
  (v.types.goNameAt v.module.id span).toOption

/-- The Go name of the type of a part, which is called `what` if it has none. -/
def typeName (v : View) (span : Span) (what : String) : Except Failure String :=
  match v.types.goNameAt v.module.id span with
  | .ok name => .ok name
  | .error e => v.refuse span (.unmet (.typeName what e))

/-- Whether the Go type of a part is that of strings. -/
def isString (v : View) (span : Span) : Bool := v.typeName? span == some Target.string

/-- A name as it is written, which is its Go spelling too if it has no dollar sign. -/
def plainName (v : View) (name : String) (span : Span) : Except Failure String :=
  if name.toList.contains '$' then v.refuse span (.unmet (.plainName name)) else .ok name

/-- The modules that code needs for naming a value: that of a global value, where the name means
it. -/
def importsOfName (v : View) (name : String) (span : Span) : List String :=
  match Builtin.global? name, v.typeAt span with
  | some g, some (.reference typeName _) => if typeName == g.typeName then [g.importPath] else []
  | _, _ => []

end View

end ScriptToGo
