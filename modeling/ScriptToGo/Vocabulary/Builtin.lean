/-! The types and values that programs may name without declaring them. -/
namespace ScriptToGo

/-- A type named by a bare word. -/
inductive Primitive
  | number | string | boolean | void | any
deriving DecidableEq

namespace Primitive

def all : List Primitive := [number, string, boolean, void, any]

def spelling : Primitive → String
  | number => "number"
  | string => "string"
  | boolean => "boolean"
  | void => "void"
  | any => "any"

def ofSpelling? (text : String) : Option Primitive :=
  all.find? (·.spelling == text)

end Primitive

namespace Builtin

def arrayName : String := "Array"

def pointerName : String := "Pointer"

def pointerShortName : String := "ptr"

/-- Either spelling of the pointer wrapper stands for the long one. -/
def pointer? (name : String) : Option String :=
  if name == pointerName || name == pointerShortName then some pointerName else none

/-- Numeric types that check as numbers and keep their own spelling in generated code. -/
def numericAliases : List String :=
  ["int", "int8", "int16", "int32", "int64",
   "uint", "uint8", "uint16", "uint32", "uint64", "float32", "float64"]

/-- Whether a name is one of the numeric aliases. -/
def isNumericAlias (name : String) : Bool := numericAliases.contains name

/-- A value that exists in every program. -/
structure Global where
  name : String
  typeName : String
  /-- Its methods, each taking anything and giving nothing. -/
  methods : List String
  /-- The module that generated code imports to use it. -/
  importPath : String

def console : Global :=
  ⟨"console", "Console", ["info", "log", "warn", "error"], "ts2go/console"⟩

def globals : List Global := [console]

def global? (name : String) : Option Global := globals.find? (·.name == name)

end Builtin

end ScriptToGo
